import VirtualTree.Proofs.Materialization
import VirtualTree.Update.Apply

/-!
# Untouched nodes while updates are prepared

Preparing an update leaves every node that was there as it was, whether it succeeds or fails
(`keeps_prepare`).  What comes out is the same update with a plain node for its target and other content
(`Update.Realizes`), which is admitted if the memo holds admitted nodes only and inserted nodes of the
document are copied.  Besides that, preparation keeps everything of the document that the building of
trees keeps (`keeps_prepare_of_build`).
-/

namespace VirtualTree

open Document

/-! ## Prepared updates -/

namespace Action

variable {α β : Type}

/-- The action with other nodes brought in. -/
def withContent (content : List β) : Action α → Action β
  | .delete => .delete
  | .insert place _ => .insert place content
  | .insertAttributes _ => .insertAttributes content
  | .rename name => .rename name
  | .replaceNode _ => .replaceNode content
  | .replaceValue value => .replaceValue value
  | .replaceElementContent text => .replaceElementContent text
  | .put uri => .put uri

@[simp] theorem kind_withContent (content : List β) (a : Action α) :
    (a.withContent content).kind = a.kind := by
  cases a <;> rfl

end Action

/-- A prepared update is the update it was made from, with a plain node for its target and other
content. -/
structure Update.Realizes (v : Update NodeId) (u : Update Pointer) : Prop where
  target : u.target.plainNode? = some v.target
  action : v.action = u.action.withContent v.content

variable {base : Document} {admitted : NodeId → Prop}

namespace Construct

/-- The nodes that are chosen as content without a copy are admitted as well. -/
def Chooses (setting : Setting) (admitted : NodeId → Prop) : Prop :=
  setting.copyInserted = false → ∀ i, admitted i

theorem keeps_require {I : Construction → Prop} (condition : Bool) (e : Error) :
    Keeps I (require condition e) fun _ => condition = true := by
  unfold require
  split_ifs with h
  · exact keeps_pure h
  · exact keeps_throw e

theorem keeps_mapError {α : Type} {I : Construction → Prop} {m : Construct α} {Q : α → Prop}
    (h : Keeps I m Q) (change : Error → Error) : Keeps I (mapError change m) Q := by
  intro s hs
  have := h s hs
  unfold mapError
  split at this
  · rename_i run
    rw [run]
    exact this
  · rename_i run
    rw [run]
    exact this

theorem keeps_use (n : NodeId) : Keeps (Construction.Extends base admitted)
    (modify fun s => { s with used := n :: s.used } : Construct PUnit) fun _ => True :=
  keeps_modify fun _ hs => ⟨hs.document, hs.memo⟩

/-! ## From single nodes to updates

Whatever choosing a single node keeps is kept by preparing an update. -/

section Content

variable {setting : Setting} {I : Construction → Prop}
  (content : ∀ p, Keeps I (contentNode setting p) admitted)
  (children : ∀ s, I s → ∀ n c, admitted n → c ∈ s.document.children n → admitted c)

include content

theorem keeps_attributeContent (kind : UpdateKind) (ps : List Pointer) :
    Keeps I (attributeContent setting kind ps) fun nodes => ∀ n ∈ nodes, admitted n := by
  induction ps with
  | nil => exact keeps_pure fun n hn => by cases hn
  | cons p ps ih =>
    apply (content p).bind
    intro n hn
    apply keeps_get_bind
    intro s hs
    refine ((keeps_require _ _).bind fun _ _ => ih.bind fun more hmore => keeps_pure ?_) s hs
    exact fun m hm => (List.mem_cons.1 hm).elim (fun e => e ▸ hn) (hmore m)

include children

theorem keeps_childContent (kind : UpdateKind) (ps : List Pointer) :
    Keeps I (childContent setting kind ps) fun nodes => ∀ n ∈ nodes, admitted n := by
  induction ps with
  | nil => exact keeps_pure fun n hn => by cases hn
  | cons p ps ih =>
    apply (content p).bind
    intro n hn
    apply keeps_get_bind
    intro s hs
    have rest : ∀ nodes : List NodeId, (∀ m ∈ nodes, admitted m) →
        Keeps I (do return nodes ++ (← childContent setting kind ps))
          fun nodes => ∀ m ∈ nodes, admitted m :=
      fun nodes hnodes => ih.bind fun more hmore => keeps_pure fun m hm =>
        (List.mem_append.1 hm).elim (hnodes m) (hmore m)
    have single : ∀ m ∈ [n], admitted m := fun m hm => List.mem_singleton.1 hm ▸ hn
    cases s.document.kind n with
    | «attribute» => exact hs
    | documentType => exact hs
    | document =>
      exact rest _ (fun m hm => children s hs n m hn (List.mem_of_mem_filter hm)) s hs
    | element | text | comment | processingInstruction => exact rest _ single s hs

theorem keeps_replacementContent (targetKind : Kind) (ps : List Pointer) :
    Keeps I (replacementContent setting targetKind ps) fun nodes => ∀ n ∈ nodes, admitted n := by
  unfold replacementContent
  split_ifs
  · exact keeps_mapError (keeps_attributeContent content _ ps) _
  · exact keeps_mapError (keeps_childContent content children _ ps) _

theorem keeps_prepareAction (targetKind : Kind) (hasParent : Bool) (action : Action Pointer) :
    Keeps I (prepareAction setting targetKind hasParent action)
      fun made => made = action.withContent made.content ∧ ∀ n ∈ made.content, admitted n := by
  have none_in : ∀ n ∈ ([] : List NodeId), admitted n := fun n hn => by cases hn
  cases action with
  | delete => exact keeps_pure ⟨rfl, none_in⟩
  | insert place ps =>
    have content_in := (keeps_childContent content children place.kind ps).bind
      fun nodes h => keeps_pure (a := Action.insert place nodes) (Q := fun made =>
        made = (Action.insert place ps).withContent made.content ∧ ∀ n ∈ made.content, admitted n)
        ⟨rfl, h⟩
    simp only [prepareAction]
    split_ifs
    · exact (keeps_require _ _).bind fun _ _ => (keeps_require _ _).bind fun _ _ => content_in
    · exact (keeps_require _ _).bind fun _ _ => content_in
  | insertAttributes ps =>
    exact (keeps_require _ _).bind fun _ _ =>
      (keeps_attributeContent content _ ps).bind fun nodes h => keeps_pure ⟨rfl, h⟩
  | rename name => exact (keeps_require _ _).bind fun _ _ => keeps_pure ⟨rfl, none_in⟩
  | replaceNode replacement =>
    exact (keeps_require _ _).bind fun _ _ => (keeps_require _ _).bind fun _ _ =>
      (keeps_replacementContent content children targetKind replacement).bind fun nodes h =>
        keeps_pure ⟨rfl, h⟩
  | replaceValue value => exact (keeps_require _ _).bind fun _ _ => keeps_pure ⟨rfl, none_in⟩
  | replaceElementContent text => exact (keeps_require _ _).bind fun _ _ => keeps_pure ⟨rfl, none_in⟩
  | put uri => exact keeps_throw _

/-- Preparing an update keeps what choosing content keeps, and brings in what is chosen. -/
theorem keeps_prepare_of (u : Update Pointer) : Keeps I (prepare setting u)
    fun v => v.Realizes u ∧ ∀ n ∈ v.content, admitted n := by
  apply (keeps_require _ _).bind
  intro _ _
  cases plain : u.target.plainNode? with
  | none => exact keeps_throw _
  | some target =>
    apply keeps_get_bind
    intro s hs
    exact ((keeps_prepareAction content children _ _ u.action).bind fun action h =>
      keeps_pure ⟨⟨plain, h.1⟩, h.2⟩) s hs

end Content

/-! ## Untouched nodes -/

section Untouched

variable {setting : Setting} (admits : Admits base admitted) (chooses : Chooses setting admitted)

include admits chooses

theorem keeps_contentNode (p : Pointer) :
    Keeps (Construction.Extends base admitted) (contentNode setting p) admitted := by
  have chosen : ∀ n, admitted n → Keeps (Construction.Extends base admitted)
      (do modify fun s => { s with used := n :: s.used }; return n : Construct NodeId) admitted :=
    fun n hn => (keeps_use n).bind fun _ _ => keeps_pure hn
  unfold contentNode
  cases plain : p.plainNode? with
  | some id =>
    cases copy : setting.copyInserted with
    | true => exact ((keeps_deepClone id).mono admits.outside).bind chosen
    | false => exact chosen id (chooses copy id)
  | none =>
    apply (keeps_materialize admits setting.arena plain).bind
    intro built hb
    apply keeps_get_bind
    intro s hs
    split_ifs
    · exact ((keeps_deepClone built).mono admits.outside).bind chosen s hs
    · exact chosen built hb s hs

/-- Preparing an update leaves the nodes of `base` as they were, also when it fails. -/
theorem keeps_prepare (u : Update Pointer) :
    Keeps (Construction.Extends base admitted) (prepare setting u)
      fun v => v.Realizes u ∧ ∀ n ∈ v.content, admitted n :=
  keeps_prepare_of (keeps_contentNode admits chooses)
    (fun _ hs n c hn hc => admits.linked _ hs.document n c hn (Or.inl hc)) u

end Untouched

/-! ## Invariants of the document -/

section Building

variable {setting : Setting} {J : Document → Prop} (build : ∀ t : Tree, Keeps J t.build fun _ => True)

include build

theorem keeps_edit_deepClone (id : NodeId) :
    Keeps (fun s => J s.document) (edit (Edit.deepClone id)) fun _ => True :=
  keeps_edit (keeps_get_bind fun d h => build (d.tree id) d h) (fun _ h => h) fun _ _ _ h => h

theorem keeps_builtTop_of_build (arena : Arena) (top : SilhouetteId) :
    Keeps (fun s => J s.document) (builtTop arena top) fun _ => True := by
  have remember : ∀ n, Keeps (fun s => J s.document)
      (do modify fun s => { s with memo := s.memo.insert top n }; return n : Construct NodeId)
      fun _ => True :=
    fun n => Keeps.bind (Q := fun _ => True) (fun _ h => ⟨h, trivial⟩) fun _ _ => keeps_pure trivial
  refine keeps_get_bind fun s hs => ?_
  cases s.memo.built? top with
  | some n => exact ⟨hs, trivial⟩
  | none =>
    exact ((keeps_edit (build _) (fun _ h => h) fun _ _ _ h => h).bind fun n _ => remember n) s hs

theorem keeps_materialize_of_build (arena : Arena) (p : Pointer) :
    Keeps (fun s => J s.document) (materialize arena p) fun _ => True := by
  obtain ⟨node, graft⟩ := p
  cases node with
  | real id =>
    cases graft with
    | nil => exact keeps_pure trivial
    | cons g up => exact keeps_edit_deepClone build id
  | silhouette id =>
    refine keeps_get_bind fun s hs => (Keeps.bind (Q := fun _ => True) ?_ fun descent _ => ?_) s hs
    · exact keeps_ofExcept fun _ _ => trivial
    refine (keeps_builtTop_of_build build arena descent.1).bind fun n _ => ?_
    exact keeps_get_bind fun s hs => keeps_ofExcept (fun _ _ => trivial) s hs

/-- Preparing an update keeps what every building of a tree keeps of the document. -/
theorem keeps_prepare_of_build (u : Update Pointer) :
    Keeps (fun s => J s.document) (prepare setting u) fun v => v.Realizes u := by
  have chosen : ∀ n, Keeps (fun s => J s.document)
      (do modify fun s => { s with used := n :: s.used }; return n : Construct NodeId)
      fun _ => True :=
    fun n => Keeps.bind (Q := fun _ => True) (fun _ h => ⟨h, trivial⟩) fun _ _ => keeps_pure trivial
  have content : ∀ p, Keeps (fun s => J s.document) (contentNode setting p) fun _ => True := by
    intro p
    unfold contentNode
    cases p.plainNode? with
    | some id =>
      cases setting.copyInserted with
      | true => exact (keeps_edit_deepClone build id).bind fun n _ => chosen n
      | false => exact chosen id
    | none =>
      refine (keeps_materialize_of_build build setting.arena p).bind fun built _ => keeps_get_bind fun s hs => ?_
      split_ifs
      · exact ((keeps_edit_deepClone build built).bind fun n _ => chosen n) s hs
      · exact chosen built s hs
  exact (keeps_prepare_of content (fun _ _ _ _ _ _ => trivial) u).mono fun _ h => h.1

end Building

end Construct

end VirtualTree
