import VirtualTree.Proofs.Update.Phases

/-!
# Errors before the first change

The check for contradictions and the preparation of updates fail with errors of their own; only the
carrying out of prepared updates is ever reported as `failedMidway` (`failedMidway_iff`).
`FailsWith m E` says that the failures of a computation have errors with `E`.
-/

namespace VirtualTree

/-- The failures of the computation have errors with `E`. -/
def FailsWith {ε σ α : Type} (m : EStateM ε σ α) (E : ε → Prop) : Prop :=
  ∀ s e s', m s = .error e s' → E e

section Rules

variable {ε σ α β : Type} {E : ε → Prop}

theorem FailsWith.mono {E' : ε → Prop} {m : EStateM ε σ α} (h : FailsWith m E) (le : ∀ e, E e → E' e) :
    FailsWith m E' :=
  fun s e s' run => le e (h s e s' run)

theorem failsWith_pure (a : α) : FailsWith (pure a : EStateM ε σ α) E :=
  fun _ _ _ run => by cases run

theorem failsWith_get : FailsWith (get : EStateM ε σ σ) E := fun _ _ _ run => by cases run

theorem failsWith_modify (f : σ → σ) : FailsWith (modify f : EStateM ε σ PUnit) E :=
  fun _ _ _ run => by cases run

theorem failsWith_throw {e : ε} (h : E e) : FailsWith (throw e : EStateM ε σ α) E :=
  fun _ _ _ run => by cases run; exact h

theorem FailsWith.bind {m : EStateM ε σ α} {f : α → EStateM ε σ β} (hm : FailsWith m E)
    (hf : ∀ a, FailsWith (f a) E) : FailsWith (m >>= f) E := by
  intro s e s' run
  rw [bind_apply] at run
  split at run
  · exact hf _ _ _ _ run
  · cases run
    exact hm _ _ _ ‹_›

theorem failsWith_mapM {f : α → EStateM ε σ β} (h : ∀ a, FailsWith (f a) E) (l : List α) :
    FailsWith (l.mapM f) E := by
  induction l with
  | nil => exact failsWith_pure []
  | cons a l ih =>
    rw [List.mapM_cons]
    exact (h a).bind fun b => ih.bind fun bs => failsWith_pure _

theorem error_of_bind {x : Except ε α} {f : α → Except ε β} {e : ε} (h : x >>= f = .error e) :
    x = .error e ∨ ∃ a, x = .ok a ∧ f a = .error e := by
  cases x with
  | ok a => exact Or.inr ⟨a, rfl, h⟩
  | error e' =>
    cases h
    exact Or.inl rfl

theorem error_of_mapM {f : α → Except ε β} {l : List α} {e : ε} (h : l.mapM f = .error e) :
    ∃ a ∈ l, f a = .error e := by
  induction l with
  | nil => cases h
  | cons a l ih =>
    rw [List.mapM_cons] at h
    rcases error_of_bind h with h | ⟨b, -, h⟩
    · exact ⟨a, List.mem_cons_self, h⟩
    rcases error_of_bind h with h | ⟨bs, -, h⟩
    · obtain ⟨c, hc, h⟩ := ih h
      exact ⟨c, List.mem_cons_of_mem a hc, h⟩
    · cases h

end Rules

/-- The error is not that of an application that failed midway. -/
def Error.Early : Error → Prop
  | .failedMidway _ => False
  | _ => True

theorem Error.early_refused (kind : UpdateKind) (r : Refusal) : (refused kind r).Early := trivial

/-- The error is raised by a checked operation or by a copy. -/
def Error.OfEdit : Error → Prop
  | .vanishedReference | .documentTypeCopy => True
  | e => e.RefusesEdit

theorem Error.OfEdit.early {e : Error} (h : e.OfEdit) : e.Early := by
  cases e <;> first | exact trivial | exact h.elim

namespace Edit

open Document

theorem ofEdit_of_refusesEdit {e : Error} (h : e.RefusesEdit) : e.OfEdit := by
  cases e <;> first | exact trivial | exact h.elim

theorem failsWith_refuse {reason? : Option Error} (h : ∀ e, reason? = some e → e.RefusesEdit) :
    FailsWith (refuse reason?) Error.OfEdit := by
  cases reason? with
  | none => exact failsWith_pure ()
  | some e => exact failsWith_throw (ofEdit_of_refusesEdit (h e rfl))

theorem failsWith_insertBefore (parent child : NodeId) (reference? : Option NodeId) :
    FailsWith (insertBefore parent child reference?) Error.OfEdit := by
  refine failsWith_get.bind fun d => ?_
  refine (failsWith_refuse fun e => refusesEdit_of_childRefusal?).bind fun _ => ?_
  cases reference? with
  | none => exact (failsWith_modify _).bind fun _ => failsWith_modify _
  | some r =>
    dsimp only
    split_ifs
    · exact failsWith_pure _
    · refine failsWith_get.bind fun d => ?_
      refine (failsWith_refuse fun e => refusesEdit_of_positionRefusal?).bind fun _ => ?_
      refine (failsWith_modify _).bind fun _ => failsWith_get.bind fun d => ?_
      split_ifs
      · exact failsWith_modify _
      · exact failsWith_throw trivial

theorem failsWith_setAttribute (owner attr : NodeId) :
    FailsWith (setAttribute owner attr) Error.OfEdit := by
  refine failsWith_get.bind fun d => ?_
  refine (failsWith_refuse fun e => refusesEdit_of_attributeRefusal?).bind fun _ => ?_
  refine (failsWith_modify _).bind fun _ => ?_
  exact (failsWith_modify _).bind fun _ => failsWith_modify _

end Edit

namespace Tree

mutual

theorem failsWith_build : (t : Tree) → FailsWith t.build Error.OfEdit
  | .node label attributes children => by
    rw [build]
    split_ifs
    · exact failsWith_throw trivial
    · refine FailsWith.bind (fun _ _ _ run => by cases run) fun id => ?_
      refine (failsWith_buildAttributes id attributes).bind fun _ => ?_
      exact (failsWith_buildChildren id (label.kind = .document) children).bind fun _ =>
        failsWith_pure id

theorem failsWith_buildAttributes (owner : NodeId) :
    (ts : List Tree) → FailsWith (buildAttributes owner ts) Error.OfEdit
  | [] => by
    rw [buildAttributes]
    exact failsWith_pure ()
  | t :: ts => by
    rw [buildAttributes]
    refine (failsWith_build t).bind fun id => ?_
    exact (Edit.failsWith_setAttribute owner id).bind fun _ => failsWith_buildAttributes owner ts

theorem failsWith_buildChildren (parent : NodeId) (skipTypes : Bool) :
    (ts : List Tree) → FailsWith (buildChildren parent skipTypes ts) Error.OfEdit
  | [] => by
    rw [buildChildren]
    exact failsWith_pure ()
  | t :: ts => by
    rw [buildChildren]
    split_ifs
    · exact failsWith_buildChildren parent skipTypes ts
    · refine (failsWith_build t).bind fun id => ?_
      exact (Edit.failsWith_insertBefore parent id none).bind fun _ =>
        failsWith_buildChildren parent skipTypes ts

end

end Tree

namespace Construct

theorem failsWith_edit {α : Type} {m : Edit α} {E : Error → Prop} (h : FailsWith m E) :
    FailsWith (edit m) E := by
  intro s e s' run
  unfold edit at run
  split at run
  · cases run
  · cases run
    exact h _ _ _ ‹_›

theorem failsWith_deepClone (id : NodeId) : FailsWith (edit (Edit.deepClone id)) Error.OfEdit :=
  failsWith_edit (failsWith_get.bind fun d => Tree.failsWith_build (d.tree id))

theorem failsWith_ofExcept {α : Type} {r : Except Error α} {E : Error → Prop}
    (h : ∀ e, r = .error e → E e) : FailsWith (ofExcept r) E := by
  cases r with
  | ok a => exact failsWith_pure a
  | error e => exact failsWith_throw (h e rfl)

theorem failsWith_require (condition : Bool) {e : Error} (h : e.Early) :
    FailsWith (require condition e) Error.Early := by
  unfold require
  split_ifs
  · exact failsWith_pure ()
  · exact failsWith_throw h

theorem failsWith_refused (condition : Bool) (kind : UpdateKind) (r : Refusal) :
    FailsWith (require condition (.refused kind r)) Error.Early :=
  failsWith_require condition (Error.early_refused kind r)

theorem failsWith_mapError {α : Type} {m : Construct α} (h : FailsWith m Error.Early)
    {change : Error → Error} (hc : ∀ e, e.Early → (change e).Early) :
    FailsWith (mapError change m) Error.Early := by
  intro s e s' run
  unfold mapError at run
  split at run
  · cases run
  · cases run
    exact hc _ (h _ _ _ ‹_›)

end Construct

namespace Forest

variable {f : Forest}

/-- The step up fails from a silhouette that does not stand in its slot, and from nothing else. -/
theorem emptySlot_of_parent? {p : Pointer} {e : Error} (h : f.parent? p = .error e) :
    ∃ id slot parent, e = .emptySlot id slot parent := by
  unfold parent? at h
  split at h
  · split at h <;> cases h
  · split_ifs at h
    split at h
    · cases h
    · cases h
      exact ⟨_, _, _, rfl⟩

theorem early_of_parent? {p : Pointer} {e : Error} (h : f.parent? p = .error e) : e.Early := by
  obtain ⟨_, _, _, rfl⟩ := emptySlot_of_parent? h
  exact trivial

theorem early_of_descent {n : ℕ} {p : Pointer} {e : Error} (h : f.descent n p = .error e) :
    e.Early := by
  induction n generalizing p e with
  | zero =>
    obtain ⟨node, graft⟩ := p
    cases node <;> cases graft <;> cases h <;> exact trivial
  | succ n ih =>
    obtain ⟨node, graft⟩ := p
    cases graft with
    | nil => cases node <;> cases h; exact trivial
    | cons g up =>
      rw [descent] at h
      rcases error_of_bind h with h | ⟨q?, -, h⟩
      · exact early_of_parent? h
      · cases q? with
        | none =>
          cases h
          exact trivial
        | some q =>
          rcases error_of_bind h with h | ⟨_, -, h⟩
          · exact ih h
          · cases h

theorem early_of_bindings {u : Update Pointer} {e : Error} (h : f.bindings u = .error e) :
    e.Early := by
  unfold bindings at h
  split at h
  · cases h
  · split_ifs at h
    rcases error_of_bind h with h | ⟨owner?, -, h⟩
    · exact early_of_parent? h
    · cases owner? <;> cases h
  · split at h
    · cases h
    · rcases error_of_bind h with h | ⟨owner?, -, h⟩
      · exact early_of_parent? h
      · cases owner? <;> cases h
    · cases h
  · cases h

/-- The check for contradictions reports them as such. -/
theorem early_of_compatibility {updates : List (Update Pointer)} {e : Error}
    (h : f.compatibility updates = .error e) : e.Early := by
  unfold compatibility at h
  split at h
  · cases h
    exact trivial
  · rcases error_of_bind h with h | ⟨bindings, -, h⟩
    · obtain ⟨u, -, h⟩ := error_of_mapM h
      exact early_of_bindings h
    · split at h
      · cases h
        exact trivial
      · cases h

end Forest

namespace Construct

theorem unbuilt_of_follow {d : Document} {id : NodeId} {slots : List Slot} {e : Error}
    (h : d.follow id slots = .error e) : ∃ slot, e = .unbuiltSlot slot := by
  induction slots generalizing id with
  | nil => cases h
  | cons slot slots ih =>
    rw [Document.follow] at h
    split at h
    · exact ih h
    · cases h
      exact ⟨slot, rfl⟩

theorem failsWith_builtTop (arena : Arena) (top : SilhouetteId) :
    FailsWith (builtTop arena top) Error.OfEdit := by
  refine failsWith_get.bind fun s => ?_
  cases s.memo.built? top with
  | some node => exact failsWith_pure node
  | none =>
    refine FailsWith.bind (fun _ _ _ run => by cases run) fun f => ?_
    refine (failsWith_edit (Tree.failsWith_build _)).bind fun node => ?_
    exact (failsWith_modify _).bind fun _ => failsWith_pure node

/-- Materializing fails where a tree cannot be built, where the way up to the top of a virtual tree ends,
and where the built tree does not have the slots of the pointer. -/
theorem failsWith_materialize_of {E : Error → Prop} (arena : Arena) (p : Pointer)
    (ofEdit : ∀ e, e.OfEdit → E e) (unbuilt : ∀ slot, E (.unbuiltSlot slot))
    (ofDescent : ∀ (f : Forest) (id : SilhouetteId), p.node = .silhouette id →
      ∀ e, f.descent p.graft.length p = .error e → E e) : FailsWith (materialize arena p) E := by
  obtain ⟨node, graft⟩ := p
  cases node with
  | real id =>
    cases graft with
    | nil => exact failsWith_pure id
    | cons g up => exact (failsWith_deepClone id).mono ofEdit
  | silhouette id =>
    refine FailsWith.bind (fun _ _ _ run => by cases run) fun f => ?_
    refine (failsWith_ofExcept (ofDescent f id rfl)).bind fun descent => ?_
    refine ((failsWith_builtTop arena descent.1).mono ofEdit).bind fun node =>
      failsWith_get.bind fun s => failsWith_ofExcept fun e failed => ?_
    obtain ⟨slot, rfl⟩ := unbuilt_of_follow failed
    exact unbuilt slot

theorem failsWith_materialize (arena : Arena) (p : Pointer) :
    FailsWith (materialize arena p) Error.Early :=
  failsWith_materialize_of arena p (fun _ h => h.early) (fun _ => trivial)
    fun _ _ _ _ => Forest.early_of_descent

variable (setting : Setting)

theorem failsWith_contentNode (p : Pointer) : FailsWith (contentNode setting p) Error.Early := by
  have chosen : ∀ n, FailsWith
      (do modify fun s => { s with used := n :: s.used }; return n : Construct NodeId) Error.Early :=
    fun n => (failsWith_modify _).bind fun _ => failsWith_pure n
  unfold contentNode
  cases p.plainNode? with
  | some id =>
    cases setting.copyInserted with
    | true => exact ((failsWith_deepClone id).mono fun _ h => h.early).bind chosen
    | false => exact chosen id
  | none =>
    refine (failsWith_materialize setting.arena p).bind fun built => failsWith_get.bind fun s => ?_
    split_ifs
    · exact ((failsWith_deepClone built).mono fun _ h => h.early).bind chosen
    · exact chosen built

theorem failsWith_childContent (kind : UpdateKind) (ps : List Pointer) :
    FailsWith (childContent setting kind ps) Error.Early := by
  induction ps with
  | nil => exact failsWith_pure []
  | cons p ps ih =>
    refine (failsWith_contentNode setting p).bind fun n => failsWith_get.bind fun s => ?_
    have rest : ∀ nodes : List NodeId, FailsWith
        (do return nodes ++ (← childContent setting kind ps) : Construct (List NodeId)) Error.Early :=
      fun nodes => ih.bind fun more => failsWith_pure _
    dsimp only
    cases s.document.kind n with
    | «attribute» | documentType => exact (failsWith_throw (Error.early_refused _ _)).bind rest
    | document | element | text | comment | processingInstruction => exact rest _

theorem failsWith_attributeContent (kind : UpdateKind) (ps : List Pointer) :
    FailsWith (attributeContent setting kind ps) Error.Early := by
  induction ps with
  | nil => exact failsWith_pure []
  | cons p ps ih =>
    refine (failsWith_contentNode setting p).bind fun n => failsWith_get.bind fun s => ?_
    exact (failsWith_refused _ _ _).bind fun _ => ih.bind fun more => failsWith_pure _

theorem failsWith_replacementContent (targetKind : Kind) (ps : List Pointer) :
    FailsWith (replacementContent setting targetKind ps) Error.Early := by
  have change : ∀ {p : Error → Prop} [DecidablePred p] {refusal : Refusal} (e : Error),
      e.Early → (if p e then Error.refused .replaceNode refusal else e).Early := by
    intro p _ refusal e h
    split_ifs
    · exact trivial
    · exact h
  unfold replacementContent
  split_ifs
  · exact failsWith_mapError (failsWith_attributeContent setting _ ps) change
  · exact failsWith_mapError (failsWith_childContent setting _ ps) change

theorem failsWith_prepareAction (targetKind : Kind) (hasParent : Bool) (action : Action Pointer) :
    FailsWith (prepareAction setting targetKind hasParent action) Error.Early := by
  cases action with
  | delete => exact failsWith_pure _
  | insert place content =>
    have content_in := (failsWith_childContent setting place.kind content).bind fun nodes =>
      failsWith_pure (Action.insert place nodes)
    simp only [prepareAction]
    split_ifs
    · exact (failsWith_refused _ _ _).bind fun _ => (failsWith_refused _ _ _).bind fun _ => content_in
    · exact (failsWith_refused _ _ _).bind fun _ => content_in
  | insertAttributes content =>
    exact (failsWith_refused _ _ _).bind fun _ =>
      (failsWith_attributeContent setting _ content).bind fun nodes => failsWith_pure _
  | rename | replaceValue | replaceElementContent =>
    exact (failsWith_refused _ _ _).bind fun _ => failsWith_pure _
  | replaceNode replacement =>
    exact (failsWith_refused _ _ _).bind fun _ => (failsWith_refused _ _ _).bind fun _ =>
      (failsWith_replacementContent setting targetKind replacement).bind fun nodes => failsWith_pure _
  | put uri => exact failsWith_throw trivial

/-- An update that cannot be prepared is reported with an error of its own. -/
theorem failsWith_prepare (u : Update Pointer) : FailsWith (prepare setting u) Error.Early := by
  have early : (Error.notImplemented "put").Early := trivial
  refine (failsWith_require _ early).bind fun _ => ?_
  cases u.target.plainNode? with
  | none => exact failsWith_throw (Error.early_refused _ _)
  | some target =>
    refine failsWith_get.bind fun s => ?_
    exact (failsWith_prepareAction setting _ _ u.action).bind fun action => failsWith_pure _

end Construct

namespace Evaluate

variable {updates : List (Update Pointer)} {o : Options} {e e' : Evaluation} {cause : Error}

/-- An application fails midway when the check and the preparation succeed and the carrying out does
not. -/
theorem failedMidway_iff : applyUpdates updates o e = .error (.failedMidway cause) e' ↔
    e.compatibility updates = .ok () ∧ ∃ prepared s d, e.prepareAll o updates = .ok prepared s ∧
      Edit.carryOutAll (inStages prepared) s.document = .error cause d ∧
      e' = { e with document := d, memo := s.memo } := by
  rw [applyUpdates_apply]
  constructor
  · intro run
    split at run
    · rename_i incompatible
      cases run
      exact (Forest.early_of_compatibility incompatible).elim
    · rename_i compatible
      split at run
      · rename_i unprepared
        cases run
        have early := failsWith_mapM (Construct.failsWith_prepare (e.setting o)) updates
        exact (early _ _ _ unprepared).elim
      · rename_i prepared s prepare
        split at run
        · rename_i carryOut
          cases run
          exact ⟨compatible, prepared, s, _, prepare, carryOut, rfl⟩
        · cases run
  · rintro ⟨compatible, prepared, s, d, prepare, carryOut, rfl⟩
    simp only [compatible, prepare, carryOut]

end Evaluate

end VirtualTree
