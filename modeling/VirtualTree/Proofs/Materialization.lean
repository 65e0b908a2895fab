import VirtualTree.Proofs.Document.Extends

/-!
# Untouched nodes while virtual trees are built

Building virtual trees leaves the nodes of an earlier document as they were, whatever the memo holds.
What it gives can be said if it can be said of the memo: `Admits` are the properties of nodes that
fresh nodes have and that pass on to children and attributes, and if the memo holds admitted nodes
only then a materialized virtual node is admitted (`keeps_materialize`).  Other invariants are kept by
all building if they last while the document grows and trees are remembered (`Lasts`).
-/

namespace VirtualTree

open Document

variable {base : Document}

/-- A property of all nodes outside `base` that passes on to children and attributes. -/
structure Admits (base : Document) (admitted : NodeId → Prop) : Prop where
  outside : ∀ i, ¬ base.Has i → admitted i
  linked : ∀ d, base.Extends d → ∀ p c, admitted p → c ∈ d.children p ∨ c ∈ d.attributes p →
    admitted c

theorem admits_all : Admits base fun _ => True := ⟨fun _ _ => trivial, fun _ _ _ _ _ _ => trivial⟩

theorem admits_outside : Admits base fun i => ¬ base.Has i where
  outside _ h := h
  linked _ h _ _ hp hc := hc.elim (h.outside_of_mem_children hp) (h.outside_of_mem_attributes hp)

/-- The nodes of `base` are as they were, and only admitted nodes are remembered. -/
structure Construction.Extends (base : Document) (admitted : NodeId → Prop) (s : Construction) :
    Prop where
  document : base.Extends s.document
  memo : ∀ entry ∈ s.memo.entries, admitted entry.2

namespace Document

theorem inSlot?_linked {d : Document} {p c : NodeId} {slot : Slot} (h : d.inSlot? p slot = some c) :
    c ∈ d.children p ∨ c ∈ d.attributes p := by
  rcases slot with index | name
  · exact Or.inl (List.mem_of_mem_filter (List.mem_of_getElem? h))
  · exact Or.inr (List.mem_of_find?_eq_some h)

theorem parent_of_inSlot? {d : Document} (wf : d.WellFormed) {p c : NodeId} {slot : Slot}
    (h : d.inSlot? p slot = some c) : d.parent? c = some p :=
  (inSlot?_linked h).elim wf.parent_of_mem_children wf.parent_of_mem_attributes

/-- Slots lead down to nodes with parents. -/
theorem eq_or_parent_of_follow {d : Document} (wf : d.WellFormed) {slots : List Slot} {id n : NodeId}
    (run : d.follow id slots = .ok n) : slots = [] ∨ ∃ p, d.parent? n = some p := by
  induction slots generalizing id with
  | nil => exact Or.inl rfl
  | cons slot slots ih =>
    rw [follow] at run
    split at run
    · rename_i next found
      rcases ih run with rfl | parent
      · cases run
        exact Or.inr ⟨id, parent_of_inSlot? wf found⟩
      · exact Or.inr parent
    · cases run

theorem admitted_of_follow {admitted : NodeId → Prop} (admits : Admits base admitted) {d : Document}
    (h : base.Extends d) {slots : List Slot} {id n : NodeId} (hid : admitted id)
    (run : d.follow id slots = .ok n) : admitted n := by
  induction slots generalizing id with
  | nil =>
    cases run
    exact hid
  | cons slot slots ih =>
    rw [follow] at run
    split at run
    · rename_i next found
      exact ih (admits.linked d h id next hid (inSlot?_linked found)) run
    · cases run

end Document

namespace Memo

theorem mem_of_built? {m : Memo} {top : SilhouetteId} {n : NodeId} (h : m.built? top = some n) :
    (top, n) ∈ m.entries := by
  unfold built? at h
  obtain ⟨l₁, l₂, eq, -⟩ := List.lookup_eq_some_iff.1 h
  rw [eq]
  simp

end Memo

namespace Construct

variable {admitted : NodeId → Prop}

theorem keeps_ofExcept {α : Type} {I : Construction → Prop} {r : Except Error α} {Q : α → Prop}
    (h : ∀ a, r = .ok a → Q a) : Keeps I (ofExcept r) Q := by
  cases r with
  | ok a => exact keeps_pure (h a rfl)
  | error e => exact keeps_throw e

theorem edit_ok {α : Type} {s s' : Construction} {m : Edit α} {a : α} (run : edit m s = .ok a s') :
    ∃ d, m s.document = .ok a d ∧ s' = { s with document := d } := by
  unfold edit at run
  split at run
  · cases run
    exact ⟨_, ‹_›, rfl⟩
  · cases run

theorem ofExcept_ok {α : Type} {s s' : Construction} {r : Except Error α} {a : α} (run : ofExcept r s = .ok a s') :
    r = .ok a ∧ s = s' := by
  cases r with
  | ok b =>
    cases run
    exact ⟨rfl, rfl⟩
  | error e => cases run

theorem keeps_edit_extends {α : Type} {m : Edit α} {Q : α → Prop} (h : Keeps base.Extends m Q) :
    Keeps (Construction.Extends base admitted) (edit m) Q :=
  keeps_edit h (fun _ hs => hs.document) fun _ _ hs hd => ⟨hd, hs.memo⟩

theorem keeps_deepClone (id : NodeId) :
    Keeps (Construction.Extends base admitted) (edit (Edit.deepClone id)) fun n => ¬ base.Has n :=
  keeps_edit_extends (Edit.keeps_deepClone id)

theorem keeps_remember {top : SilhouetteId} {n : NodeId} (hn : admitted n) :
    Keeps (Construction.Extends base admitted)
      (modify fun s => { s with memo := s.memo.insert top n } : Construct PUnit) fun _ => True :=
  keeps_modify fun _ hs => ⟨hs.document, fun entry mem => by
    rcases List.mem_cons.1 mem with rfl | mem
    · exact hn
    · exact hs.memo entry mem⟩

theorem keeps_builtTop (admits : Admits base admitted) (arena : Arena) (top : SilhouetteId) :
    Keeps (Construction.Extends base admitted) (builtTop arena top) admitted := by
  apply keeps_get_bind
  intro s hs
  cases built : s.memo.built? top with
  | some n => exact ⟨hs, hs.memo _ (Memo.mem_of_built? built)⟩
  | none =>
    refine Keeps.bind (Q := fun n => ¬ base.Has n) ?_ (fun n hn => ?_) s hs
    · exact keeps_edit_extends (Tree.keeps_build _)
    · have hn := admits.outside n hn
      exact (keeps_remember hn).bind fun _ _ => keeps_pure hn

/-- The real node for a virtual node is admitted, and so is that for a spliced real node. -/
theorem keeps_materialize (admits : Admits base admitted) (arena : Arena) {p : Pointer}
    (h : p.plainNode? = none) :
    Keeps (Construction.Extends base admitted) (materialize arena p) admitted := by
  obtain ⟨node, graft⟩ := p
  cases node with
  | real id =>
    cases graft with
    | nil => cases h
    | cons g up => exact (keeps_deepClone id).mono admits.outside
  | silhouette id =>
    apply keeps_get_bind
    intro s hs
    refine (Keeps.bind (Q := fun _ => True) ?_ fun descent _ => ?_) s hs
    · exact keeps_ofExcept fun _ _ => trivial
    apply (keeps_builtTop admits arena descent.1).bind
    intro n hn
    apply keeps_get_bind
    intro s hs
    exact keeps_ofExcept (fun m hm => admitted_of_follow admits hs.document hn hm) s hs

theorem keeps_deepCopy (arena : Arena) (p : Pointer) :
    Keeps (Construction.Extends base admitted) (deepCopy arena p) fun n => ¬ base.Has n :=
  keeps_get_bind fun s hs => keeps_edit_extends (Tree.keeps_build _) s hs

/-! ## Invariants of building

What is asked of an invariant so that all building of virtual trees keeps it. -/

theorem builtTop_of_built {s : Construction} {arena : Arena} {top : SilhouetteId} {t : NodeId}
    (h : s.memo.built? top = some t) : builtTop arena top s = .ok t s := by
  unfold builtTop
  rw [get_bind, h]
  rfl

theorem builtTop_of_new {s : Construction} {arena : Arena} {top : SilhouetteId}
    (h : s.memo.built? top = none) : builtTop arena top s =
    match ((⟨s.document, arena⟩ : Forest).tree (.silhouette top)).build s.document with
    | .ok t d => .ok t { s with document := d, memo := s.memo.insert top t }
    | .error e d => .error e { s with document := d } := by
  unfold builtTop
  rw [get_bind, h]
  show (edit ((⟨s.document, arena⟩ : Forest).tree (.silhouette top)).build >>= fun node => do
    modify fun s => { s with memo := s.memo.insert top node }
    return node) s = _
  rw [bind_apply, edit]
  cases ((⟨s.document, arena⟩ : Forest).tree (.silhouette top)).build s.document <;> rfl

/-- The invariant is kept when the document grows and when a tree that was just built is remembered. -/
structure Lasts (arena : Arena) (I : Construction → Prop) : Prop where
  wellFormed : ∀ s, I s → s.document.WellFormed
  extend : ∀ s d, I s → s.document.Extends d → I { s with document := d }
  remember : ∀ s top n d, I s → s.memo.built? top = none →
    ((⟨s.document, arena⟩ : Forest).tree (.silhouette top)).build s.document = .ok n d →
      I { s with document := d, memo := s.memo.insert top n }

namespace Lasts

variable {I : Construction → Prop} {arena : Arena} (lasts : Lasts arena I)

include lasts

theorem keeps_edit {α : Type} {m : Edit α} {Q : α → Prop}
    (h : ∀ d : Document, Keeps d.Extends m Q) : Keeps I (edit m) Q := by
  intro s hs
  have kept := h s.document s.document (lasts.wellFormed s hs).extends_self
  unfold edit
  split at kept
  · rename_i run
    rw [run]
    exact ⟨lasts.extend s _ hs kept.1, kept.2⟩
  · rename_i run
    rw [run]
    exact lasts.extend s _ hs kept

theorem keeps_builtTop (top : SilhouetteId) : Keeps I (builtTop arena top) fun _ => True := by
  intro s hs
  cases built : s.memo.built? top with
  | some t =>
    rw [builtTop_of_built built]
    exact ⟨hs, trivial⟩
  | none =>
    rw [builtTop_of_new built]
    have kept := (Tree.keeps_build ((⟨s.document, arena⟩ : Forest).tree (.silhouette top)) :
      Keeps s.document.Extends _ _) s.document (lasts.wellFormed s hs).extends_self
    cases run : ((⟨s.document, arena⟩ : Forest).tree (.silhouette top)).build s.document with
    | error e d =>
      rw [run] at kept
      exact lasts.extend s d hs kept
    | ok t d => exact ⟨lasts.remember s top t d hs built run, trivial⟩

theorem keeps_materialize (p : Pointer) : Keeps I (materialize arena p) fun _ => True := by
  obtain ⟨node, graft⟩ := p
  cases node with
  | real id =>
    cases graft with
    | nil => exact keeps_pure trivial
    | cons g up =>
      exact lasts.keeps_edit fun d => (Edit.keeps_deepClone id).mono fun _ _ => trivial
  | silhouette id =>
    apply keeps_get_bind
    intro s hs
    refine (Keeps.bind (Q := fun _ => True) ?_ fun descent _ => ?_) s hs
    · exact keeps_ofExcept fun _ _ => trivial
    refine (lasts.keeps_builtTop descent.1).bind fun n _ => keeps_get_bind fun s hs => ?_
    exact keeps_ofExcept (fun _ _ => trivial) s hs

end Lasts

end Construct

end VirtualTree
