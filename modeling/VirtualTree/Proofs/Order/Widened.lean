import VirtualTree.Proofs.Materialization.Buildable
import VirtualTree.Proofs.Order.Growing

/-!
# Orders while the arena grows

New silhouettes do not move the old nodes: in a later forest on the same document a pointer that was
reached stands in the tree of the same top (`Widens.topOf_eq`), and the trees of the earlier arena are
as they were (`Widens.walk_eq`).  A silhouette that is not in the arena stands alone, so it is told
apart from every other pointer by its top, whatever the arena will hold in its place.  Hence a pair that
a table settles is ordered in the same way in every later forest (`Roots.Settles.inSequence_widen`).
-/

namespace VirtualTree

open Document

theorem NodeRef.Below.mono {r : NodeRef} {n m : ℕ} (h : r.Below n) (le : n ≤ m) : r.Below m := by
  cases r with
  | real => trivial
  | silhouette id => exact lt_of_lt_of_le (show id.index < n from h) le

namespace Forest

/-- A later forest on the same document: silhouettes were added. -/
structure Widens (f g : Forest) : Prop where
  document : g.document = f.document
  arena : f.arena.Extends g.arena

variable {f g : Forest} {p q r a b : Pointer}

theorem Widens.refl (f : Forest) : f.Widens f := ⟨rfl, .refl _⟩

theorem Widens.trans {e : Forest} (h : e.Widens f) (h' : f.Widens g) : e.Widens g :=
  ⟨h'.document.trans h.document, h.arena.trans h'.arena⟩

/-- The arena has the silhouette, or the node is real. -/
def InArena (f : Forest) (p : Pointer) : Prop := p.node.Below f.arena.size

/-- Only what is in the arena has entries, and they are in it. -/
theorem inArena_of_mem_entries (wf : f.document.WellFormed) (h : p ∈ f.entries q) :
    f.InArena q ∧ f.InArena p := by
  obtain ⟨node, graft⟩ := q
  cases node with
  | real id =>
    obtain ⟨c, -, rfl⟩ := (mem_entries_real wf).1 h
    exact ⟨trivial, trivial⟩
  | silhouette id =>
    have mem := node_mem_references h
    have has : id.index < f.arena.size := Arena.lt_size_of_mem_references mem
    exact ⟨has, (Arena.below_of_mem_references mem).mono has.le⟩

/-- A top that is not in the arena stands alone. -/
theorem Descends.eq_or_inArena (wf : f.document.WellFormed) {as : List Pointer}
    (h : f.Descends r as a) : a = r ∨ f.InArena r ∧ f.InArena a := by
  induction h with
  | here r => exact Or.inl rfl
  | step mem _ ih =>
    obtain ⟨hasTop, has⟩ := inArena_of_mem_entries wf mem
    exact Or.inr ⟨hasTop, ih.elim (fun eq => eq ▸ has) And.right⟩

theorem inArena_of_ne (wf : f.WellFormed) (ha : f.Reached a) (hb : f.Reached b)
    (same : f.topOf a = f.topOf b) (ne : a ≠ b) :
    f.InArena (f.topOf a) ∧ f.InArena a ∧ f.InArena b := by
  obtain ⟨-, insideA⟩ := ha.isTop_topOf wf
  obtain ⟨-, insideB⟩ := hb.isTop_topOf wf
  rw [← same] at insideB
  obtain ⟨as, downA⟩ := (mem_walk_iff wf).1 insideA
  obtain ⟨bs, downB⟩ := (mem_walk_iff wf).1 insideB
  rcases downA.eq_or_inArena wf.document with eqA | ⟨hasTop, hasA⟩
  · rcases downB.eq_or_inArena wf.document with eqB | ⟨hasTop, hasB⟩
    · exact absurd (eqA.trans eqB.symm) ne
    · exact ⟨hasTop, eqA ▸ hasTop, hasB⟩
  · exact ⟨hasTop, hasA, downB.eq_or_inArena wf.document |>.elim (fun eq => eq ▸ hasTop) And.right⟩

theorem IsTop.subjectOrSelf (top : f.IsTop r) : f.subjectOrSelf r = r := by
  by_cases attr : f.kind r.node = .attribute
  · rw [Forest.subjectOrSelf, subject, if_pos attr, top.parent?]
    rfl
  · exact subjectOrSelf_of_ne attr

namespace Widens

variable (h : f.Widens g)

include h

theorem label_eq {n : NodeRef} (has : n.Below f.arena.size) : g.label n = f.label n := by
  cases n with
  | real id =>
    rw [label, h.document]
    rfl
  | silhouette id =>
    rw [label, h.arena.get_eq id has]
    rfl

theorem kind_eq (has : f.InArena p) : g.kind p.node = f.kind p.node :=
  congrArg Label.kind (h.label_eq has)

theorem nameOrder_eq (hasA : f.InArena a) (hasB : f.InArena b) :
    g.nameOrder a b = f.nameOrder a b := by
  simp only [nameOrder, compareLex, compareOn, Forest.name?, h.label_eq hasA, h.label_eq hasB]

theorem alike {id : SilhouetteId} (has : id.index < f.arena.size) : f.Alike g id :=
  ⟨h.arena.get_eq id has, fun _ mem => h.label_eq ((Arena.below_of_mem_references mem).mono has.le)⟩

/-! ### Steps -/

theorem attributes_eq (has : f.InArena q) : g.attributes q = f.attributes q := by
  obtain ⟨node, graft⟩ := q
  cases node with
  | real id => simp only [attributes, h.document]
  | silhouette id => exact (h.alike has).attributes_eq

theorem children_eq (has : f.InArena q) : g.children q = f.children q := by
  obtain ⟨node, graft⟩ := q
  cases node with
  | real id => simp only [children, h.document]
  | silhouette id => exact (h.alike has).children_eq

theorem entries_eq (has : f.InArena q) : g.entries q = f.entries q := by
  rw [entries, h.attributes_eq has, h.children_eq has, entries]

theorem mem_entries (wf : f.document.WellFormed) (mem : p ∈ f.entries q) : p ∈ g.entries q := by
  rwa [h.entries_eq (inArena_of_mem_entries wf mem).1]

theorem isTop (top : f.IsTop r) : g.IsTop r := by
  cases top with
  | silhouette id => exact .silhouette id
  | real id visible top => exact .real id (by rwa [h.document]) (by rwa [h.document])

theorem reached (wf : f.document.WellFormed) (hp : f.Reached p) : g.Reached p := by
  induction hp with
  | silhouette id => exact .silhouette id
  | real id visible => exact .real id (by rwa [h.document])
  | entry _ mem ih => exact .entry ih (h.mem_entries wf mem)

theorem descends (wf : f.document.WellFormed) {as : List Pointer} (down : f.Descends r as a) :
    g.Descends r as a := by
  induction down with
  | here r => exact .here r
  | step mem _ ih => exact .step (h.mem_entries wf mem) ih

/-! ### Trees -/

variable (wf : f.WellFormed) (wf' : g.WellFormed)

include wf wf'

/-- What stands in a tree stays there. -/
theorem mem_walk (mem : a ∈ f.walk r) : a ∈ g.walk r := by
  obtain ⟨as, down⟩ := (mem_walk_iff wf).1 mem
  exact (mem_walk_iff wf').2 ⟨as, h.descends wf.document down⟩

/-- A tree of the arena stays as it is. -/
theorem walk_eq (has : f.InArena r) : g.walk r = f.walk r := by
  induction hn : f.room r using Nat.strong_induction_on generalizing r with
  | h n ih =>
    rw [walk_cons wf', walk_cons wf, h.entries_eq has]
    refine congrArg (r :: ·) (List.flatMap_congr fun x hx => ?_)
    exact ih _ (hn ▸ room_lt_of_mem_entries wf.document hx) (inArena_of_mem_entries wf.document hx).2 rfl

theorem topOf_eq (ha : f.Reached a) : g.topOf a = f.topOf a := by
  obtain ⟨top, inside⟩ := ha.isTop_topOf wf
  exact topOf_of_mem_walk wf' (h.isTop top) (h.mem_walk wf wf' inside)

/-- An attribute keeps its owner, and a detached one does not get one. -/
theorem subjectOrSelf_eq (ha : f.Reached a) : g.subjectOrSelf a = f.subjectOrSelf a := by
  rcases ha.isTop_or_mem_entries wf with top | ⟨q, hq, mem⟩
  · rw [(h.isTop top).subjectOrSelf, top.subjectOrSelf]
  obtain ⟨hasParent, -⟩ := inArena_of_mem_entries wf.document mem
  rcases List.mem_append.1 mem with attr | child
  · have later : a ∈ g.attributes q := by rwa [h.attributes_eq hasParent]
    rw [subjectOrSelf_of_mem_attributes wf hq attr,
      subjectOrSelf_of_mem_attributes wf' (h.reached wf.document hq) later]
  · have later : a ∈ g.children q := by rwa [h.children_eq hasParent]
    rw [subjectOrSelf_of_ne (kind_of_mem_children wf child).1,
      subjectOrSelf_of_ne (kind_of_mem_children wf' later).1]

end Widens

end Forest

/-! ## Orders that were told -/

namespace Roots.Settles

open Forest

variable {f g : Forest} {t : Roots} {a b : Pointer}

variable (h : f.Widens g) (wf : f.WellFormed) (wf' : g.WellFormed) (s : t.Settles f a b)

include h wf wf' s

theorem widen : t.Settles g a b := by
  refine ⟨h.reached wf.document s.left, h.reached wf.document s.right, ?_⟩
  rw [h.topOf_eq wf wf' s.left, h.topOf_eq wf wf' s.right]
  exact s.tops

theorem placeOrder_widen : g.placeOrder t a b = f.placeOrder t a b := by
  by_cases eq : a = b
  · rw [eq, placeOrder_self, placeOrder_self]
  have topA := h.topOf_eq wf wf' s.left
  have topB := h.topOf_eq wf wf' s.right
  -- the tree of two different pointers is in the arena, and between two trees the tops decide
  by_cases same : f.topOf a = f.topOf b
  · obtain ⟨hasTop, -, -⟩ := inArena_of_ne wf s.left s.right same eq
    simp only [placeOrder, compareLex, compareOn, treeRank, walkRank, topA, topB, ← same,
      h.walk_eq wf wf' hasTop]
  · have later := s.widen h wf wf'
    rw [(later.placeOrder_of_ne (by rwa [topA, topB])).1, (s.placeOrder_of_ne same).1, topA, topB]

theorem inSequence_widen : g.inSequence t a b = f.inSequence t a b := by
  by_cases eq : a = b
  · rw [eq, inSequence_self, inSequence_self]
  have topA := h.topOf_eq wf wf' s.left
  have topB := h.topOf_eq wf wf' s.right
  by_cases same : f.topOf a = f.topOf b
  · obtain ⟨-, hasA, hasB⟩ := inArena_of_ne wf s.left s.right same eq
    rw [inSequence_apply, inSequence_apply, h.subjectOrSelf_eq wf wf' s.left,
      h.subjectOrSelf_eq wf wf' s.right, (s.subject wf).placeOrder_widen h wf wf',
      s.placeOrder_widen h wf wf', h.kind_eq hasA, h.kind_eq hasB, h.nameOrder_eq hasA hasB]
  · have later := s.widen h wf wf'
    rw [(later.inSequence_of_ne wf' (by rwa [topA, topB])).1, (s.inSequence_of_ne wf same).1, topA,
      topB]

end Roots.Settles

end VirtualTree
