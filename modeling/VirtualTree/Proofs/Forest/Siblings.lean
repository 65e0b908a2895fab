import Mathlib.Data.List.Induction
import VirtualTree.Proofs.Forest.Axes

/-!
# Children and siblings

The children of a node are its stored children without the document types (`children_eq_filter`), the
first and the last child are the ends of that list, and the siblings of a child are its neighbours in
that list (`sibling?_of_children`), whichever of the four is asked and whether the nodes are virtual,
spliced under a silhouette or below a spliced node.  Nothing is asked of the silhouettes, so the pointers
are those that steps to children lead to (`Descended`); through attribute slots a node may be reached at
a place that belongs to another one.
-/

namespace VirtualTree

open Document

/-- The entry next to the place between two parts of a list. -/
def Direction.beside {α : Type} : Direction → List α → List α → Option α
  | .next, _, after => after.head?
  | .previous, before, _ => before.getLast?

theorem Direction.beside_map {α β : Type} (g : α → β) (direction : Direction) (before after : List α) :
    direction.beside (before.map g) (after.map g) = (direction.beside before after).map g := by
  cases direction with
  | next => exact List.head?_map
  | previous => exact List.getLast?_map

namespace Document

variable {d : Document}

/-! ## Stored siblings -/

theorem entryAfter_append {x : NodeId} {before after : List NodeId} (new : x ∉ before) :
    entryAfter x (before ++ x :: after) = after.head? := by
  induction before with
  | nil =>
    cases after with
    | nil => rfl
    | cons b rest => exact if_pos rfl
  | cons a before ih =>
    rw [List.mem_cons, not_or] at new
    rw [← ih new.2]
    cases before <;> exact if_neg (Ne.symm new.1)

theorem entryBefore_cons_of_not_mem {x a : NodeId} {l : List NodeId} (absent : x ∉ l) :
    entryBefore x (a :: l) = none := by
  induction l generalizing a with
  | nil => rfl
  | cons b l ih =>
    rw [List.mem_cons, not_or] at absent
    rw [← ih (a := b) absent.2]
    exact if_neg (Ne.symm absent.1)

theorem entryBefore_append {x : NodeId} {before after : List NodeId}
    (nodup : (before ++ x :: after).Nodup) : entryBefore x (before ++ x :: after) = before.getLast? := by
  induction before with
  | nil => exact entryBefore_cons_of_not_mem (List.nodup_cons.1 nodup).1
  | cons a before ih =>
    have nodup' : (before ++ x :: after).Nodup := nodup.tail
    cases before with
    | nil => exact if_pos rfl
    | cons b before =>
      have ne : b ≠ x := fun eq => (List.nodup_cons.1 nodup').1 (by simp [eq])
      rw [List.getLast?_cons_cons, ← ih nodup']
      exact if_neg ne

/-- A child stands between the stored neighbours. -/
theorem WellFormed.sibling?_of_children (wf : d.WellFormed) {p c : NodeId} {before after : List NodeId}
    (list : d.children p = before ++ c :: after) (direction : Direction) :
    d.sibling? direction c = direction.beside before after := by
  have mem : c ∈ d.children p := list ▸ List.mem_append_right _ List.mem_cons_self
  have nodup := list ▸ wf.nodup_children p
  have siblings : d.siblings c = before ++ c :: after := by
    rw [siblings, if_neg (wf.kind_of_mem_children mem), wf.parent_of_mem_children mem, ← list]
  cases direction with
  | next =>
    have absent : c ∉ before := fun hc => (List.nodup_append'.1 nodup).2.2 hc List.mem_cons_self
    rw [sibling?, nextSibling?, siblings, entryAfter_append absent]
    rfl
  | previous =>
    rw [sibling?, previousSibling?, siblings, entryBefore_append nodup]
    rfl

/-! ## Shown siblings -/

/-- Along the children after a place, the first visible one is found. -/
theorem WellFormed.visibleWithin_next (wf : d.WellFormed) {p : NodeId} {before after : List NodeId}
    (list : d.children p = before ++ after) {n : ℕ} (enough : after.length ≤ n) :
    d.visibleWithin .next n after.head? = (after.filter d.isVisible).head? := by
  induction after generalizing n before with
  | nil => cases n <;> rfl
  | cons c after ih =>
    obtain ⟨n, rfl⟩ := Nat.exists_eq_add_one.2 (Nat.zero_lt_of_lt enough)
    rw [List.head?_cons, visibleWithin, wf.sibling?_of_children list, List.filter_cons]
    split_ifs
    · rfl
    · have list' : d.children p = (before ++ [c]) ++ after := by rw [list, List.append_assoc]; rfl
      exact ih list' (Nat.le_of_succ_le_succ enough)

/-- Along the children before a place, the last visible one is found. -/
theorem WellFormed.visibleWithin_previous (wf : d.WellFormed) {p : NodeId} {before after : List NodeId}
    (list : d.children p = before ++ after) {n : ℕ} (enough : before.length ≤ n) :
    d.visibleWithin .previous n before.getLast? = (before.filter d.isVisible).getLast? := by
  induction before using List.reverseRecOn generalizing n after with
  | nil => cases n <;> rfl
  | append_singleton before c ih =>
    rw [List.length_append] at enough
    obtain ⟨n, rfl⟩ := Nat.exists_eq_add_one.2 (Nat.zero_lt_of_lt enough)
    rw [List.append_assoc] at list
    rw [List.getLast?_concat, visibleWithin, wf.sibling?_of_children list, List.filter_append]
    split_ifs with visible
    · rw [List.filter_cons_of_pos visible, List.filter_nil, List.getLast?_concat]
    · rw [List.filter_cons_of_neg visible, List.filter_nil, List.append_nil]
      exact ih list (Nat.le_of_succ_le_succ enough)

theorem WellFormed.length_children_le (wf : d.WellFormed) (p : NodeId) :
    (d.children p).length ≤ d.size :=
  length_le_size (wf.nodup_children p) fun _ hc => has_of_parent (wf.parent_of_mem_children hc)

/-- The visible node on the way along the siblings from a child is next to it among the visible
children. -/
theorem WellFormed.visibleFrom_sibling? (wf : d.WellFormed) {p c : NodeId} {before after : List NodeId}
    (list : d.children p = before ++ c :: after) (direction : Direction) :
    d.visibleFrom direction (d.sibling? direction c) =
      direction.beside (before.filter d.isVisible) (after.filter d.isVisible) := by
  have short := list ▸ wf.length_children_le p
  rw [List.length_append, List.length_cons] at short
  rw [wf.sibling?_of_children list]
  cases direction with
  | next =>
    have list' : d.children p = (before ++ [c]) ++ after := by rw [list, List.append_assoc]; rfl
    exact wf.visibleWithin_next list' (by omega)
  | previous => exact wf.visibleWithin_previous list (by omega)

theorem WellFormed.visibleFrom_head? (wf : d.WellFormed) (p : NodeId) :
    d.visibleFrom .next (d.children p).head? = ((d.children p).filter d.isVisible).head? := by
  have list : d.children p = [] ++ d.children p := rfl
  exact wf.visibleWithin_next list (wf.length_children_le p)

theorem WellFormed.visibleFrom_getLast? (wf : d.WellFormed) (p : NodeId) :
    d.visibleFrom .previous (d.children p).getLast? =
      ((d.children p).filter d.isVisible).getLast? := by
  have list : d.children p = d.children p ++ [] := (List.append_nil _).symm
  exact wf.visibleWithin_previous list (wf.length_children_le p)

end Document

namespace Forest

variable (f : Forest)

/-- The children of a node as they are stored, document types among them. -/
def storedChildren (p : Pointer) : List Pointer :=
  match p.node with
  | .silhouette id => (f.arena.get id).children.zipIdx.map (entryPointer id p.graft)
  | .real id => (f.document.children id).map fun c => ⟨.real c, p.graft⟩

/-- The pointers that are reached by steps to children from silhouettes in no slot and from visible nodes
of the document. -/
inductive Descended : Pointer → Prop
  | silhouette (id : SilhouetteId) : Descended (.silhouette id)
  | real (id : NodeId) (visible : f.document.isVisible id) : Descended (.real id)
  | child {q p : Pointer} (hq : Descended q) (hp : p ∈ f.children q) : Descended p

variable {f}

/-! ## Children -/

/-- The children are the stored ones without the document types. -/
theorem children_eq_filter (p : Pointer) :
    f.children p = (f.storedChildren p).filter fun c => f.isVisible c.node := by
  obtain ⟨node, graft⟩ := p
  cases node with
  | silhouette id =>
    rw [storedChildren, List.filter_map]
    rfl
  | real id =>
    rw [storedChildren, List.filter_map]
    rfl

theorem firstChild?_eq_head? (wf : f.document.WellFormed) (p : Pointer) :
    f.firstChild? p = (f.children p).head? := by
  obtain ⟨node, graft⟩ := p
  cases node with
  | silhouette id => exact List.head?_map.symm
  | real id =>
    rw [firstChild?, children]
    show (f.document.visibleFrom .next (f.document.children id).head?).map _ = _
    rw [wf.visibleFrom_head?]
    exact List.head?_map.symm

theorem lastChild?_eq_getLast? (wf : f.document.WellFormed) (p : Pointer) :
    f.lastChild? p = (f.children p).getLast? := by
  obtain ⟨node, graft⟩ := p
  cases node with
  | silhouette id => exact List.getLast?_map.symm
  | real id =>
    rw [lastChild?, children]
    show (f.document.visibleFrom .previous (f.document.children id).getLast?).map _ = _
    rw [wf.visibleFrom_getLast?]
    exact List.getLast?_map.symm

/-! ## Siblings -/

theorem Descended.placed (wf : f.document.WellFormed) {p : Pointer} (h : f.Descended p) :
    f.Placed p := by
  induction h with
  | silhouette id | real id _ => exact fun _ _ => nofun
  | @child q p _ hp ih =>
    obtain ⟨node, graft⟩ := q
    cases node with
    | silhouette id =>
      obtain ⟨r, i, ⟨found, -⟩, rfl⟩ := mem_children_silhouette.1 hp
      exact placed_entry found
    | real id =>
      obtain ⟨c, ⟨⟨parent, -⟩, -⟩, rfl⟩ := (mem_children_real wf).1 hp
      exact ih.below parent

/-- The visible entries of a silhouette next to one of them are its neighbours in both directions. -/
theorem neighbour?_of_visibleEntries {id : SilhouetteId} {e : NodeRef × ℕ}
    {before after : List (NodeRef × ℕ)} (list : f.visibleEntries id = before ++ e :: after)
    (direction : Direction) : f.neighbour? id e.2 direction = direction.beside before after := by
  have ascending : (f.visibleEntries id).Pairwise fun a b => a.2 < b.2 := by
    have positions : ((f.arena.get id).children.zipIdx.map Prod.snd).Pairwise (· < ·) := by
      rw [List.zipIdx_map_snd]
      exact List.pairwise_lt_range'
    exact (List.pairwise_map.1 positions).filter _
  rw [list, List.pairwise_append, List.pairwise_cons] at ascending
  obtain ⟨-, ⟨later, -⟩, earlier⟩ := ascending
  have earlier : ∀ a ∈ before, a.2 < e.2 := fun a ha => earlier a ha e List.mem_cons_self
  cases direction with
  | next =>
    have skipped : before.find? (fun a => decide (e.2 < a.2)) = none :=
      List.find?_eq_none.2 fun a ha => by simpa using (earlier a ha).le
    rw [neighbour?, list, List.find?_append, skipped, Option.none_or, List.find?_cons_of_neg (by simp)]
    cases after with
    | nil => rfl
    | cons b after => exact List.find?_cons_of_pos (by simpa using later b List.mem_cons_self)
  | previous =>
    have kept : before.filter (fun a => decide (a.2 < e.2)) = before :=
      List.filter_eq_self.2 fun a ha => decide_eq_true (earlier a ha)
    have dropped : (e :: after).filter (fun a => decide (a.2 < e.2)) = [] :=
      List.filter_eq_nil_iff.2 fun a ha => by
        rcases List.mem_cons.1 ha with rfl | ha
        · simp
        · simpa using (later a ha).le
    rw [neighbour?, list, List.filter_append, kept, dropped, List.append_nil]
    rfl

/-- The siblings of a child are its neighbours among the children. -/
theorem sibling?_of_children (wf : f.document.WellFormed) {q c : Pointer} (hq : f.Placed q)
    {before after : List Pointer} (list : f.children q = before ++ c :: after) (direction : Direction) :
    f.sibling? direction c = .ok (direction.beside before after) := by
  obtain ⟨node, graft⟩ := q
  cases node with
  | silhouette id =>
    obtain ⟨before, rest, entries, rfl, tail⟩ := List.map_eq_append_iff.1 list
    obtain ⟨e, after, rfl, rfl, rfl⟩ := List.map_eq_cons_iff.1 tail
    have found : f.Occupies e.1 ⟨id, .child e.2⟩ := by
      have mem : e ∈ f.visibleEntries id := entries ▸ List.mem_append_right _ List.mem_cons_self
      exact List.mem_zipIdx_iff_getElem?.1 (List.mem_of_mem_filter mem)
    rw [sibling?, entryPointer, Direction.beside_map]
    simp only [if_pos found, neighbour?_of_visibleEntries entries]
  | real id =>
    obtain ⟨before, rest, shown, rfl, tail⟩ := List.map_eq_append_iff.1 list
    obtain ⟨c, after, rfl, rfl, rfl⟩ := List.map_eq_cons_iff.1 tail
    obtain ⟨before, rest, stored, rfl, tail⟩ := List.filter_eq_append_iff.1 shown
    obtain ⟨hidden, after, rfl, none, visible, rfl⟩ := List.filter_eq_cons_iff.1 tail
    rw [← List.append_assoc] at stored
    have mem : c ∈ f.document.children id := stored ▸ List.mem_append_right _ List.mem_cons_self
    have only : (before ++ hidden).filter f.document.isVisible = before.filter f.document.isVisible := by
      rw [List.filter_append, List.filter_eq_nil_iff.2 none, List.append_nil]
    have real : f.realSibling? direction graft c = direction.beside
        ((before.filter f.document.isVisible).map fun s => (⟨.real s, graft⟩ : Pointer))
        ((after.filter f.document.isVisible).map fun s => ⟨.real s, graft⟩) := by
      rw [realSibling?, if_neg (wf.kind_of_mem_children mem), wf.visibleFrom_sibling? stored, only,
        Direction.beside_map]
    rw [← real]
    cases graft with
    | nil => rfl
    | cons g up =>
      have parent := wf.parent_of_mem_children mem
      rw [sibling?]
      exact if_neg (hq.not_occupies wf parent)

/-- A pointer is a child of another, or it has no siblings. -/
theorem Descended.exists_parent (wf : f.document.WellFormed) {p : Pointer} (h : f.Descended p) :
    (∃ q, f.Descended q ∧ p ∈ f.children q) ∨ ∀ direction, f.sibling? direction p = .ok none := by
  cases h with
  | silhouette id => exact Or.inr fun _ => rfl
  | @child q _ hq hp => exact Or.inl ⟨q, hq, hp⟩
  | real id visible =>
    by_cases attr : f.document.kind id = .attribute
    · exact Or.inr fun direction => congrArg Except.ok (if_pos attr)
    cases parent : f.document.parent? id with
    | some q =>
      exact Or.inl ⟨.real q, .real q (wf.isVisible_parent parent),
        (mem_children_real wf).2 ⟨id, ⟨⟨parent, attr⟩, visible⟩, rfl⟩⟩
    | none =>
      refine Or.inr fun direction => congrArg Except.ok ?_
      have alone : f.document.siblings id = [] := by rw [siblings, if_neg attr, parent]
      have next : f.document.sibling? direction id = none := by
        cases direction with
        | next => rw [Document.sibling?, Document.nextSibling?, alone]; rfl
        | previous => rw [Document.sibling?, Document.previousSibling?, alone]; rfl
      rw [realSibling?, if_neg attr, next, visibleFrom]
      cases f.document.size <;> rfl

/-- The sibling after a child is the next child, and the sibling before it is the one before. -/
theorem siblings_of_getElem? (wf : f.document.WellFormed) {q c : Pointer} (hq : f.Descended q) {i : ℕ}
    (hc : (f.children q)[i]? = some c) : f.nextSibling? c = .ok (f.children q)[i + 1]? ∧
      f.previousSibling? c = .ok (if i = 0 then none else (f.children q)[i - 1]?) := by
  obtain ⟨bound, rfl⟩ := List.getElem?_eq_some_iff.1 hc
  have list : f.children q = (f.children q).take i ++ (f.children q)[i] :: (f.children q).drop (i + 1) := by
    rw [List.getElem_cons_drop, List.take_append_drop]
  have sibling := sibling?_of_children wf (hq.placed wf) list
  refine ⟨(sibling .next).trans (congrArg _ List.head?_drop), (sibling .previous).trans (congrArg _ ?_)⟩
  rw [Direction.beside, List.getLast?_take]
  split_ifs with first
  · rfl
  · rw [List.getElem?_eq_getElem (by omega : i - 1 < _), Option.some_or]

/-- For what steps to children lead to, the children are the stored ones without the document types, in
their order; the first and the last child are the ends of that list; the siblings of a child are the
entries next to it; and going to the next sibling is the inverse of going to the one before. -/
theorem siblings_agree_with_children (wf : f.document.WellFormed) {p : Pointer} (h : f.Descended p) :
    f.children p = (f.storedChildren p).filter (fun c => f.isVisible c.node) ∧
      f.firstChild? p = (f.children p).head? ∧ f.lastChild? p = (f.children p).getLast? ∧
      (∀ i c, (f.children p)[i]? = some c → f.nextSibling? c = .ok (f.children p)[i + 1]? ∧
        f.previousSibling? c = .ok (if i = 0 then none else (f.children p)[i - 1]?)) ∧
      ∀ s, f.Descended s → (f.nextSibling? p = .ok (some s) ↔ f.previousSibling? s = .ok (some p)) := by
  refine ⟨children_eq_filter p, firstChild?_eq_head? wf p, lastChild?_eq_getLast? wf p,
    fun i c => siblings_of_getElem? wf h, fun s hs => ⟨fun next => ?_, fun previous => ?_⟩⟩
  · rcases h.exists_parent wf with ⟨q, hq, mem⟩ | alone
    · obtain ⟨i, hi⟩ := List.getElem?_of_mem mem
      rw [(siblings_of_getElem? wf hq hi).1] at next
      have back := (siblings_of_getElem? wf hq (Except.ok.inj next)).2
      rwa [if_neg i.succ_ne_zero, Nat.add_sub_cancel, hi] at back
    · cases (alone .next).symm.trans next
  · rcases hs.exists_parent wf with ⟨q, hq, mem⟩ | alone
    · obtain ⟨i, hi⟩ := List.getElem?_of_mem mem
      rw [(siblings_of_getElem? wf hq hi).2] at previous
      split_ifs at previous with first
      · cases previous
      · have forth := (siblings_of_getElem? wf hq (Except.ok.inj previous)).1
        rwa [Nat.sub_add_cancel (Nat.pos_of_ne_zero first), hi] at forth
    · cases (alone .previous).symm.trans previous

/-- A node that is spliced in twice with a document type between, and has document types around its
children: its second place is next to its first, and its children there are next to each other. -/
theorem siblings_past_documentTypes :
    let t : Tree := .node (.element (.unqualified "a")) [] [.leaf (.documentType "d"), .leaf (.text "t"),
      .leaf (.documentType "d"), .leaf (.comment "c"), .leaf (.documentType "d")]
    let s := Arena.empty.alloc (.element (.unqualified "s") [] [.real ⟨0⟩, .real ⟨1⟩, .real ⟨0⟩])
      (by decide)
    let f : Forest := ⟨(t.plant .empty).2, s.2⟩
    let p : Pointer := ⟨.real ⟨0⟩, [⟨s.1, .child 0⟩]⟩
    let p' : Pointer := ⟨.real ⟨0⟩, [⟨s.1, .child 2⟩]⟩
    let c : Pointer := ⟨.real ⟨2⟩, p'.graft⟩
    let c' : Pointer := ⟨.real ⟨4⟩, p'.graft⟩
    f.document.WellFormed ∧ f.Descended p' ∧ f.children p' = [c, c'] ∧
      f.firstChild? p' = some c ∧ f.lastChild? p' = some c' ∧
      f.nextSibling? c = .ok (some c') ∧ f.previousSibling? c' = .ok (some c) ∧
      f.nextSibling? c' = .ok none ∧ f.previousSibling? c = .ok none ∧
      f.previousSibling? p' = .ok (some p) ∧ f.nextSibling? p = .ok (some p') := by
  intro t s f p p' c c'
  have plantable : t.Plantable := by
    refine .node nofun (fun _ => rfl) (by decide) (by decide) fun r hr => ?_
    simp only [List.nil_append, List.mem_cons, List.not_mem_nil, or_false] at hr
    rcases hr with rfl | rfl | rfl | rfl | rfl <;> exact .leaf _
  have wf : f.document.WellFormed :=
    (Extends.plant t plantable wellFormed_empty.extends_self).1.kept.wellFormed
  have top : f.children (.silhouette s.1) = [p, p'] := rfl
  have first : f.Descended p := .child (.silhouette s.1) (top ▸ List.mem_cons_self)
  have second : f.Descended p' :=
    .child (.silhouette s.1) (top ▸ List.mem_cons_of_mem _ List.mem_cons_self)
  have children : f.children p' = [c, c'] := rfl
  obtain ⟨-, head, last, siblings, -⟩ := siblings_agree_with_children wf second
  obtain ⟨-, -, -, -, inverse⟩ := siblings_agree_with_children wf first
  rw [children] at head last siblings
  have back : f.previousSibling? p' = .ok (some p) := rfl
  exact ⟨wf, second, children, head, last, (siblings 0 c rfl).1, (siblings 1 c' rfl).2,
    (siblings 1 c' rfl).1, (siblings 0 c rfl).2, back, (inverse p' second).2 back⟩

end Forest

end VirtualTree
