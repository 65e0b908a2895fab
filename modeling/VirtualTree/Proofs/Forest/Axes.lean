import VirtualTree.Proofs.Forest.Reached
import VirtualTree.Proofs.Tree.Plant

/-!
# Navigation along the axes

From a silhouette in no slot or from a visible node of the document, steps along the axes lead only to
pointers that are reached by steps down (`Reached.along`), whatever way up, down and sideways they take:
a sibling of an entry is a child of the same node, and a step up leads to where the entry was reached
from.  So no axis fails, none finds a document type, and going up is the inverse of going down
(`navigation_closed`).
-/

namespace VirtualTree

open Document

/-- The ways from one pointer to others. -/
inductive Axis where
  | child
  | attribute
  | firstChild
  | lastChild
  | nextSibling
  | previousSibling
  | parent
deriving DecidableEq

namespace Document

variable {d : Document}

/-- The neighbours of a node are children of its parent. -/
theorem exists_parent_of_sibling? {direction : Direction} {id s : NodeId}
    (h : d.sibling? direction id = some s) : ∃ p, d.parent? id = some p ∧ s ∈ d.children p := by
  have mem : s ∈ d.siblings id := by
    cases direction with
    | next => exact mem_of_entryAfter h
    | previous => exact mem_of_entryBefore h
  unfold siblings at mem
  split_ifs at mem
  · cases mem
  · cases parent : d.parent? id with
    | none =>
      rw [parent] at mem
      cases mem
    | some p =>
      rw [parent] at mem
      exact ⟨p, rfl, mem⟩

/-- On the way along the children of a node only visible children of it are found. -/
theorem WellFormed.mem_children_of_visibleWithin (wf : d.WellFormed) {direction : Direction}
    {start : Option NodeId} {c p : NodeId} (n : ℕ) (hs : ∀ id, start = some id → id ∈ d.children p)
    (h : d.visibleWithin direction n start = some c) : c ∈ d.children p ∧ d.isVisible c := by
  induction n generalizing start with
  | zero => cases start <;> cases h
  | succ n ih =>
    cases start with
    | none => cases h
    | some id =>
      have mem := hs id rfl
      rw [visibleWithin] at h
      split_ifs at h with visible
      · obtain rfl := Option.some.inj h
        exact ⟨mem, visible⟩
      · refine ih (fun s hs => ?_) h
        obtain ⟨q, parent, sibling⟩ := exists_parent_of_sibling? hs
        rw [wf.parent_of_mem_children mem] at parent
        exact Option.some.inj parent ▸ sibling

/-- A visible node that is found from a neighbour is a child of the same parent. -/
theorem WellFormed.exists_parent_of_visibleFrom (wf : d.WellFormed) {direction : Direction}
    {id c : NodeId} (h : d.visibleFrom direction (d.sibling? direction id) = some c) :
    ∃ p, d.parent? id = some p ∧ c ∈ d.children p ∧ d.isVisible c := by
  cases next : d.sibling? direction id with
  | none =>
    rw [next, visibleFrom] at h
    cases hn : d.size <;> rw [hn] at h <;> cases h
  | some s =>
    obtain ⟨p, parent, sibling⟩ := exists_parent_of_sibling? next
    rw [next] at h
    refine ⟨p, parent, wf.mem_children_of_visibleWithin _ (fun i hi => ?_) h⟩
    exact Option.some.inj hi ▸ sibling

end Document

namespace Forest

variable (f : Forest)

/-- The pointers that an axis leads to. -/
def along : Axis → Pointer → Except Error (List Pointer)
  | .child, p => .ok (f.children p)
  | .attribute, p => .ok (f.attributes p)
  | .firstChild, p => .ok (f.firstChild? p).toList
  | .lastChild, p => .ok (f.lastChild? p).toList
  | .nextSibling, p => (f.nextSibling? p).map Option.toList
  | .previousSibling, p => (f.previousSibling? p).map Option.toList
  | .parent, p => (f.parent? p).map Option.toList

/-- The pointers that steps along the axes lead to, from silhouettes in no slot and from visible nodes
of the document. -/
inductive Navigated : Pointer → Prop
  | silhouette (id : SilhouetteId) : Navigated (.silhouette id)
  | real (id : NodeId) (visible : f.document.isVisible id) : Navigated (.real id)
  | step {p q : Pointer} {axis : Axis} {found : List Pointer} (hp : Navigated p)
    (run : f.along axis p = .ok found) (hq : q ∈ found) : Navigated q

variable {f}

/-! ## One step -/

/-- Navigation never shows a document type. -/
theorem Reached.visible (wf : f.document.WellFormed) {p : Pointer} (h : f.Reached p) :
    f.isVisible p.node := by
  cases h with
  | silhouette id => exact decide_eq_true (kind_silhouette_ne id)
  | real id visible => exact visible
  | @entry q _ _ hp =>
    obtain ⟨node, graft⟩ := q
    cases node with
    | real id =>
      obtain ⟨c, ⟨-, visible⟩, rfl⟩ := (mem_entries_real wf).1 hp
      exact visible
    | silhouette id =>
      rcases List.mem_append.1 hp with attr | child
      · obtain ⟨r, -, name, named, rfl⟩ := mem_attributes_silhouette.1 attr
        refine decide_eq_true fun kind => ?_
        rw [name?_of_documentType kind] at named
        cases named
      · obtain ⟨r, i, ⟨-, visible⟩, rfl⟩ := mem_children_silhouette.1 child
        exact visible

theorem mem_children_of_visibleFrom (wf : f.document.WellFormed) {direction : Direction}
    {start : Option NodeId} {id c : NodeId} (graft : List GraftPoint)
    (hs : ∀ s, start = some s → s ∈ f.document.children id)
    (h : f.document.visibleFrom direction start = some c) :
    ⟨.real c, graft⟩ ∈ f.children ⟨.real id, graft⟩ :=
  List.mem_map_of_mem (List.mem_filter.2 (wf.mem_children_of_visibleWithin _ hs h))

theorem mem_children_of_firstChild? (wf : f.document.WellFormed) {p c : Pointer}
    (h : f.firstChild? p = some c) : c ∈ f.children p := by
  obtain ⟨node, graft⟩ := p
  cases node with
  | silhouette id =>
    obtain ⟨e, first, rfl⟩ := Option.map_eq_some_iff.1 h
    exact List.mem_map_of_mem (List.mem_of_head? first)
  | real id =>
    obtain ⟨c, first, rfl⟩ := Option.map_eq_some_iff.1 h
    exact mem_children_of_visibleFrom wf graft (fun s hs => List.mem_of_head? hs) first

theorem mem_children_of_lastChild? (wf : f.document.WellFormed) {p c : Pointer}
    (h : f.lastChild? p = some c) : c ∈ f.children p := by
  obtain ⟨node, graft⟩ := p
  cases node with
  | silhouette id =>
    obtain ⟨e, last, rfl⟩ := Option.map_eq_some_iff.1 h
    exact List.mem_map_of_mem (List.mem_of_getLast? last)
  | real id =>
    obtain ⟨c, last, rfl⟩ := Option.map_eq_some_iff.1 h
    exact mem_children_of_visibleFrom wf graft (fun s hs => List.mem_of_getLast? hs) last

theorem mem_children_of_realSibling? (wf : f.document.WellFormed) {direction : Direction}
    {graft : List GraftPoint} {c : NodeId} {s : Pointer}
    (h : f.realSibling? direction graft c = some s) :
    ∃ id, f.document.parent? c = some id ∧ s ∈ f.children ⟨.real id, graft⟩ := by
  unfold realSibling? at h
  split_ifs at h
  obtain ⟨s, found, rfl⟩ := Option.map_eq_some_iff.1 h
  obtain ⟨id, parent, shown⟩ := wf.exists_parent_of_visibleFrom found
  exact ⟨id, parent, List.mem_map_of_mem (List.mem_filter.2 shown)⟩

theorem mem_children_of_neighbour? {id : SilhouetteId} {index : ℕ} {direction : Direction}
    {e : NodeRef × ℕ} (graft : List GraftPoint) (h : f.neighbour? id index direction = some e) :
    entryPointer id graft e ∈ f.children ⟨.silhouette id, graft⟩ := by
  refine List.mem_map_of_mem ?_
  cases direction with
  | next => exact List.mem_of_find?_eq_some h
  | previous => exact List.mem_of_mem_filter (List.mem_of_getLast? h)

/-- The siblings of an entry of a node are children of the node. -/
theorem sibling?_of_mem_entries (nav : f.Navigable) {q p : Pointer} (hq : f.Reached q)
    (hp : p ∈ f.entries q) (direction : Direction) :
    ∃ s, f.sibling? direction p = .ok s ∧ ∀ c, s = some c → c ∈ f.children q := by
  obtain ⟨node, graft⟩ := q
  cases node with
  | silhouette id =>
    obtain ⟨slot, eq, found⟩ := entry?_of_mem_entries (nav.names id) hp
    obtain ⟨r, graft'⟩ := p
    obtain rfl : graft' = ⟨id, slot⟩ :: graft := eq
    have occupies : f.Occupies r ⟨id, slot⟩ := found
    simp only [sibling?, if_pos occupies]
    cases slot with
    | «attribute» name => exact ⟨none, rfl, fun c hc => by cases hc⟩
    | child index =>
      refine ⟨_, rfl, fun c hc => ?_⟩
      obtain ⟨e, neighbour, rfl⟩ := Option.map_eq_some_iff.1 hc
      exact mem_children_of_neighbour? graft neighbour
  | real id =>
    obtain ⟨c, ⟨parent, -⟩, rfl⟩ := (mem_entries_real nav.document).1 hp
    refine ⟨f.realSibling? direction graft c, ?_, fun s hs => ?_⟩
    · cases graft with
      | nil => rfl
      | cons g up => simp only [sibling?, if_neg ((hq.placed nav).not_occupies nav.document parent)]
    · obtain ⟨id', parent', sibling⟩ := mem_children_of_realSibling? nav.document hs
      rw [parent] at parent'
      exact Option.some.inj parent' ▸ sibling

/-- The step up leads to a pointer that has the given one among its entries. -/
theorem Reached.parent? (nav : f.Navigable) {p : Pointer} (h : f.Reached p) :
    ∃ o, f.parent? p = .ok o ∧ ∀ q, o = some q → f.Reached q ∧ p ∈ f.entries q := by
  cases h with
  | silhouette id => exact ⟨none, rfl, nofun⟩
  | real id visible =>
    refine ⟨_, rfl, fun q hq => ?_⟩
    obtain ⟨n, parent, rfl⟩ := Option.map_eq_some_iff.1 hq
    exact ⟨.real n (nav.document.isVisible_parent parent),
      (mem_entries_real nav.document).2 ⟨id, ⟨parent, visible⟩, rfl⟩⟩
  | @entry q _ hq hp =>
    refine ⟨some q, parent?_of_mem_entries nav hq hp, fun r hr => ?_⟩
    obtain rfl := Option.some.inj hr
    exact ⟨hq, hp⟩

theorem Reached.sibling? (nav : f.Navigable) {p : Pointer} (h : f.Reached p) (direction : Direction) :
    ∃ o, f.sibling? direction p = .ok o ∧ ∀ s, o = some s → f.Reached s := by
  cases h with
  | silhouette id => exact ⟨none, rfl, nofun⟩
  | real id visible =>
    refine ⟨_, rfl, fun s hs => ?_⟩
    obtain ⟨q, parent, sibling⟩ := mem_children_of_realSibling? nav.document hs
    exact .entry (.real q (nav.document.isVisible_parent parent)) (List.mem_append_right _ sibling)
  | @entry q _ hq hp =>
    obtain ⟨o, run, children⟩ := sibling?_of_mem_entries nav hq hp direction
    exact ⟨o, run, fun s hs => .entry hq (List.mem_append_right _ (children s hs))⟩

/-- A step along an axis does not fail, and what it finds is reached by steps down as well. -/
theorem Reached.along (nav : f.Navigable) {p : Pointer} (h : f.Reached p) (axis : Axis) :
    ∃ found, f.along axis p = .ok found ∧ ∀ q ∈ found, f.Reached q := by
  have child {c : Pointer} (hc : c ∈ f.children p) : f.Reached c :=
    .entry h (List.mem_append_right _ hc)
  have optional {step : Except Error (Option Pointer)}
      (hs : ∃ o, step = .ok o ∧ ∀ q, o = some q → f.Reached q) :
      ∃ found, step.map Option.toList = .ok found ∧ ∀ q ∈ found, f.Reached q := by
    obtain ⟨o, rfl, found⟩ := hs
    exact ⟨o.toList, rfl, fun q hq => found q (Option.mem_toList.1 hq)⟩
  cases axis with
  | child => exact ⟨_, rfl, fun _ => child⟩
  | «attribute» => exact ⟨_, rfl, fun _ hq => .entry h (List.mem_append_left _ hq)⟩
  | firstChild =>
    exact ⟨_, rfl, fun _ hq =>
      child (mem_children_of_firstChild? nav.document (Option.mem_toList.1 hq))⟩
  | lastChild =>
    exact ⟨_, rfl, fun _ hq =>
      child (mem_children_of_lastChild? nav.document (Option.mem_toList.1 hq))⟩
  | nextSibling => exact optional (h.sibling? nav .next)
  | previousSibling => exact optional (h.sibling? nav .previous)
  | parent =>
    obtain ⟨o, run, up⟩ := h.parent? nav
    exact optional ⟨o, run, fun q hq => (up q hq).1⟩

/-! ## Any number of steps -/

theorem Navigated.reached (nav : f.Navigable) {p : Pointer} (h : f.Navigated p) : f.Reached p := by
  induction h with
  | silhouette id => exact .silhouette id
  | real id visible => exact .real id visible
  | step _ run hq ih =>
    obtain ⟨found, run', reached⟩ := ih.along nav _
    rw [run] at run'
    cases run'
    exact reached _ hq

/-- From wherever steps along the axes lead, no axis fails and none finds a document type; the step up
from an entry leads back, and what the step up leads to has the pointer as an entry, once. -/
theorem navigation_closed (nav : f.Navigable) {p : Pointer} (h : f.Navigated p) :
    (∀ axis, ∃ found, f.along axis p = .ok found ∧ ∀ q ∈ found, f.kind q.node ≠ .documentType) ∧
      (∀ c ∈ f.attributes p ++ f.children p, f.parent? c = .ok (some p)) ∧
      ∀ q, f.parent? p = .ok (some q) → (f.attributes q ++ f.children q).count p = 1 := by
  have reached := h.reached nav
  refine ⟨fun axis => ?_, fun c hc => parent?_of_mem_entries nav reached hc, fun q hq => ?_⟩
  · obtain ⟨found, run, below⟩ := reached.along nav axis
    exact ⟨found, run, fun q hq => of_decide_eq_true ((below q hq).visible nav.document)⟩
  · obtain ⟨o, run, up⟩ := reached.parent? nav
    rw [hq] at run
    cases run
    exact List.count_eq_one_of_mem (nodup_entries nav q) (up q rfl).2

/-- A node that is spliced in twice: from its second place the steps lead to its children, along them
past a document type, and back to the same place. -/
theorem navigation_closed_of_spliced_twice :
    let t : Tree := .node (.element (.unqualified "a")) [.leaf (.attribute (.unqualified "x") "1")]
      [.leaf (.text "t"), .leaf (.documentType "d"), .leaf (.comment "c")]
    let s := Arena.empty.alloc (.element (.unqualified "s") [] [.real ⟨0⟩, .real ⟨0⟩]) (by decide)
    let f : Forest := ⟨(t.plant .empty).2, s.2⟩
    let p : Pointer := ⟨.real ⟨4⟩, [⟨s.1, .child 1⟩]⟩
    f.Navigable ∧ f.Navigated p ∧ f.previousSibling? p = .ok (some ⟨.real ⟨2⟩, p.graft⟩) ∧
      (∀ axis, ∃ found, f.along axis p = .ok found ∧ ∀ q ∈ found, f.kind q.node ≠ .documentType) ∧
      (∀ c ∈ f.attributes p ++ f.children p, f.parent? c = .ok (some p)) ∧
      ∀ q, f.parent? p = .ok (some q) → (f.attributes q ++ f.children q).count p = 1 := by
  intro t s f p
  have plantable : t.Plantable := by
    refine .node (fun _ => rfl) (fun _ => rfl) (by decide) (by decide) fun r hr => ?_
    simp only [List.cons_append, List.nil_append, List.mem_cons, List.not_mem_nil, or_false] at hr
    rcases hr with rfl | rfl | rfl | rfl <;> exact .leaf _
  have document : f.document.WellFormed :=
    (Extends.plant t plantable wellFormed_empty.extends_self).1.kept.wellFormed
  have nav : f.Navigable := (WellFormed.of_silhouettes document (by decide +kernel)).toNavigable
  have second : f.along .lastChild (.silhouette s.1) = .ok [⟨.real ⟨0⟩, p.graft⟩] := rfl
  have text : f.along .firstChild ⟨.real ⟨0⟩, p.graft⟩ = .ok [⟨.real ⟨2⟩, p.graft⟩] := rfl
  have comment : f.along .nextSibling ⟨.real ⟨2⟩, p.graft⟩ = .ok [p] := rfl
  have navigated : f.Navigated p :=
    (((Navigated.silhouette s.1).step second List.mem_cons_self).step text List.mem_cons_self).step
      comment List.mem_cons_self
  exact ⟨nav, navigated, rfl, navigation_closed nav navigated⟩

end Forest

end VirtualTree
