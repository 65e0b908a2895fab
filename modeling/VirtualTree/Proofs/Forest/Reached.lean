import VirtualTree.Forest.Walk
import VirtualTree.Proofs.Document.Tree

/-!
# Steps up and down

When the document is a forest and the attributes of every silhouette have different names, a step up
undoes a step down (`parent?_of_mem_entries`), for all pointers that are reached by steps down from
silhouettes in no slot and from visible nodes of the document.  A pointer that is reached with graft
points is an entry of the innermost one, or a real node below a real entry (`Reached.placed`); which of
the two it is decides where the step up leads.

Steps down end: each leaves less room below, so a recursion downwards that may take as many levels as
`Forest.levels` says can be unfolded (`unfold_levels`).
-/

namespace VirtualTree

open Document

/-- Of entries with different keys, the first one with a given key is the only one. -/
theorem find?_of_nodup_filterMap {α β : Type} [DecidableEq β] {key : α → Option β} {l : List α}
    (nodup : (l.filterMap key).Nodup) {a : α} (mem : a ∈ l) {k : β} (ha : key a = some k) :
    l.find? (fun x => key x = some k) = some a := by
  induction l with
  | nil => cases mem
  | cons x xs ih =>
    rw [List.find?_cons]
    by_cases same : key x = some k
    · rw [decide_eq_true same]
      rw [List.filterMap_cons_some same, List.nodup_cons] at nodup
      rcases List.mem_cons.1 mem with rfl | mem
      · rfl
      · exact absurd (List.mem_filterMap.2 ⟨a, mem, ha⟩) nodup.1
    · rw [decide_eq_false same]
      rcases List.mem_cons.1 mem with rfl | mem
      · exact absurd ha same
      · exact ih (nodup.sublist ((List.sublist_cons_self x xs).filterMap _)) mem

/-- What holds of all silhouettes of an arena, and of the empty text, holds of whatever is found in the
arena. -/
theorem Arena.get_of_silhouettes (a : Arena) (id : SilhouetteId) {P : Silhouette → Prop}
    (h : ∀ s ∈ a.silhouettes, P s) (outside : P default) : P (a.get id) := by
  rw [Arena.get, Array.getD_eq_getD_getElem?]
  by_cases bound : id.index < a.silhouettes.size
  · rw [Array.getElem?_eq_getElem bound]
    exact h _ (Array.getElem_mem bound)
  · rw [Array.getElem?_eq_none (Nat.le_of_not_lt bound)]
    exact outside

namespace Forest

variable (f : Forest)

/-- The document is a forest, and the attributes of a silhouette have different names. -/
structure Navigable : Prop where
  document : f.document.WellFormed
  names : ∀ id, ((f.arena.get id).attributes.filterMap f.name?).Nodup

/-- Silhouettes have attributes only in attribute slots, with different names, and neither attributes
nor documents in child slots. -/
structure WellFormed : Prop extends f.Navigable where
  attributes : ∀ id, ∀ r ∈ (f.arena.get id).attributes, f.kind r = .attribute
  children : ∀ id, ∀ r ∈ (f.arena.get id).children, f.kind r ≠ .attribute ∧ f.kind r ≠ .document

/-- The tops of trees: silhouettes in no slot, and visible nodes of the document that are neither
children nor attributes. -/
inductive IsTop : Pointer → Prop
  | silhouette (id : SilhouetteId) : IsTop (.silhouette id)
  | real (id : NodeId) (visible : f.document.isVisible id) (top : f.document.parent? id = none) :
    IsTop (.real id)

/-- The pointers that are reached by steps to attributes and children from silhouettes in no slot and
from visible nodes of the document. -/
inductive Reached : Pointer → Prop
  | silhouette (id : SilhouetteId) : Reached (.silhouette id)
  | real (id : NodeId) (visible : f.document.isVisible id) : Reached (.real id)
  | entry {q p : Pointer} (hq : Reached q) (hp : p ∈ f.entries q) : Reached p

/-- If the pointer has graft points, it is the entry of the innermost one, or it stands strictly below
that entry in the document. -/
def Placed (p : Pointer) : Prop :=
  ∀ g up, p.graft = g :: up → ∃ r, f.entry? g.parent g.slot = some r ∧ (p.node = r ∨ ∃ id n,
    p.node = .real id ∧ r = .real n ∧ ∃ q, f.document.parent? id = some q ∧ f.document.AtOrAbove q n)

variable {f}

/-- What a forest asks of its silhouettes can be tested. -/
theorem WellFormed.of_silhouettes (document : f.document.WellFormed)
    (h : ∀ s ∈ f.arena.silhouettes, (s.attributes.filterMap f.name?).Nodup ∧
      (∀ r ∈ s.attributes, f.kind r = .attribute) ∧
      ∀ r ∈ s.children, f.kind r ≠ .attribute ∧ f.kind r ≠ .document) : f.WellFormed := by
  have fits (id : SilhouetteId) := f.arena.get_of_silhouettes id h
    ⟨List.nodup_nil, List.forall_mem_nil _, List.forall_mem_nil _⟩
  exact ⟨⟨document, fun id => (fits id).1⟩, fun id => (fits id).2.1, fun id => (fits id).2.2⟩

theorem IsTop.reached {p : Pointer} (h : f.IsTop p) : f.Reached p := by
  cases h with
  | silhouette id => exact .silhouette id
  | real id visible _ => exact .real id visible

/-! ## Hidden nodes -/

/-- A document type answers to no name. -/
theorem name?_of_documentType {r : NodeRef} (h : f.kind r = .documentType) : f.name? r = none := by
  rw [kind] at h
  rw [name?]
  cases hl : f.label r <;> rw [hl] at h <;> cases h
  rfl

theorem kind_silhouette_ne (id : SilhouetteId) : f.kind (.silhouette id) ≠ .documentType := by
  rw [kind, label]
  cases f.arena.get id <;> exact Kind.noConfusion

/-! ## Steps down -/

theorem mem_attributes_silhouette {id : SilhouetteId} {graft : List GraftPoint} {p : Pointer} :
    p ∈ f.attributes ⟨.silhouette id, graft⟩ ↔ ∃ r ∈ (f.arena.get id).attributes, ∃ name,
      f.name? r = some name ∧ ⟨r, ⟨id, .attribute name⟩ :: graft⟩ = p := by
  simp only [attributes, List.mem_filterMap, Option.map_eq_some_iff]

theorem mem_children_silhouette {id : SilhouetteId} {graft : List GraftPoint} {p : Pointer} :
    p ∈ f.children ⟨.silhouette id, graft⟩ ↔ ∃ r i, ((f.arena.get id).children[i]? = some r ∧
      f.isVisible r) ∧ ⟨r, ⟨id, .child i⟩ :: graft⟩ = p := by
  simp only [children, visibleEntries, List.mem_map, List.mem_filter, List.mem_zipIdx_iff_getElem?,
    entryPointer, Prod.exists]

/-- The slot of a name holds the attribute with that name, since no other has it. -/
theorem entry?_of_mem_attributes {id : SilhouetteId}
    (names : ((f.arena.get id).attributes.filterMap f.name?).Nodup) {r : NodeRef} {name : Name}
    (mem : r ∈ (f.arena.get id).attributes) (named : f.name? r = some name) :
    f.entry? id (.attribute name) = some r :=
  find?_of_nodup_filterMap names mem named

/-- Below a silhouette stand its entries. -/
theorem entry?_of_mem_entries {id : SilhouetteId}
    (names : ((f.arena.get id).attributes.filterMap f.name?).Nodup) {graft : List GraftPoint}
    {p : Pointer} (h : p ∈ f.entries ⟨.silhouette id, graft⟩) :
    ∃ slot, p.graft = ⟨id, slot⟩ :: graft ∧ f.entry? id slot = some p.node := by
  rcases List.mem_append.1 h with h | h
  · obtain ⟨r, mem, name, named, rfl⟩ := mem_attributes_silhouette.1 h
    exact ⟨.attribute name, rfl, entry?_of_mem_attributes names mem named⟩
  · obtain ⟨r, i, ⟨found, -⟩, rfl⟩ := mem_children_silhouette.1 h
    exact ⟨.child i, rfl, found⟩

theorem mem_attributes_real (wf : f.document.WellFormed) {id : NodeId} {graft : List GraftPoint}
    {p : Pointer} : p ∈ f.attributes ⟨.real id, graft⟩ ↔ ∃ a, (f.document.parent? a = some id ∧
      f.document.kind a = .attribute) ∧ ⟨.real a, graft⟩ = p := by
  show p ∈ (if f.document.kind id = .element then _ else _) ↔ _
  split_ifs with element
  · simp only [List.mem_map, wf.mem_attributes]
  · refine iff_of_false List.not_mem_nil ?_
    rintro ⟨a, ⟨parent, kind⟩, -⟩
    exact element (wf.isElement a id parent kind)

theorem mem_children_real (wf : f.document.WellFormed) {id : NodeId} {graft : List GraftPoint}
    {p : Pointer} : p ∈ f.children ⟨.real id, graft⟩ ↔ ∃ c, ((f.document.parent? c = some id ∧
      f.document.kind c ≠ .attribute) ∧ f.document.isVisible c) ∧ ⟨.real c, graft⟩ = p := by
  simp only [children, List.mem_map, List.mem_filter, wf.mem_children]

/-- Below a real node stand the visible nodes with that parent. -/
theorem mem_entries_real (wf : f.document.WellFormed) {id : NodeId} {graft : List GraftPoint}
    {p : Pointer} : p ∈ f.entries ⟨.real id, graft⟩ ↔ ∃ c, (f.document.parent? c = some id ∧
      f.document.isVisible c) ∧ ⟨.real c, graft⟩ = p := by
  rw [entries, List.mem_append, mem_attributes_real wf, mem_children_real wf, ← exists_or]
  refine exists_congr fun c => ?_
  by_cases kind : f.document.kind c = .attribute
  · simp [kind, Document.isVisible, and_comm]
  · simp [kind]

/-- Different entries of a node are different pointers. -/
theorem nodup_entries (nav : f.Navigable) (q : Pointer) : (f.entries q).Nodup := by
  obtain ⟨node, graft⟩ := q
  cases node with
  | real id =>
    refine List.nodup_append'.2 ⟨?_, ?_, fun p attr child => ?_⟩
    · show (if f.document.kind id = .element then _ else _ : List Pointer).Nodup
      split_ifs
      · refine (nav.document.nodup_attributes id).map fun a b eq => ?_
        cases eq
        rfl
      · exact List.nodup_nil
    · refine ((nav.document.nodup_children id).filter _).map fun a b eq => ?_
      cases eq
      rfl
    · obtain ⟨a, ⟨-, kind⟩, rfl⟩ := (mem_attributes_real nav.document).1 attr
      obtain ⟨c, ⟨⟨-, kind'⟩, -⟩, eq⟩ := (mem_children_real nav.document).1 child
      cases eq
      exact kind' kind
  | silhouette id =>
    refine List.nodup_append'.2 ⟨?_, ?_, fun p attr child => ?_⟩
    · refine List.pairwise_filterMap.2 ((List.pairwise_filterMap.1 (nav.names id)).imp ?_)
      intro r r' names p hp p' hp' eq
      obtain ⟨name, named, rfl⟩ := Option.map_eq_some_iff.1 hp
      obtain ⟨name', named', rfl⟩ := Option.map_eq_some_iff.1 hp'
      refine names name named name' named' ?_
      simp only [Pointer.mk.injEq, List.cons.injEq, GraftPoint.mk.injEq, Slot.attribute.injEq] at eq
      exact eq.2.1.2
    · have positions : ((f.arena.get id).children.zipIdx.map Prod.snd).Nodup := by
        rw [List.zipIdx_map_snd]
        exact List.nodup_range'
      refine List.pairwise_map.2 (((List.pairwise_map.1 positions).filter _).imp ?_)
      intro e e' positions eq
      simp only [entryPointer, Pointer.mk.injEq, List.cons.injEq, GraftPoint.mk.injEq,
        Slot.child.injEq] at eq
      exact positions eq.2.1.2
    · obtain ⟨r, -, name, -, rfl⟩ := mem_attributes_silhouette.1 attr
      obtain ⟨r', i, -, eq⟩ := mem_children_silhouette.1 child
      cases eq

/-! ## Steps up -/

theorem placed_entry {id : SilhouetteId} {slot : Slot} {graft : List GraftPoint} {r : NodeRef}
    (found : f.entry? id slot = some r) : f.Placed ⟨r, ⟨id, slot⟩ :: graft⟩ := by
  rintro g up eq
  obtain ⟨rfl, rfl⟩ := List.cons.inj eq
  exact ⟨r, found, Or.inl rfl⟩

/-- What is placed below an entry stays so on the way down. -/
theorem Placed.below {id c : NodeId} {graft : List GraftPoint} (h : f.Placed ⟨.real id, graft⟩)
    (parent : f.document.parent? c = some id) : f.Placed ⟨.real c, graft⟩ := by
  rintro g up eq
  obtain ⟨r, found, place⟩ := h g up eq
  refine ⟨r, found, Or.inr ?_⟩
  rcases place with rfl | ⟨id', n, eq, rfl, q, parent', atOrAbove⟩
  · exact ⟨c, id, rfl, rfl, id, parent, .refl id⟩
  · obtain rfl : id = id' := NodeRef.real.inj eq
    exact ⟨c, n, rfl, rfl, id, parent, .head parent' atOrAbove⟩

/-- A real node below a real node stands in no slot of its own. -/
theorem Placed.not_occupies (wf : f.document.WellFormed) {id c : NodeId} {g : GraftPoint}
    {up : List GraftPoint} (h : f.Placed ⟨.real id, g :: up⟩)
    (parent : f.document.parent? c = some id) : ¬ f.Occupies (.real c) g := by
  intro occupies
  obtain ⟨r, found, place⟩ := h g up rfl
  obtain rfl : r = .real c := Option.some.inj (found.symm.trans occupies)
  refine wf.not_atOrAbove_parent parent ?_
  rcases place with eq | ⟨id', n, eq, eq', q, parent', atOrAbove⟩
  · obtain rfl := NodeRef.real.inj eq
    exact .refl _
  · obtain rfl := NodeRef.real.inj eq
    obtain rfl := NodeRef.real.inj eq'
    exact .head parent' atOrAbove

theorem Reached.placed (nav : f.Navigable) {p : Pointer} (h : f.Reached p) : f.Placed p := by
  induction h with
  | silhouette id | real id _ => exact fun _ _ => nofun
  | @entry q p _ hp ih =>
    obtain ⟨node, graft⟩ := q
    cases node with
    | silhouette id =>
      obtain ⟨slot, eq, found⟩ := entry?_of_mem_entries (nav.names id) hp
      obtain ⟨r, graft'⟩ := p
      obtain rfl : graft' = ⟨id, slot⟩ :: graft := eq
      exact placed_entry found
    | real id =>
      obtain ⟨c, ⟨parent, -⟩, rfl⟩ := (mem_entries_real nav.document).1 hp
      exact ih.below parent

/-- The step up from an entry of a silhouette leads to the silhouette. -/
theorem parent?_of_mem_silhouette {id : SilhouetteId}
    (names : ((f.arena.get id).attributes.filterMap f.name?).Nodup) {graft : List GraftPoint}
    {p : Pointer} (hp : p ∈ f.entries ⟨.silhouette id, graft⟩) :
    f.parent? p = .ok (some ⟨.silhouette id, graft⟩) := by
  obtain ⟨slot, eq, found⟩ := entry?_of_mem_entries names hp
  rw [parent?, eq]
  exact if_pos found

/-- The step up undoes the step down. -/
theorem parent?_of_mem_entries (nav : f.Navigable) {q p : Pointer} (hq : f.Reached q)
    (hp : p ∈ f.entries q) : f.parent? p = .ok (some q) := by
  obtain ⟨node, graft⟩ := q
  cases node with
  | silhouette id => exact parent?_of_mem_silhouette (nav.names id) hp
  | real id =>
    obtain ⟨c, ⟨parent, -⟩, rfl⟩ := (mem_entries_real nav.document).1 hp
    cases graft with
    | nil =>
      show Except.ok ((f.document.parent? c).map Pointer.real) = _
      rw [parent]
      rfl
    | cons g up =>
      show (if f.Occupies (.real c) g then _ else _) = _
      rw [if_neg ((hq.placed nav).not_occupies nav.document parent)]
      show Except.ok ((f.document.parent? c).map _) = _
      rw [parent]
      rfl

/-- A visible node of the document is a top, or it stands below another. -/
theorem isTop_or_mem_entries (wf : f.document.WellFormed) {id : NodeId}
    (visible : f.document.isVisible id) : f.IsTop (.real id) ∨ ∃ q,
      f.document.parent? id = some q ∧ f.document.isVisible q ∧
        (.real id : Pointer) ∈ f.entries (.real q) := by
  cases parent : f.document.parent? id with
  | none => exact Or.inl (.real id visible parent)
  | some q =>
    have mem : (.real id : Pointer) ∈ f.entries (.real q) :=
      (mem_entries_real wf).2 ⟨id, ⟨parent, visible⟩, rfl⟩
    exact Or.inr ⟨q, rfl, wf.isVisible_parent parent, mem⟩

/-! ## Depth -/

/-- A bound on the levels that are really below a pointer. -/
def room (f : Forest) (p : Pointer) : ℕ :=
  match p.node with
  | .real id => f.document.room id
  | .silhouette id => id.index + 1 + f.document.size

theorem room_le_levels (p : Pointer) : f.room p ≤ f.levels p := by
  obtain ⟨node, graft⟩ := p
  cases node with
  | real id => exact f.document.room_le id
  | silhouette id => exact Nat.le_refl _

theorem node_mem_references {id : SilhouetteId} {graft : List GraftPoint} {p : Pointer}
    (h : p ∈ f.entries ⟨.silhouette id, graft⟩) : p.node ∈ (f.arena.get id).references := by
  rcases List.mem_append.1 h with h | h
  · obtain ⟨r, mem, -, -, rfl⟩ := mem_attributes_silhouette.1 h
    exact List.mem_append_left _ mem
  · obtain ⟨r, i, ⟨found, -⟩, rfl⟩ := mem_children_silhouette.1 h
    exact List.mem_append_right _ (List.mem_of_getElem? found)

theorem room_lt_of_mem_entries (wf : f.document.WellFormed) {q p : Pointer} (h : p ∈ f.entries q) :
    f.room p < f.room q := by
  obtain ⟨node, graft⟩ := q
  cases node with
  | silhouette id =>
    have below := Arena.below_of_mem_references (node_mem_references h)
    obtain ⟨node, graft'⟩ := p
    cases node with
    | real c =>
      have := f.document.room_le c
      simp only [room] at *
      omega
    | silhouette s =>
      simp only [room, NodeRef.Below] at *
      omega
  | real id =>
    obtain ⟨c, ⟨parent, -⟩, rfl⟩ := (mem_entries_real wf).1 h
    exact wf.room_lt parent

/-- A recursion downwards with as many levels as there may be is one step and the recursion from
there. -/
theorem unfold_levels (wf : f.document.WellFormed) {β : Type} (F : ℕ → Pointer → β)
    (step : Pointer → (Pointer → β) → β)
    (zero : ∀ p g, f.attributes p = [] → f.children p = [] → F 0 p = step p g)
    (succ : ∀ n p, F (n + 1) p = step p (F n))
    (only : ∀ p g g', (∀ c ∈ f.attributes p, g c = g' c) → (∀ c ∈ f.children p, g c = g' c) →
      step p g = step p g') (p : Pointer) :
    F (f.levels p) p = step p fun c => F (f.levels c) c :=
  unfold_within f.entries f.levels F step (fun _ _ mem => room_lt_of_mem_entries wf mem) room_le_levels
    (fun p g none => (List.append_eq_nil_iff.1 none).elim (zero p g)) succ
    (fun p g g' same => only p g g' (fun c hc => same c (List.mem_append_left _ hc))
      fun c hc => same c (List.mem_append_right _ hc)) p

end Forest

end VirtualTree
