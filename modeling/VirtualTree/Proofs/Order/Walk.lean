import VirtualTree.Proofs.Order.Path

/-!
# Walks and what stands in them

A walk lists a pointer and then the walks of the pointers one step below it (`walk_eq`), so it holds
what is reached from the pointer by steps down, and the steps are told by the path (`Descends`,
`path_of_descends`).  As a pointer has one path, it stands in one place of a walk only
(`nodup_walk`).
-/

namespace VirtualTree

open Document

namespace Forest

variable {f : Forest}

/-! ## The recursion of walks -/

/-- A walk is a node, its attributes, and the walks of its children. -/
theorem walk_eq (wf : f.document.WellFormed) (p : Pointer) :
    f.walk p = p :: (f.attributes p ++ (f.children p).flatMap f.walk) :=
  unfold_levels wf f.walkWithin (fun p g => p :: (f.attributes p ++ (f.children p).flatMap g))
    (fun p g attributes children => by rw [attributes, children]; rfl) (fun _ _ => rfl)
    (fun p g g' _ children => by rw [List.flatMap_congr children]) p

/-! ## Attributes and children -/

theorem kind_of_mem_attributes (wf : f.WellFormed) {q p : Pointer} (h : p ∈ f.attributes q) :
    f.kind p.node = .attribute := by
  obtain ⟨node, graft⟩ := q
  cases node with
  | silhouette id =>
    obtain ⟨r, mem, -, -, rfl⟩ := mem_attributes_silhouette.1 h
    exact wf.attributes id r mem
  | real id =>
    obtain ⟨a, ⟨-, kind⟩, rfl⟩ := (mem_attributes_real wf.document).1 h
    exact kind

theorem kind_of_mem_children (wf : f.WellFormed) {q p : Pointer} (h : p ∈ f.children q) :
    f.kind p.node ≠ .attribute ∧ f.kind p.node ≠ .document := by
  obtain ⟨node, graft⟩ := q
  cases node with
  | silhouette id =>
    obtain ⟨r, i, ⟨found, -⟩, rfl⟩ := mem_children_silhouette.1 h
    exact wf.children id r (List.mem_of_getElem? found)
  | real id =>
    obtain ⟨c, ⟨⟨parent, kind⟩, -⟩, rfl⟩ := (mem_children_real wf.document).1 h
    refine ⟨kind, fun document => ?_⟩
    rw [wf.document.parent_of_document c document] at parent
    cases parent

theorem kind_of_mem_entries (wf : f.WellFormed) {q p : Pointer} (h : p ∈ f.entries q) :
    f.kind p.node ≠ .document := by
  rcases List.mem_append.1 h with h | h
  · rw [kind_of_mem_attributes wf h]
    decide
  · exact (kind_of_mem_children wf h).2

theorem references_of_attribute {s : Silhouette} (h : s.label.kind = .attribute) :
    s.references = [] := by
  cases s with
  | «attribute» => rfl
  | document | element | text | comment | processingInstruction => cases h

theorem entries_of_attribute (wf : f.document.WellFormed) {p : Pointer}
    (h : f.kind p.node = .attribute) : f.entries p = [] := by
  obtain ⟨node, graft⟩ := p
  cases node with
  | real id =>
    refine List.eq_nil_iff_forall_not_mem.2 fun q hq => ?_
    obtain ⟨c, ⟨parent, -⟩, rfl⟩ := (mem_entries_real wf).1 hq
    by_cases attr : f.document.kind c = .attribute
    · have element : f.kind (.real id) = .element := wf.isElement c id parent attr
      rw [h] at element
      cases element
    · have isParent : (f.kind (.real id)).isParent := wf.isParent c id parent attr
      rw [h] at isParent
      cases isParent
  | silhouette id =>
    have none_below := references_of_attribute (s := f.arena.get id) h
    obtain ⟨attributes, children⟩ := List.append_eq_nil_iff.1 none_below
    simp [entries, Forest.attributes, Forest.children, visibleEntries, attributes, children]

theorem kind_ne_of_mem_entries (wf : f.document.WellFormed) {q p : Pointer} (h : p ∈ f.entries q) :
    f.kind q.node ≠ .attribute := fun attr => by
  rw [entries_of_attribute wf attr] at h
  cases h

/-- In a well-formed forest nothing stands below attributes, so walks go into all entries alike. -/
theorem walk_cons (wf : f.WellFormed) (p : Pointer) :
    f.walk p = p :: (f.entries p).flatMap f.walk := by
  have alone : ∀ a ∈ f.attributes p, f.walk a = [a] := fun a ha => by
    have none_below := entries_of_attribute wf.document (kind_of_mem_attributes wf ha)
    obtain ⟨attributes, children⟩ := List.append_eq_nil_iff.1 none_below
    rw [walk_eq wf.document, attributes, children]
    rfl
  rw [walk_eq wf.document, entries, List.flatMap_append, List.flatMap_congr alone,
    List.flatMap_singleton']

/-! ## What stands in a walk -/

/-- From one pointer steps down lead through the given pointers to another. -/
inductive Descends (f : Forest) : Pointer → List Pointer → Pointer → Prop
  | here (p : Pointer) : Descends f p [] p
  | step {r x a : Pointer} {as : List Pointer} (mem : x ∈ f.entries r) (rest : Descends f x as a) :
    Descends f r (x :: as) a

theorem mem_walk_iff (wf : f.WellFormed) {r a : Pointer} :
    a ∈ f.walk r ↔ ∃ as, f.Descends r as a := by
  constructor
  · intro h
    induction hn : f.room r using Nat.strong_induction_on generalizing r with
    | h n ih =>
      rw [walk_cons wf] at h
      rcases List.mem_cons.1 h with rfl | h
      · exact ⟨[], .here a⟩
      · obtain ⟨x, mem, h⟩ := List.mem_flatMap.1 h
        obtain ⟨as, rest⟩ := ih _ (hn ▸ room_lt_of_mem_entries wf.document mem) h rfl
        exact ⟨x :: as, .step mem rest⟩
  · rintro ⟨as, descends⟩
    induction descends with
    | here p =>
      rw [walk_cons wf]
      exact List.mem_cons_self
    | step mem _ ih =>
      rw [walk_cons wf]
      exact List.mem_cons_of_mem _ (List.mem_flatMap.2 ⟨_, mem, ih⟩)

theorem Descends.snoc {r q p : Pointer} {qs : List Pointer} (h : f.Descends r qs q)
    (hp : p ∈ f.entries q) : f.Descends r (qs ++ [p]) p := by
  induction h with
  | here q => exact .step hp (.here p)
  | step mem _ ih => exact .step mem (ih hp)

theorem Descends.reached {r a : Pointer} {as : List Pointer} (h : f.Descends r as a)
    (hr : f.Reached r) : f.Reached a := by
  induction h with
  | here p => exact hr
  | step mem _ ih => exact ih (.entry hr mem)

theorem reached_of_mem_walk (wf : f.WellFormed) {r a : Pointer} (hr : f.Reached r)
    (h : a ∈ f.walk r) : f.Reached a := by
  obtain ⟨as, descends⟩ := (mem_walk_iff wf).1 h
  exact descends.reached hr

/-- Every reached pointer stands in the walk of a top. -/
theorem Reached.exists_top (wf : f.WellFormed) {p : Pointer} (h : f.Reached p) :
    ∃ r as, f.IsTop r ∧ f.Descends r as p := by
  induction h with
  | silhouette id => exact ⟨_, [], .silhouette id, .here _⟩
  | real id visible =>
    induction id using wf.document.acyclic.induction with
    | _ id ih =>
      rcases isTop_or_mem_entries wf.document visible with top | ⟨q, parent, visible, mem⟩
      · exact ⟨_, [], top, .here _⟩
      · obtain ⟨r, as, top, descends⟩ := ih q parent visible
        exact ⟨r, as ++ [.real id], top, descends.snoc mem⟩
  | entry _ hp ih =>
    obtain ⟨r, as, top, descends⟩ := ih
    exact ⟨r, as ++ [_], top, descends.snoc hp⟩

/-! ## Paths tell the way down -/

theorem IsTop.parent? {r : Pointer} (h : f.IsTop r) : f.parent? r = .ok none := by
  cases h with
  | silhouette id => rfl
  | real id _ top =>
    show Except.ok ((f.document.parent? id).map Pointer.real) = _
    rw [top]
    rfl

theorem path_of_isTop (wf : f.WellFormed) {r : Pointer} (h : f.IsTop r) : f.path r = .ok [r] := by
  rw [path_eq wf.document, h.parent?]
  exact ite_self _

theorem path_of_mem_entries (wf : f.WellFormed) {q p : Pointer} (hq : f.Reached q)
    (hp : p ∈ f.entries q) : f.path p = (f.path q).map (· ++ [p]) := by
  rw [path_eq wf.document, if_neg (kind_of_mem_entries wf hp),
    parent?_of_mem_entries wf.toNavigable hq hp]

theorem path_of_descends (wf : f.WellFormed) {r a : Pointer} {as l : List Pointer}
    (hr : f.Reached r) (path : f.path r = .ok l) (h : f.Descends r as a) :
    f.path a = .ok (l ++ as) := by
  induction h generalizing l with
  | here p => rw [path, List.append_nil]
  | @step r x a as mem _ ih =>
    have next : f.path x = .ok (l ++ [x]) := by
      rw [path_of_mem_entries wf hr mem, path]
      rfl
    rw [ih (.entry hr mem) next, List.append_assoc]
    rfl

theorem Reached.exists_path (wf : f.WellFormed) {p : Pointer} (h : f.Reached p) :
    ∃ l, f.path p = .ok l := by
  obtain ⟨r, as, top, descends⟩ := h.exists_top wf
  exact ⟨_, path_of_descends wf top.reached (path_of_isTop wf top) descends⟩

/-- There is only one way down. -/
theorem Descends.unique (wf : f.WellFormed) {r a : Pointer} {as bs : List Pointer}
    (hr : f.Reached r) (ha : f.Descends r as a) (hb : f.Descends r bs a) : as = bs := by
  obtain ⟨l, path⟩ := hr.exists_path wf
  have eq := (path_of_descends wf hr path ha).symm.trans (path_of_descends wf hr path hb)
  exact List.append_cancel_left (Except.ok.inj eq)

/-- A pointer stands in the walks of no two entries of a node. -/
theorem entry_unique (wf : f.WellFormed) {r x y a : Pointer} (hr : f.Reached r)
    (hx : x ∈ f.entries r) (hy : y ∈ f.entries r) (ax : a ∈ f.walk x) (ay : a ∈ f.walk y) : x = y := by
  obtain ⟨as, hax⟩ := (mem_walk_iff wf).1 ax
  obtain ⟨bs, hay⟩ := (mem_walk_iff wf).1 ay
  exact (List.cons.inj (Descends.unique wf hr (.step hx hax) (.step hy hay))).1

theorem not_mem_walk_of_mem_entries (wf : f.WellFormed) {r x : Pointer} (hr : f.Reached r)
    (hx : x ∈ f.entries r) : r ∉ f.walk x := by
  intro h
  obtain ⟨as, descends⟩ := (mem_walk_iff wf).1 h
  cases Descends.unique wf hr (.step hx descends) (.here r)

/-- No pointer stands in a walk twice. -/
theorem nodup_walk (wf : f.WellFormed) {r : Pointer} (hr : f.Reached r) : (f.walk r).Nodup := by
  induction hn : f.room r using Nat.strong_induction_on generalizing r with
  | h n ih =>
    rw [walk_cons wf]
    refine List.nodup_cons.2 ⟨fun mem => ?_, List.nodup_flatMap.2 ⟨fun x hx => ?_, ?_⟩⟩
    · obtain ⟨x, hx, mem⟩ := List.mem_flatMap.1 mem
      exact not_mem_walk_of_mem_entries wf hr hx mem
    · exact ih _ (hn ▸ room_lt_of_mem_entries wf.document hx) (.entry hr hx) rfl
    · refine (nodup_entries wf.toNavigable r).imp_of_mem fun hx hy ne a ax ay => ne ?_
      exact entry_unique wf hr hx hy ax ay

end Forest

end VirtualTree
