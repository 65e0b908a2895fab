import VirtualTree.Materialization
import VirtualTree.Proofs.Forest.Shown

/-!
# Places in built trees

A built tree is found to have the same steps as the virtual tree it was built from: the node in the slot
that a step of navigation leads through has the tree that the step leads to (`exists_joined`).  So every
pointer to a virtual node below the top is `Located` at a node, by the slots that `Forest.descent` gives
(`exists_located`), and different pointers at different nodes (`Located.inj`).
-/

namespace VirtualTree

open Document

/-- The number of chosen entries before one of them is its position among them. -/
theorem length_filter_take_of_zipIdx {α : Type} {v : α → Bool} {l : List α} {s k i : ℕ} {a : α}
    (h : ((l.zipIdx s).filter fun e => v e.1)[k]? = some (a, i)) :
    s ≤ i ∧ ((l.take (i - s)).filter v).length = k := by
  induction l generalizing s k with
  | nil => simp at h
  | cons x xs ih =>
    rw [List.zipIdx_cons, List.filter_cons] at h
    by_cases chosen : v x
    · simp only [chosen, if_true] at h
      cases k with
      | zero =>
        obtain ⟨rfl, rfl⟩ := Prod.mk.inj (Option.some.inj h)
        simp
      | succ k =>
        obtain ⟨le, count⟩ := ih h
        refine ⟨by omega, ?_⟩
        rw [show i - s = i - (s + 1) + 1 by omega, List.take_succ_cons, List.filter_cons, if_pos chosen,
          List.length_cons, count]
    · simp only [chosen] at h
      obtain ⟨le, count⟩ := ih h
      refine ⟨by omega, ?_⟩
      rw [show i - s = i - (s + 1) + 1 by omega, List.take_succ_cons, List.filter_cons, if_neg chosen,
        count]

theorem Document.follow_append (d : Document) (t : NodeId) (slots : List Slot) (slot : Slot) :
    d.follow t (slots ++ [slot]) = (d.follow t slots).bind fun m =>
      match d.inSlot? m slot with
      | some n => .ok n
      | none => .error (.unbuiltSlot slot) := by
  induction slots generalizing t with
  | nil => cases h : d.inSlot? t slot <;> simp [follow, h, Except.bind]
  | cons s slots ih =>
    rw [List.cons_append, follow, follow]
    cases d.inSlot? t s with
    | none => rfl
    | some next => exact ih next

namespace Forest

variable {f : Forest} {d : Document}

/-! ## One step -/

section Step

variable (wf' : d.WellFormed) {id : SilhouetteId} (faithful : (f.tree (.silhouette id)).Faithful)
  {m : NodeId} (tree : d.tree m = f.tree (.silhouette id)) {graft : List GraftPoint} {p : Pointer}
  {k : ℕ}

include wf' tree

variable (graft) in
theorem childTrees_eq :
    d.childTrees m = (f.children ⟨.silhouette id, graft⟩).map fun p => f.tree p.node := by
  rw [wf'.tree_eq_node, tree_silhouette] at tree
  rw [map_children]
  injection tree

include faithful

/-- The child in a child slot. -/
theorem inSlot?_child (h : (f.children ⟨.silhouette id, graft⟩)[k]? = some p) :
    ∃ g n, p.graft = g :: graft ∧ d.inSlot? m (f.builtSlot g) = some n ∧
      (d.children m)[k]? = some n ∧ d.tree n = f.tree p.node := by
  have trees := congrArg (·[k]?) (childTrees_eq wf' tree graft)
  simp only [childTrees, List.getElem?_map, h, Option.map_some, Option.map_eq_some_iff] at trees
  obtain ⟨n, found, same⟩ := trees
  obtain ⟨⟨r, i⟩, entry, rfl⟩ := Option.map_eq_some_iff.1 ((List.getElem?_map ..).symm.trans h)
  obtain ⟨-, position⟩ := length_filter_take_of_zipIdx entry
  have visible : (d.children m).filter d.isVisible = d.children m := by
    refine List.filter_eq_self.2 fun c hc => decide_eq_true ?_
    rw [← kind_tree wf']
    exact ((tree ▸ faithful).of_mem_links wf' c (List.mem_append_right _ hc)).visible
  refine ⟨⟨id, .child i⟩, n, rfl, ?_, found, same⟩
  rw [Nat.sub_zero] at position
  rw [builtSlot, inSlot?, visible]
  exact (congrArg ((d.children m)[·]?) position).trans found

variable (wf : f.document.WellFormed)

include wf

variable (graft) in
theorem attributeTrees_eq :
    d.attributeTrees m = (f.attributes ⟨.silhouette id, graft⟩).map fun p => f.tree p.node := by
  rw [wf'.tree_eq_node, tree_silhouette] at tree
  rw [map_attributes wf faithful]
  injection tree

/-- The attribute in an attribute slot. -/
theorem inSlot?_attribute (h : (f.attributes ⟨.silhouette id, graft⟩)[k]? = some p) :
    ∃ g n, p.graft = g :: graft ∧ d.inSlot? m (f.builtSlot g) = some n ∧
      (d.attributes m)[k]? = some n ∧ d.tree n = f.tree p.node := by
  have trees := congrArg (·[k]?) (attributeTrees_eq wf' faithful tree graft wf)
  simp only [attributeTrees, List.getElem?_map, h, Option.map_some, Option.map_eq_some_iff] at trees
  obtain ⟨n, found, same⟩ := trees
  obtain ⟨r, -, name, named, rfl⟩ := mem_attributes_silhouette.1 (List.mem_of_getElem? h)
  have nameN : d.name? n = some name := by
    rw [Document.name?, Tree.label_of_tree wf' same, label_tree wf]
    exact named
  refine ⟨⟨id, .attribute name⟩, n, rfl, ?_, found, same⟩
  exact find?_of_nodup_filterMap (nodup_names_of_faithful wf' (tree ▸ faithful))
    (List.mem_of_getElem? found) nameN

end Step

/-- The node `n` has the same place at `m` as the pointer `p` has below `q`. -/
structure Joined (f : Forest) (d : Document) (q : Pointer) (m : NodeId) (p : Pointer) (n : NodeId) :
    Prop where
  slot : ∃ g, p.graft = g :: q.graft ∧ d.inSlot? m (f.builtSlot g) = some n
  tree : d.tree n = f.tree p.node
  parent : d.parent? n = some m
  children : ∀ i : ℕ, (f.children q)[i]? = some p → (d.children m)[i]? = some n
  attributes : ∀ i : ℕ, (f.attributes q)[i]? = some p → (d.attributes m)[i]? = some n

theorem exists_joined (wf : f.document.WellFormed) (wf' : d.WellFormed) {id : SilhouetteId}
    (faithful : (f.tree (.silhouette id)).Faithful) {m : NodeId}
    (tree : d.tree m = f.tree (.silhouette id)) {graft : List GraftPoint} {p : Pointer}
    (mem : p ∈ f.entries ⟨.silhouette id, graft⟩) :
    ∃ n, f.Joined d ⟨.silhouette id, graft⟩ m p n := by
  obtain ⟨g, n, eq, slot, same, parent⟩ : ∃ g n, p.graft = g :: graft ∧
      d.inSlot? m (f.builtSlot g) = some n ∧ d.tree n = f.tree p.node ∧ d.parent? n = some m := by
    rcases List.mem_append.1 mem with mem | mem
    · obtain ⟨k, hk⟩ := List.getElem?_of_mem mem
      obtain ⟨g, n, eq, slot, found, same⟩ := inSlot?_attribute wf' faithful tree wf hk
      exact ⟨g, n, eq, slot, same, wf'.parent_of_mem_attributes (List.mem_of_getElem? found)⟩
    · obtain ⟨k, hk⟩ := List.getElem?_of_mem mem
      obtain ⟨g, n, eq, slot, found, same⟩ := inSlot?_child wf' faithful tree hk
      exact ⟨g, n, eq, slot, same, wf'.parent_of_mem_children (List.mem_of_getElem? found)⟩
  -- The slot alone tells the node, so every position of `p` leads to the same one.
  have only {g' : GraftPoint} {n' : NodeId} (eq' : p.graft = g' :: graft)
      (slot' : d.inSlot? m (f.builtSlot g') = some n') : n' = n := by
    obtain ⟨rfl, -⟩ := List.cons.inj (eq.symm.trans eq')
    exact Option.some.inj (slot'.symm.trans slot)
  refine ⟨n, ⟨g, eq, slot⟩, same, parent, fun i hi => ?_, fun i hi => ?_⟩
  · obtain ⟨g', n', eq', slot', found, -⟩ := inSlot?_child wf' faithful tree hi
    exact only eq' slot' ▸ found
  · obtain ⟨g', n', eq', slot', found, -⟩ := inSlot?_attribute wf' faithful tree wf hi
    exact only eq' slot' ▸ found

/-- No two entries have the same node. -/
theorem Joined.inj (wf' : d.WellFormed) {q p p' : Pointer} {m n : NodeId} (h : f.Joined d q m p n)
    (h' : f.Joined d q m p' n) (mem : p ∈ f.entries q) (mem' : p' ∈ f.entries q) : p = p' := by
  have apart {i j : ℕ} (hi : (d.attributes m)[i]? = some n) (hj : (d.children m)[j]? = some n) :
      False :=
    wf'.kind_of_mem_children (List.mem_of_getElem? hj)
      (wf'.kind_of_mem_attributes (List.mem_of_getElem? hi))
  have same {l : List NodeId} (nodup : l.Nodup) {ps : List Pointer} {i j : ℕ} (hi : l[i]? = some n)
      (hj : l[j]? = some n) (hp : ps[i]? = some p) (hp' : ps[j]? = some p') : p = p' := by
    have inside := (List.getElem?_eq_some_iff.1 hi).1
    obtain rfl := (List.getElem?_inj inside nodup).1 (hi.trans hj.symm)
    exact Option.some.inj (hp.symm.trans hp')
  rcases List.mem_append.1 mem with mem | mem <;> rcases List.mem_append.1 mem' with mem' | mem'
  all_goals
    obtain ⟨i, hi⟩ := List.getElem?_of_mem mem
    obtain ⟨j, hj⟩ := List.getElem?_of_mem mem'
  · exact same (wf'.nodup_attributes m) (h.attributes i hi) (h'.attributes j hj) hi hj
  · exact (apart (h.attributes i hi) (h'.children j hj)).elim
  · exact (apart (h'.attributes j hj) (h.children i hi)).elim
  · exact same (wf'.nodup_children m) (h.children i hi) (h'.children j hj) hi hj

/-! ## All steps -/

/-- Steps to attributes and children lead from one pointer to another. -/
def StepsTo (f : Forest) : Pointer → Pointer → Prop :=
  Relation.ReflTransGen fun q p => p ∈ f.entries q

/-- Virtual nodes stand below virtual nodes only, and know the slot they stand in. -/
theorem exists_above {q p : Pointer} (mem : p ∈ f.entries q) {id : SilhouetteId}
    (virtual : p.node = .silhouette id) : ∃ above graft, q = ⟨.silhouette above, graft⟩ ∧
      ∃ slot, p.graft = ⟨above, slot⟩ :: graft := by
  obtain ⟨node, graft⟩ := q
  cases node with
  | silhouette above =>
    refine ⟨above, graft, rfl, ?_⟩
    rcases List.mem_append.1 mem with mem | mem
    · obtain ⟨r, -, name, -, rfl⟩ := mem_attributes_silhouette.1 mem
      exact ⟨.attribute name, rfl⟩
    · obtain ⟨r, i, -, rfl⟩ := mem_children_silhouette.1 mem
      exact ⟨.child i, rfl⟩
  | real c =>
    have real : ∃ a, p.node = .real a := by
      rcases List.mem_append.1 mem with mem | mem
      · rw [attributes] at mem
        dsimp only at mem
        split_ifs at mem
        · obtain ⟨a, -, rfl⟩ := List.mem_map.1 mem
          exact ⟨a, rfl⟩
        · cases mem
      · obtain ⟨a, -, rfl⟩ := List.mem_map.1 mem
        exact ⟨a, rfl⟩
    obtain ⟨a, real⟩ := real
    rw [virtual] at real
    cases real

/-- The pointer is found at the node `n`, from the node `t` for the top of its tree. -/
structure Located (f : Forest) (d : Document) (top : SilhouetteId) (t : NodeId) (p : Pointer)
    (n : NodeId) : Prop where
  way : ∃ slots, f.descent p.graft.length p = .ok (top, slots) ∧ d.follow t slots = .ok n
  tree : d.tree n = f.tree p.node
  faithful : (f.tree p.node).Faithful

namespace Located

variable {top : SilhouetteId} {t m n : NodeId} {q p : Pointer}

theorem here (faithful : (f.tree (.silhouette top)).Faithful)
    (tree : d.tree t = f.tree (.silhouette top)) : f.Located d top t (.silhouette top) t :=
  ⟨⟨[], rfl, rfl⟩, tree, faithful⟩

/-- A step down leads to a node that is joined in the same way. -/
theorem step (wf : f.document.WellFormed) (wf' : d.WellFormed) {id : SilhouetteId}
    {graft : List GraftPoint} (h : f.Located d top t ⟨.silhouette id, graft⟩ m)
    (mem : p ∈ f.entries ⟨.silhouette id, graft⟩) :
    ∃ n, f.Located d top t p n ∧ f.Joined d ⟨.silhouette id, graft⟩ m p n := by
  obtain ⟨⟨slots, descent, follow⟩, tree, faithful⟩ := h
  obtain ⟨n, joined⟩ := exists_joined wf wf' faithful tree mem
  refine ⟨n, ⟨?_, joined.tree, faithful_of_mem_entries wf faithful mem⟩, joined⟩
  obtain ⟨g, eq, slot⟩ := joined.slot
  refine ⟨slots ++ [f.builtSlot g], ?_, ?_⟩
  · have parent := parent?_of_mem_silhouette (nodup_names wf faithful) mem
    obtain ⟨node, graft'⟩ := p
    obtain rfl : graft' = g :: graft := eq
    rw [List.length_cons, Forest.descent, parent]
    show (f.descent graft.length _ >>= _) = _
    rw [descent]
    rfl
  · rw [follow_append, follow]
    show (match d.inSlot? m (f.builtSlot g) with
      | some n => .ok n
      | none => .error _ : Except Error NodeId) = _
    rw [slot]

theorem unique (h : f.Located d top t p m) (h' : f.Located d top t p n) : m = n := by
  obtain ⟨⟨slots, descent, follow⟩, -⟩ := h
  obtain ⟨⟨slots', descent', follow'⟩, -⟩ := h'
  obtain ⟨-, rfl⟩ := Prod.mk.inj (Except.ok.inj (descent.symm.trans descent'))
  exact Except.ok.inj (follow.symm.trans follow')

variable (wf : f.document.WellFormed) (wf' : d.WellFormed)

include wf wf'

/-- Below a top that is built as it is, every pointer to a virtual node is found. -/
theorem exists_located (root : f.Located d top t (.silhouette top) t)
    (steps : f.StepsTo (.silhouette top) p) {id : SilhouetteId} (virtual : p.node = .silhouette id) :
    ∃ n, f.Located d top t p n := by
  induction steps generalizing id with
  | refl => exact ⟨t, root⟩
  | @tail q p _ mem ih =>
    obtain ⟨above, graft, rfl, -⟩ := exists_above mem virtual
    obtain ⟨m, located⟩ := ih rfl
    obtain ⟨n, located, -⟩ := located.step wf wf' mem
    exact ⟨n, located⟩

/-- A pointer that is found below another is joined to it. -/
theorem joined (root : f.Located d top t (.silhouette top) t) (steps : f.StepsTo (.silhouette top) q)
    (mem : p ∈ f.entries q) {id : SilhouetteId} (virtual : p.node = .silhouette id)
    (h : f.Located d top t p n) : ∃ m, f.Located d top t q m ∧ f.Joined d q m p n := by
  obtain ⟨above, graft, rfl, -⟩ := exists_above mem virtual
  obtain ⟨m, located⟩ := exists_located wf wf' root steps rfl
  obtain ⟨n', located', joined⟩ := located.step wf wf' mem
  obtain rfl := located'.unique h
  exact ⟨m, located, joined⟩

/-- Different pointers are found at different nodes, also below different tops. -/
theorem inj {top' : SilhouetteId} {t' : NodeId} {p' : Pointer} (isTop : d.parent? t = none)
    (isTop' : d.parent? t' = none) (apart : t = t' → top = top')
    (root : f.Located d top t (.silhouette top) t)
    (root' : f.Located d top' t' (.silhouette top') t')
    (steps : f.StepsTo (.silhouette top) p) (steps' : f.StepsTo (.silhouette top') p')
    {id id' : SilhouetteId} (virtual : p.node = .silhouette id) (virtual' : p'.node = .silhouette id')
    (h : f.Located d top t p n) (h' : f.Located d top' t' p' n) : p = p' := by
  induction steps generalizing p' n id id' with
  | refl =>
    obtain rfl := h.unique root
    cases steps' with
    | refl =>
      obtain rfl := h'.unique root'
      rw [apart rfl]
    | tail steps' mem' =>
      obtain ⟨m', -, joined'⟩ := joined wf wf' root' steps' mem' virtual' h'
      cases isTop.symm.trans joined'.parent
  | @tail q p steps mem ih =>
    obtain ⟨m, located, joined₁⟩ := joined wf wf' root steps mem virtual h
    cases steps' with
    | refl =>
      obtain rfl := h'.unique root'
      cases isTop'.symm.trans joined₁.parent
    | @tail q' _ steps' mem' =>
      obtain ⟨m', located', joined₂⟩ := joined wf wf' root' steps' mem' virtual' h'
      obtain rfl := Option.some.inj (joined₁.parent.symm.trans joined₂.parent)
      obtain ⟨_, _, rfl, -⟩ := exists_above mem virtual
      obtain ⟨_, _, rfl, -⟩ := exists_above mem' virtual'
      rw [ih steps' rfl rfl located located'] at joined₁ mem
      exact joined₁.inj wf' joined₂ mem mem'

end Located

end Forest

end VirtualTree
