import VirtualTree.Proofs.Document.Extends

/-!
# Trees below nodes

The tree below a node is its label with the trees below its attributes and children (`tree_eq`).  Trees
are computed down to a depth; no node stands deeper, since each step down leaves less room: the nodes at
or above a node are all different.  What the tree below a node is depends on the nodes below it only
(`tree_congr`), so a document that extends another has the same trees below the earlier nodes.
-/

namespace VirtualTree

/-! ## Enough depth -/

section Within

variable {α β : Type} {below : α → List α} {room : α → ℕ} {F : ℕ → α → β}
  {step : α → (α → β) → β}

/-- A recursion downwards that gets as many levels as there is room gives the same with more. -/
theorem within_eq (lower : ∀ a, ∀ b ∈ below a, room b < room a)
    (zero : ∀ a g, below a = [] → F 0 a = step a g) (succ : ∀ n a, F (n + 1) a = step a (F n))
    (only : ∀ a g g', (∀ b ∈ below a, g b = g' b) → step a g = step a g') {n m : ℕ} {a : α}
    (hn : room a ≤ n) (hm : room a ≤ m) : F n a = F m a := by
  have alone {a : α} (h : room a ≤ 0) : below a = [] :=
    List.eq_nil_iff_forall_not_mem.2 fun b hb => absurd (lower a b hb) (by omega)
  induction n generalizing m a with
  | zero =>
    cases m with
    | zero => rfl
    | succ m => rw [succ, zero a _ (alone hn)]
  | succ n ih =>
    cases m with
    | zero => rw [succ, zero a _ (alone hm)]
    | succ m =>
      rw [succ, succ]
      refine only a _ _ fun b hb => ?_
      have := lower a b hb
      exact ih (by omega) (by omega)

/-- A recursion downwards with enough levels is one step and the recursion from there. -/
theorem unfold_within (below : α → List α) (levels : α → ℕ) (F : ℕ → α → β)
    (step : α → (α → β) → β) (lower : ∀ a, ∀ b ∈ below a, room b < room a)
    (enough : ∀ a, room a ≤ levels a)
    (zero : ∀ a g, below a = [] → F 0 a = step a g) (succ : ∀ n a, F (n + 1) a = step a (F n))
    (only : ∀ a g g', (∀ b ∈ below a, g b = g' b) → step a g = step a g') (a : α) :
    F (levels a) a = step a fun b => F (levels b) b := by
  rw [within_eq lower zero succ only (enough a) (Nat.le_succ_of_le (enough a)), succ]
  refine only a _ _ fun b hb => ?_
  have := lower a b hb
  have := enough a
  exact within_eq lower zero succ only (by omega) (enough b)

end Within

namespace Document

variable {d : Document}

/-! ## Depth -/

/-- The nodes at or above a node are the node and those at or above its parent. -/
theorem WellFormed.ancestorsOrSelf_of_parent (wf : d.WellFormed) {c p : NodeId}
    (h : d.parent? c = some p) : d.ancestorsOrSelf c = c :: d.ancestorsOrSelf p := by
  have has : d.Has c := has_of_parent h
  obtain ⟨n, size⟩ : ∃ n, d.size = n + 1 := Nat.exists_eq_add_one.2 (Nat.zero_lt_of_lt has)
  have nodup : (c :: d.upward (n + 1) p).Nodup := by
    refine List.nodup_cons.2 ⟨fun mem => ?_, wf.nodup_upward _ _⟩
    exact wf.not_atOrAbove_parent h (atOrAbove_of_mem_upward mem)
  have short := length_le_size nodup fun x hx => by
    rcases List.mem_cons.1 hx with rfl | hx
    · exact has
    · exact wf.has_atOrAbove (wf.has_parent c p h) (atOrAbove_of_mem_upward hx)
  have enough : d.upward n p = d.upward (n + 1) p := by
    rw [← take_upward n 1, List.take_of_length_le]
    rw [List.length_cons, size] at short
    exact Nat.le_of_succ_le_succ short
  rw [ancestorsOrSelf, ancestorsOrSelf, size, ← enough, upward, h]

theorem length_ancestorsOrSelf_le (d : Document) (id : NodeId) :
    (d.ancestorsOrSelf id).length ≤ d.size := by
  suffices ∀ n, ∀ id, (d.upward n id).length ≤ n from this _ _
  intro n
  induction n with
  | zero => exact fun _ => Nat.le_refl 0
  | succ n ih =>
    intro id
    rw [upward, List.length_cons]
    cases d.parent? id with
    | none => exact Nat.succ_le_succ (Nat.zero_le n)
    | some p => exact Nat.succ_le_succ (ih p)

/-- A bound on the levels that are really below a node. -/
def room (d : Document) (id : NodeId) : ℕ := d.size - (d.ancestorsOrSelf id).length

theorem room_le (id : NodeId) : d.room id ≤ d.size := Nat.sub_le _ _

theorem WellFormed.room_lt (wf : d.WellFormed) {c p : NodeId} (h : d.parent? c = some p) :
    d.room c < d.room p := by
  have bound := d.length_ancestorsOrSelf_le c
  simp only [room, wf.ancestorsOrSelf_of_parent h, List.length_cons] at bound ⊢
  omega

/-! ## The recursion of trees -/

/-- The attributes and the children of a node. -/
def links (d : Document) (id : NodeId) : List NodeId := d.attributes id ++ d.children id

theorem WellFormed.mem_links (wf : d.WellFormed) {c p : NodeId} :
    c ∈ d.links p ↔ d.parent? c = some p := by
  rw [links, List.mem_append, wf.mem_attributes, wf.mem_children]
  by_cases kind : d.kind c = .attribute <;> simp [kind]

/-- No node is listed twice below a node. -/
theorem WellFormed.nodup_links (wf : d.WellFormed) (id : NodeId) : (d.links id).Nodup :=
  List.nodup_append'.2 ⟨wf.nodup_attributes id, wf.nodup_children id, fun _ ha hc =>
    wf.kind_of_mem_children hc (wf.kind_of_mem_attributes ha)⟩

/-- The tree below a node is its label with the trees below its attributes and its children. -/
theorem WellFormed.tree_eq (wf : d.WellFormed) (id : NodeId) : d.tree id =
    .node (d.label id) ((d.attributes id).map d.tree) ((d.children id).map d.tree) := by
  refine unfold_within d.links (fun _ => d.size) d.treeWithin
    (fun id g => .node (d.label id) ((d.attributes id).map g) ((d.children id).map g))
    (fun _ _ mem => wf.room_lt (wf.mem_links.1 mem)) d.room_le (fun id g none => ?_)
    (fun _ _ => rfl) (fun id g g' same => ?_) id
  · obtain ⟨attributes, children⟩ := List.append_eq_nil_iff.1 none
    rw [attributes, children]
    rfl
  · rw [List.map_congr_left fun c hc => same c (List.mem_append_left _ hc),
      List.map_congr_left fun c hc => same c (List.mem_append_right _ hc)]

/-- Documents with the same nodes below a node have the same tree there. -/
theorem tree_congr {e : Document} (wf : d.WellFormed) (wf' : e.WellFormed) {id : NodeId}
    (same : ∀ i, d.AtOrAbove i id → e.label i = d.label i ∧ e.attributes i = d.attributes i ∧
      e.children i = d.children i) : e.tree id = d.tree id := by
  induction hn : d.room id using Nat.strong_induction_on generalizing id with
  | h n ih =>
    obtain ⟨label, attributes, children⟩ := same id (.refl id)
    have below : ∀ c, d.parent? c = some id → e.tree c = d.tree c := fun c hc => by
      refine ih _ (hn ▸ wf.room_lt hc) (fun i hi => same i ?_) rfl
      exact Relation.ReflTransGen.tail hi hc
    rw [wf.tree_eq, wf'.tree_eq, label, attributes, children]
    congr 1
    · exact List.map_congr_left fun c hc => below c (wf.parent_of_mem_attributes hc)
    · exact List.map_congr_left fun c hc => below c (wf.parent_of_mem_children hc)

theorem has_of_below {i id : NodeId} (has : d.Has id) (h : d.AtOrAbove i id) : d.Has i := by
  rcases atOrAbove_iff.1 h with rfl | ⟨p, hp, -⟩
  · exact has
  · exact has_of_parent hp

theorem Extends.tree_eq {base : Document} (h : base.Extends d) {id : NodeId} (has : base.Has id) :
    d.tree id = base.tree id :=
  tree_congr h.origin h.wellFormed fun i hi => by
    have inside := has_of_below has hi
    exact ⟨h.label_eq inside, h.attributes_eq inside, h.children_eq inside⟩

/-! ## Trees on a node -/

/-- The trees below the attributes of a node. -/
def attributeTrees (d : Document) (id : NodeId) : List Tree := (d.attributes id).map d.tree

/-- The trees below the children of a node. -/
def childTrees (d : Document) (id : NodeId) : List Tree := (d.children id).map d.tree

theorem WellFormed.tree_eq_node (wf : d.WellFormed) (id : NodeId) :
    d.tree id = .node (d.label id) (d.attributeTrees id) (d.childTrees id) := wf.tree_eq id

theorem Extends.attributeTrees_eq {base : Document} (h : base.Extends d) {id : NodeId}
    (has : base.Has id) : d.attributeTrees id = base.attributeTrees id := by
  rw [attributeTrees, h.attributes_eq has]
  exact List.map_congr_left fun c hc =>
    h.tree_eq (has_of_parent (h.origin.parent_of_mem_attributes hc))

theorem Extends.childTrees_eq {base : Document} (h : base.Extends d) {id : NodeId}
    (has : base.Has id) : d.childTrees id = base.childTrees id := by
  rw [childTrees, h.children_eq has]
  exact List.map_congr_left fun c hc =>
    h.tree_eq (has_of_parent (h.origin.parent_of_mem_children hc))

end Document

end VirtualTree
