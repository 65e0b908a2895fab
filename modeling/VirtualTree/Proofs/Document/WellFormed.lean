import Mathlib.Data.List.Nodup
import Mathlib.Data.List.Perm.Subperm
import Mathlib.Logic.Relation
import Mathlib.Order.WellFounded
import VirtualTree.Document.Edit

/-!
# Forests of nodes

A document is well formed when its links describe a forest: the lists of a node hold exactly the
nodes that point at it as their parent, each once, in the child list or in the attribute list by its
kind; only nodes of the right kinds have lists; and following parents ends.  This file gives that
invariant (`WellFormed`), the nodes at or above a node (`AtOrAbove`), and the reason why looking at as
many nodes as the document has is far enough to find them all (`mem_ancestorsOrSelf`).
-/

namespace VirtualTree

namespace Document

/-- The links of a document describe a forest. -/
structure WellFormed (d : Document) : Prop where
  /-- The children of a node are the nodes with that parent, attributes apart. -/
  mem_children : ∀ c p, c ∈ d.children p ↔ d.parent? c = some p ∧ d.kind c ≠ .attribute
  /-- The attributes of a node are the attributes with that parent. -/
  mem_attributes : ∀ a p, a ∈ d.attributes p ↔ d.parent? a = some p ∧ d.kind a = .attribute
  /-- No node is a child twice. -/
  nodup_children : ∀ p, (d.children p).Nodup
  /-- No node is an attribute twice. -/
  nodup_attributes : ∀ p, (d.attributes p).Nodup
  /-- Only elements and documents have children. -/
  isParent : ∀ c p, d.parent? c = some p → d.kind c ≠ .attribute → (d.kind p).isParent
  /-- Only elements have attributes. -/
  isElement : ∀ a p, d.parent? a = some p → d.kind a = .attribute → d.kind p = .element
  /-- A document has no parent. -/
  parent_of_document : ∀ c, d.kind c = .document → d.parent? c = none
  /-- A parent is a node of the document. -/
  has_parent : ∀ c p, d.parent? c = some p → d.Has p
  /-- Following parents ends. -/
  acyclic : WellFounded fun p c => d.parent? c = some p

variable {d : Document}

/-! ## Nodes that the document does not have -/

theorem record_of_not_has {id : NodeId} (h : ¬ d.Has id) : d.record id = default := by
  simp only [Has, size] at h
  simp [record, Array.getD_eq_getD_getElem?, h]

theorem has_of_parent {c p : NodeId} (h : d.parent? c = some p) : d.Has c := by
  by_contra hc
  rw [parent?, record_of_not_has hc] at h
  cases h

/-- Fewer different nodes than the document has stand in any list of its nodes. -/
theorem length_le_size {l : List NodeId} (nodup : l.Nodup) (has : ∀ x ∈ l, d.Has x) :
    l.length ≤ d.size := by
  have sub : l.map NodeId.index ⊆ List.range d.size := by
    intro i hi
    obtain ⟨x, hx, rfl⟩ := List.mem_map.1 hi
    exact List.mem_range.2 (has x hx)
  have inj : Function.Injective NodeId.index := fun x y h => by
    cases x
    cases y
    exact congrArg NodeId.mk h
  have := ((List.Nodup.map inj nodup).subperm sub).length_le
  simpa using this

theorem isVisible_of_isChild {id : NodeId} (h : (d.kind id).isChild) : d.isVisible id :=
  decide_eq_true (Kind.isChild_iff.1 h).2.2

/-! ## Siblings -/

theorem mem_of_entryAfter {x y : NodeId} {l : List NodeId} (h : entryAfter x l = some y) : y ∈ l := by
  fun_induction entryAfter x l with
  | case1 b rest => simp_all
  | case2 a b rest ne ih => exact List.mem_cons_of_mem a (ih h)
  | case3 => cases h

theorem mem_of_entryBefore {x y : NodeId} {l : List NodeId} (h : entryBefore x l = some y) : y ∈ l := by
  fun_induction entryBefore x l with
  | case1 a rest => simp_all
  | case2 a b rest ne ih => exact List.mem_cons_of_mem a (ih h)
  | case3 => cases h

/-! ## The nodes above a node -/

/-- `a` is reached from `id` by going up any number of times. -/
def AtOrAbove (d : Document) (id a : NodeId) : Prop :=
  Relation.ReflTransGen (fun c p => d.parent? c = some p) id a

theorem AtOrAbove.refl (id : NodeId) : d.AtOrAbove id id := Relation.ReflTransGen.refl

theorem AtOrAbove.head {id p a : NodeId} (h : d.parent? id = some p) (above : d.AtOrAbove p a) :
    d.AtOrAbove id a :=
  Relation.ReflTransGen.head h above

/-- A node is reached from itself, and from its parent whatever else. -/
theorem atOrAbove_iff {id a : NodeId} :
    d.AtOrAbove id a ↔ a = id ∨ ∃ p, d.parent? id = some p ∧ d.AtOrAbove p a := by
  constructor
  · intro h
    rcases Relation.ReflTransGen.cases_head h with rfl | ⟨p, hp, above⟩
    · exact Or.inl rfl
    · exact Or.inr ⟨p, hp, above⟩
  · rintro (rfl | ⟨p, hp, above⟩)
    · exact AtOrAbove.refl _
    · exact AtOrAbove.head hp above

/-- Of two nodes at or above a third, one is at or above the other. -/
theorem atOrAbove_total {i m n : NodeId} (hm : d.AtOrAbove i m) (hn : d.AtOrAbove i n) :
    d.AtOrAbove m n ∨ d.AtOrAbove n m :=
  Relation.ReflTransGen.total_of_right_unique
    (fun _ _ _ hb hc => Option.some.inj (hb.symm.trans hc)) hm hn

theorem atOrAbove_of_mem_upward {n : ℕ} {id a : NodeId} (h : a ∈ d.upward n id) :
    d.AtOrAbove id a := by
  induction n generalizing id with
  | zero => cases h
  | succ n ih =>
    rw [atOrAbove_iff]
    rcases List.mem_cons.1 h with rfl | h
    · exact Or.inl rfl
    · cases hp : d.parent? id with
      | none =>
        rw [hp] at h
        cases h
      | some p =>
        rw [hp] at h
        exact Or.inr ⟨p, rfl, ih h⟩

theorem exists_mem_upward {id a : NodeId} (h : d.AtOrAbove id a) : ∃ n, a ∈ d.upward n id := by
  induction h using Relation.ReflTransGen.head_induction_on with
  | refl => exact ⟨1, List.mem_cons_self⟩
  | head hp _ ih =>
    obtain ⟨n, hn⟩ := ih
    refine ⟨n + 1, List.mem_cons_of_mem _ ?_⟩
    rw [hp]
    exact hn

/-- Looking less far finds the first of the nodes found by looking farther. -/
theorem take_upward (n m : ℕ) (id : NodeId) : (d.upward (n + m) id).take n = d.upward n id := by
  induction n generalizing id with
  | zero => rfl
  | succ n ih =>
    rw [Nat.succ_add]
    simp only [upward, List.take_succ_cons]
    cases d.parent? id with
    | none => simp
    | some p => rw [ih]

namespace WellFormed

variable (wf : d.WellFormed)

include wf

/-- No node stands above its parent or at it. -/
theorem not_atOrAbove_parent {c p : NodeId} (h : d.parent? c = some p) : ¬ d.AtOrAbove p c := by
  intro above
  have cycle : Relation.TransGen (fun p c => d.parent? c = some p) c c :=
    Relation.transGen_swap.1 (Relation.TransGen.head' h above)
  exact (wf.acyclic.transGen).irrefl.irrefl c cycle

theorem nodup_upward (n : ℕ) (id : NodeId) : (d.upward n id).Nodup := by
  induction n generalizing id with
  | zero => exact List.nodup_nil
  | succ n ih =>
    rw [upward]
    cases hp : d.parent? id with
    | none => simp
    | some p =>
      refine List.nodup_cons.2 ⟨fun h => ?_, ih p⟩
      exact wf.not_atOrAbove_parent hp (atOrAbove_of_mem_upward h)

theorem has_atOrAbove {id a : NodeId} (has : d.Has id) (h : d.AtOrAbove id a) : d.Has a := by
  induction h with
  | refl => exact has
  | tail _ hp _ => exact wf.has_parent _ _ hp

/-- The nodes at or above a node are all found. -/
theorem mem_ancestorsOrSelf {id a : NodeId} (has : d.Has id) :
    a ∈ d.ancestorsOrSelf id ↔ d.AtOrAbove id a := by
  refine ⟨atOrAbove_of_mem_upward, fun h => ?_⟩
  obtain ⟨n, hn⟩ := exists_mem_upward h
  have far : a ∈ d.upward (d.size + n) id := by
    rw [← take_upward n d.size, Nat.add_comm n] at hn
    exact List.mem_of_mem_take hn
  have short : (d.upward (d.size + n) id).length ≤ d.size :=
    length_le_size (wf.nodup_upward _ _) fun x hx =>
      wf.has_atOrAbove has (atOrAbove_of_mem_upward hx)
  rw [ancestorsOrSelf, ← take_upward d.size n, List.take_of_length_le short]
  exact far

/-! ## Reading the links -/

theorem parent_of_mem_children {c p : NodeId} (h : c ∈ d.children p) : d.parent? c = some p :=
  ((wf.mem_children c p).1 h).1

theorem kind_of_mem_children {c p : NodeId} (h : c ∈ d.children p) : d.kind c ≠ .attribute :=
  ((wf.mem_children c p).1 h).2

theorem parent_of_mem_attributes {a p : NodeId} (h : a ∈ d.attributes p) : d.parent? a = some p :=
  ((wf.mem_attributes a p).1 h).1

theorem kind_of_mem_attributes {a p : NodeId} (h : a ∈ d.attributes p) : d.kind a = .attribute :=
  ((wf.mem_attributes a p).1 h).2

/-- A child that navigation shows is open to updates. -/
theorem isChild_of_mem_children {c p : NodeId} (h : c ∈ d.children p) (visible : d.isVisible c) :
    (d.kind c).isChild := by
  have notDocument : d.kind c ≠ .document := fun e => by
    have := wf.parent_of_document c e
    rw [wf.parent_of_mem_children h] at this
    cases this
  exact Kind.isChild_iff.2 ⟨wf.kind_of_mem_children h, notDocument, of_decide_eq_true visible⟩

theorem not_mem_children_of_parent_none {c : NodeId} (h : d.parent? c = none) (p : NodeId) :
    c ∉ d.children p := by
  intro hc
  rw [wf.parent_of_mem_children hc] at h
  cases h

theorem not_mem_attributes_of_parent_none {a : NodeId} (h : d.parent? a = none) (p : NodeId) :
    a ∉ d.attributes p := by
  intro ha
  rw [wf.parent_of_mem_attributes ha] at h
  cases h

/-- Document types have nothing below them. -/
theorem isVisible_parent {c p : NodeId} (h : d.parent? c = some p) : d.isVisible p := by
  refine decide_eq_true fun kind => ?_
  by_cases attr : d.kind c = .attribute
  · rw [wf.isElement c p h attr] at kind
    cases kind
  · have := wf.isParent c p h attr
    rw [kind] at this
    cases this

end WellFormed

theorem wellFormed_empty : empty.WellFormed := by
  have record_eq : ∀ id, empty.record id = default := fun id =>
    record_of_not_has (Nat.not_lt_zero _)
  have no_parent : ∀ c, empty.parent? c = none := fun c => by rw [parent?, record_eq]; rfl
  have no_children : ∀ p, empty.children p = [] := fun p => by rw [children, record_eq]; rfl
  have no_attributes : ∀ p, empty.attributes p = [] := fun p => by rw [attributes, record_eq]; rfl
  constructor <;> simp [no_parent, no_children, no_attributes]
  exact ⟨fun c => ⟨c, fun p h => absurd h (by simp)⟩⟩

end Document

end VirtualTree
