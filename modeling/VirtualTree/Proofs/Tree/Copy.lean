import Mathlib.Data.List.Basic
import Mathlib.Data.List.Pairwise
import VirtualTree.Tree.Basic

/-!
# The tree of a copy

A tree is `Copyable` when its lists hold what they are meant for: attributes below elements, and below
elements and documents anything but attributes, documents and document types; a document may have
document types among its children, which a copy of it leaves out.  The tree of the copy (`copied`) is
the tree without them, and of the attributes with one expanded name it has the last one only, as each
attribute that is set displaces those with its name.

A tree is `Faithful` if it is copyable, has different names for the attributes of each node and no
document types.  Such a tree is its own copy (`Faithful.copied_eq`), and every copy of a copyable tree is
faithful (`Copyable.faithful`).
-/

namespace VirtualTree

/-- It makes no difference whether entries that are related to a later one are left out before. -/
theorem pwFilter_filter_append {α : Type} {R : α → α → Prop} [DecidableRel R]
    (split : ∀ {x y z}, R x z → R x y ∨ R y z) (l m : List α) (a : α) :
    (l.filter (R · a) ++ a :: m).pwFilter R = (l ++ a :: m).pwFilter R := by
  induction l with
  | nil => rfl
  | cons x l ih =>
    rw [List.cons_append, List.filter_cons]
    by_cases apart : R x a
    · rw [if_pos (decide_eq_true apart), List.cons_append, List.pwFilter, List.pwFilter, List.foldr_cons,
        List.foldr_cons, ← List.pwFilter, ← List.pwFilter, ih]
    · have among : a ∈ l ++ a :: m := List.mem_append_right l List.mem_cons_self
      have gone : ¬ ∀ y ∈ (l ++ a :: m).pwFilter R, R x y := fun all =>
        apart ((List.forall_mem_pwFilter (R := R) split x _).1 all a among)
      rw [if_neg fun kept => apart (of_decide_eq_true kept), ih, List.pwFilter_cons_of_neg gone]

namespace Tree

/-! ## Names -/

/-- Two trees have names that denote different things, if both have names. -/
def Apart (t u : Tree) : Prop :=
  ∀ n ∈ t.label.name?, ∀ m ∈ u.label.name?, ¬ n.SameExpanded m

instance : DecidableRel Apart := fun t u => by unfold Apart; infer_instance

/-- Of two trees that are apart one is apart from any third. -/
theorem Apart.split {t u v : Tree} (h : t.Apart v) : t.Apart u ∨ u.Apart v := by
  by_contra both
  simp only [Apart, not_or, not_forall, not_not] at both
  obtain ⟨⟨n, hn, m, hm, same⟩, m', hm', k, hk, same'⟩ := both
  obtain rfl := Option.some.inj ((Option.mem_def.1 hm).symm.trans hm')
  exact h n hn k hk ⟨same.1.trans same'.1, same.2.trans same'.2⟩

/-- Nodes whose trees are apart from each other have different names. -/
theorem nodup_names {α : Type} {l : List α} {t : α → Tree} {name? : α → Option Name}
    (named : ∀ a ∈ l, (t a).label.name? = name? a) (h : (l.map t).Pairwise Apart) :
    (l.filterMap name?).Nodup := by
  rw [← List.filterMap_congr named, List.Nodup, List.pairwise_filterMap]
  refine (List.pairwise_map.1 h).imp fun apart n hn m hm eq => apart n hn m hm ?_
  rw [eq]
  exact ⟨rfl, rfl⟩

/-! ## Copies -/

/-- The trees that are copied, without the document types if they are to be skipped. -/
def taken (skipTypes : Bool) (ts : List Tree) : List Tree :=
  ts.filter fun t => !(skipTypes && t.kind = .documentType)

theorem taken_cons_of_skipped {skipTypes : Bool} {t : Tree} {ts : List Tree}
    (h : skipTypes && t.kind = .documentType) : taken skipTypes (t :: ts) = taken skipTypes ts := by
  rw [taken, List.filter_cons, h, taken]
  rfl

theorem taken_cons_of_not_skipped {skipTypes : Bool} {t : Tree} {ts : List Tree}
    (h : ¬ (skipTypes && t.kind = .documentType)) :
    taken skipTypes (t :: ts) = t :: taken skipTypes ts := by
  rw [taken, List.filter_cons, eq_false_of_ne_true h, taken]
  rfl

theorem taken_false (ts : List Tree) : taken false ts = ts := List.filter_eq_self.2 fun _ _ => rfl

theorem taken_eq_self {ts : List Tree} (visible : ∀ t ∈ ts, t.kind ≠ .documentType) (skipTypes : Bool) :
    taken skipTypes ts = ts :=
  List.filter_eq_self.2 fun t ht => by simp [visible t ht]

mutual

/-- The tree of a copy. -/
def copied : Tree → Tree
  | .node label attributes children =>
    .node label ((copies false attributes).pwFilter Apart) (copies (label.kind = .document) children)

/-- The trees of the copies. -/
def copies (skipTypes : Bool) : List Tree → List Tree
  | [] => []
  | t :: ts =>
    if skipTypes && t.kind = .documentType then copies skipTypes ts else t.copied :: copies skipTypes ts

end

theorem copies_eq (skipTypes : Bool) (ts : List Tree) :
    copies skipTypes ts = (taken skipTypes ts).map copied := by
  induction ts with
  | nil => rfl
  | cons t ts ih =>
    rw [copies, taken, List.filter_cons, ih]
    cases skipTypes && t.kind = .documentType <;> rfl

theorem copied_node (label : Label) (attributes children : List Tree) :
    (node label attributes children).copied = .node label ((attributes.map copied).pwFilter Apart)
      ((taken (label.kind = .document) children).map copied) := by
  rw [copied, copies_eq, copies_eq, taken_false]

theorem label_copied (t : Tree) : t.copied.label = t.label := by
  cases t
  rfl

theorem kind_copied (t : Tree) : t.copied.kind = t.kind := congrArg Label.kind t.label_copied

/-! ## What can be copied -/

/-- The tree can be copied. -/
inductive Copyable : Tree → Prop
  | node {label : Label} {attributes children : List Tree}
    (visible : label.kind ≠ .documentType)
    (isElement : attributes ≠ [] → label.kind = .element)
    (isParent : taken (label.kind = .document) children ≠ [] → label.kind.isParent)
    (isAttribute : ∀ t ∈ attributes, t.kind = .attribute)
    (isChild : ∀ t ∈ taken (label.kind = .document) children, t.kind ≠ .attribute ∧ t.kind ≠ .document)
    (below : ∀ t ∈ attributes ++ taken (label.kind = .document) children, Copyable t) :
    Copyable (.node label attributes children)

/-- The tree can be built as it is. -/
inductive Faithful : Tree → Prop
  | node {label : Label} {attributes children : List Tree}
    (visible : label.kind ≠ .documentType)
    (isElement : attributes ≠ [] → label.kind = .element)
    (isParent : children ≠ [] → label.kind.isParent)
    (isAttribute : ∀ t ∈ attributes, t.kind = .attribute)
    (isChild : ∀ t ∈ children, t.kind ≠ .attribute ∧ t.kind ≠ .document)
    (apart : attributes.Pairwise Apart)
    (below : ∀ t ∈ attributes ++ children, Faithful t) : Faithful (.node label attributes children)

theorem Faithful.visible {t : Tree} (h : t.Faithful) : t.kind ≠ .documentType := by
  cases h
  assumption

theorem Faithful.copyable {t : Tree} (h : t.Faithful) : t.Copyable := by
  induction h with
  | @node label attributes children visible isElement isParent isAttribute isChild _ below ih =>
    have all : taken (label.kind = .document) children = children :=
      taken_eq_self (fun t ht => (below t (List.mem_append_right _ ht)).visible) _
    rw [← all] at isParent isChild ih
    exact .node visible isElement isParent isAttribute isChild ih

/-- A tree that can be built as it is is its own copy. -/
theorem Faithful.copied_eq {t : Tree} (h : t.Faithful) : t.copied = t := by
  induction h with
  | @node label attributes children _ _ _ _ _ apart below ih =>
    rw [List.forall_mem_append] at ih
    rw [copied_node, taken_eq_self fun t ht => (below t (List.mem_append_right _ ht)).visible,
      List.map_congr_left ih.1, List.map_congr_left ih.2, List.map_id', List.map_id',
      List.pwFilter_eq_self.2 apart]

/-- A copy can be built as it is. -/
theorem Copyable.faithful {t : Tree} (h : t.Copyable) : t.copied.Faithful := by
  induction h with
  | @node label attributes children visible isElement isParent isAttribute isChild _ ih =>
    have kept : (attributes.map copied).pwFilter Apart ⊆ attributes.map copied := List.pwFilter_subset _
    rw [List.forall_mem_append] at ih
    rw [copied_node]
    refine .node visible (fun some => isElement fun none => some ?_) (fun some => isParent fun none =>
      some ?_) (fun t ht => ?_) (List.forall_mem_map.2 fun t ht => ?_) (List.pairwise_pwFilter _)
      (List.forall_mem_append.2 ⟨fun t ht => ?_, List.forall_mem_map.2 ih.2⟩)
    · rw [none]
      rfl
    · rw [none]
      rfl
    · obtain ⟨u, hu, rfl⟩ := List.mem_map.1 (kept ht)
      exact (kind_copied u).trans (isAttribute u hu)
    · rw [kind_copied]
      exact isChild t ht
    · obtain ⟨u, hu, rfl⟩ := List.mem_map.1 (kept ht)
      exact ih.1 u hu

end Tree

end VirtualTree
