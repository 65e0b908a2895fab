import Mathlib.Data.List.Sort
import VirtualTree.Order.Sort

/-!
# Schedules that sort

A schedule knows of its entries only what comparisons tell, so what it has to do can be said without
regard to the entries: if the comparisons tell a total preorder, then all entries are arranged in that
order, and those that count as equal stay in the order they had (`IsStableSort`).  The insertion sort is
such a sort (`isStableSort_insertion`).
-/

namespace VirtualTree

namespace Schedule

variable {n : ℕ}

/-- What the schedule comes to if each comparison tells what `cmp` gives. -/
def arranged (cmp : Fin n → Fin n → Ordering) : Schedule n → List (Fin n)
  | .arrange order => order
  | .compare i j next => (next (cmp i j)).arranged cmp

/-- The one entry is the smaller one, or they are equal and it stood first. -/
def Before (cmp : Fin n → Fin n → Ordering) (i j : Fin n) : Prop :=
  cmp i j = .lt ∨ cmp i j = .eq ∧ i < j

end Schedule

open Schedule

/-- Any number of entries is sorted, and equal ones stay in their order, whatever total preorder it is
that the comparisons tell. -/
structure IsStableSort (schedule : (n : ℕ) → Schedule n) : Prop where
  perm (n : ℕ) (cmp : Fin n → Fin n → Ordering) [Std.TransCmp cmp] :
    ((schedule n).arranged cmp).Perm (List.finRange n)
  inOrder (n : ℕ) (cmp : Fin n → Fin n → Ordering) [Std.TransCmp cmp] :
    ((schedule n).arranged cmp).Pairwise (Before cmp)

/-! ## Entries with values -/

namespace IsStableSort

variable {schedule : (n : ℕ) → Schedule n} {α : Type} {cmp : α → α → Ordering} [Std.TransCmp cmp]

/-- The positions in a list are ordered by the values. -/
theorem transCmp_get (l : List α) :
    Std.TransCmp fun i j : Fin l.length => cmp (l.get i) (l.get j) where
  eq_swap := Std.OrientedCmp.eq_swap
  isLE_trans := Std.TransCmp.isLE_trans

theorem perm_map_get (sorts : IsStableSort schedule) (l : List α) :
    (((schedule l.length).arranged fun i j => cmp (l.get i) (l.get j)).map l.get).Perm l := by
  have ordered : Std.TransCmp fun i j => cmp (l.get i) (l.get j) := transCmp_get l
  have perm := (sorts.perm l.length fun i j => cmp (l.get i) (l.get j)).map l.get
  rwa [List.map_get_finRange] at perm

theorem pairwise_map_get (sorts : IsStableSort schedule) (l : List α) :
    (((schedule l.length).arranged fun i j => cmp (l.get i) (l.get j)).map l.get).Pairwise
      fun a b => cmp a b ≠ .gt := by
  have ordered : Std.TransCmp fun i j => cmp (l.get i) (l.get j) := transCmp_get l
  refine List.pairwise_map.2 ((sorts.inOrder l.length _).imp fun {i j} before => ?_)
  rcases before with (lt : cmp (l.get i) (l.get j) = .lt) | ⟨(eq : cmp (l.get i) (l.get j) = .eq), -⟩
  · rw [lt]
    decide
  · rw [eq]
    decide

end IsStableSort

/-! ## The insertion sort -/

namespace Schedule

variable {n : ℕ} {cmp : Fin n → Fin n → Ordering}

theorem before_iff {i j : Fin n} : Before cmp i j ↔ compareLex cmp Ord.compare i j = .lt := by
  rw [compareLex, Ordering.then_eq_lt, compare_lt_iff_lt, Before]

/-- An entry stops behind the first one that it is not smaller than. -/
theorem arranged_insert (i : Fin n) (next : List (Fin n) → Schedule n) (js : List (Fin n)) :
    (insert i next js).arranged cmp =
      (next (js.orderedInsert (fun i j => cmp i j ≠ .lt) i)).arranged cmp := by
  induction js generalizing next with
  | nil => rfl
  | cons j js ih =>
    rw [insert, arranged, List.orderedInsert_cons]
    split_ifs with smaller stops
    · exact absurd smaller stops
    · exact ih _
    · rfl

variable [Std.TransCmp cmp]

theorem Before.trans {i j k : Fin n} (hij : Before cmp i j) (hjk : Before cmp j k) :
    Before cmp i k :=
  before_iff.2 (Std.TransCmp.lt_trans (before_iff.1 hij) (before_iff.1 hjk))

/-- Of two entries the one that stood first comes before the other, if that is not smaller. -/
theorem before_of_not_smaller {i j : Fin n} (lt : j < i) (h : cmp i j ≠ .lt) : Before cmp j i := by
  have swapped : cmp j i = (cmp i j).swap := Std.OrientedCmp.eq_swap
  rw [Before, swapped]
  cases order : cmp i j with
  | lt => exact absurd order h
  | eq => exact Or.inr ⟨rfl, lt⟩
  | gt => exact Or.inl rfl

theorem pairwise_orderedInsert {i : Fin n} {js : List (Fin n)} (later : ∀ j ∈ js, j < i)
    (inOrder : js.Pairwise fun j k => Before cmp k j) :
    (js.orderedInsert (fun i j => cmp i j ≠ .lt) i).Pairwise fun j k => Before cmp k j := by
  induction js with
  | nil => exact List.pairwise_singleton _ i
  | cons j js ih =>
    obtain ⟨after, rest⟩ := List.pairwise_cons.1 inOrder
    obtain ⟨first, others⟩ := List.forall_mem_cons.1 later
    rw [List.orderedInsert_cons]
    split_ifs with stops
    · have before := before_of_not_smaller first stops
      refine List.pairwise_cons.2 ⟨fun k hk => ?_, inOrder⟩
      rcases List.mem_cons.1 hk with rfl | hk
      · exact before
      · exact (after k hk).trans before
    · refine List.pairwise_cons.2 ⟨fun k hk => ?_, ih others rest⟩
      rcases (List.mem_orderedInsert _).1 hk with rfl | hk
      · exact Or.inl (not_not.1 stops)
      · exact after k hk

theorem arranged_insertAll {sorted is : List (Fin n)}
    (inOrder : sorted.Pairwise fun j k => Before cmp k j) (ascends : is.Pairwise (· < ·))
    (later : ∀ i ∈ is, ∀ j ∈ sorted, j < i) :
    ((insertAll sorted is).arranged cmp).Perm (sorted ++ is) ∧
      ((insertAll sorted is).arranged cmp).Pairwise (Before cmp) := by
  induction is generalizing sorted with
  | nil =>
    rw [insertAll, arranged, List.append_nil]
    exact ⟨sorted.reverse_perm, List.pairwise_reverse.2 inOrder⟩
  | cons i is ih =>
    obtain ⟨above, ascends⟩ := List.pairwise_cons.1 ascends
    obtain ⟨first, others⟩ := List.forall_mem_cons.1 later
    rw [insertAll, arranged_insert]
    have perm := sorted.perm_orderedInsert (fun i j => cmp i j ≠ .lt) i
    obtain ⟨all, arranged⟩ := ih (pairwise_orderedInsert first inOrder) ascends fun k hk j hj => by
      rcases List.mem_cons.1 (perm.subset hj) with rfl | hj
      · exact above k hk
      · exact others k hk j hj
    exact ⟨all.trans ((perm.append_right is).trans List.perm_middle.symm), arranged⟩

theorem isStableSort_insertion : IsStableSort insertion where
  perm n _ _ := (arranged_insertAll .nil (List.pairwise_lt_finRange n) nofun).1
  inOrder n _ _ := (arranged_insertAll .nil (List.pairwise_lt_finRange n) nofun).2

end Schedule

end VirtualTree
