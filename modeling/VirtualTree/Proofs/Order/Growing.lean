import VirtualTree.Proofs.Order.Total

/-!
# Tables that grow

Comparisons enter tops into the table, and it grows at its end (`Roots.ordinal_spec`).  An order that a
table tells depends on the order of the tops alone (`Roots.Settles.inSequence_of_ranksAs`), so it never
changes.  Any two pointers can be compared: the table grows until it settles them, and tells their order
then (`Forest.compare_of_reached`).
-/

namespace VirtualTree

open Document

namespace Roots

variable {t t' : Roots} {top : Pointer}

/-- The table after a top was entered, if it was new. -/
def enter (t : Roots) (top : Pointer) : Roots := (t.ordinal top).2

/-- Entering a top gives its position in the table, which grows at its end. -/
theorem ordinal_spec (t : Roots) (top : Pointer) : top ∈ (t.enter top).tops ∧
    t.tops <+: (t.enter top).tops ∧ (t.ordinal top).1 = (t.enter top).tops.idxOf top := by
  by_cases mem : top ∈ t.tops
  · rw [enter, ordinal_of_mem mem]
    exact ⟨mem, List.prefix_rfl, rfl⟩
  · have entered : t.ordinal top = (t.size, ⟨t.tops ++ [top]⟩) := by
      rw [ordinal, List.idxOf?_eq_none_iff.2 mem]
    rw [enter, entered]
    refine ⟨by simp, List.prefix_append _ _, ?_⟩
    rw [List.idxOf_append_of_notMem mem, List.idxOf_cons_self]
    rfl

/-- The other table has the tops of the table in the same order. -/
def RanksAs (t u : Roots) : Prop :=
  ∀ r ∈ t.tops, ∀ r' ∈ t.tops,
    Ord.compare (u.tops.idxOf r) (u.tops.idxOf r') = Ord.compare (t.tops.idxOf r) (t.tops.idxOf r')

namespace RanksAs

variable {u : Roots}

theorem of_grown (grown : t.tops <+: t'.tops) : t.RanksAs t' := fun r mem r' mem' => by
  rw [grown.idxOf_eq_of_mem mem, grown.idxOf_eq_of_mem mem']

theorem restrict (grown : t.tops <+: t'.tops) (h : t'.RanksAs u) : t.RanksAs u :=
  fun r mem r' mem' => (h r (grown.subset mem) r' (grown.subset mem')).trans
    (of_grown grown r mem r' mem')

/-- A further top may also stand before the others. -/
theorem cons (fresh : top ∉ t.tops) : t.RanksAs ⟨top :: t.tops⟩ := by
  have further : ∀ r ∈ t.tops, (top :: t.tops).idxOf r = t.tops.idxOf r + 1 := fun r mem =>
    List.idxOf_cons_ne _ (ne_of_mem_of_not_mem mem fresh).symm
  intro r mem r' mem'
  rw [further r mem, further r' mem']
  simp only [Nat.compare_eq_ite_lt, Nat.add_lt_add_iff_right]

end RanksAs

namespace Settles

open Forest

variable {f : Forest} {a b c : Pointer}

theorem symm (h : t.Settles f a b) : t.Settles f b a :=
  ⟨h.right, h.left, h.tops.imp Eq.symm And.symm⟩

theorem mono (h : t.Settles f a b) (grown : t.tops <+: t'.tops) : t'.Settles f a b :=
  ⟨h.left, h.right, h.tops.imp_right fun ⟨memA, memB⟩ => ⟨grown.subset memA, grown.subset memB⟩⟩

/-- The order of places depends on the order of the tops alone, -/
theorem placeOrder_of_ranksAs (h : t.Settles f a b) (same : t.RanksAs t') :
    f.placeOrder t' a b = f.placeOrder t a b := by
  have trees : Ord.compare (f.treeRank t' a) (f.treeRank t' b) =
      Ord.compare (f.treeRank t a) (f.treeRank t b) := by
    simp only [treeRank]
    rcases h.tops with eq | ⟨memA, memB⟩
    · rw [eq, Nat.compare_eq_eq.2 rfl, Nat.compare_eq_eq.2 rfl]
    · exact same _ memA _ memB
  simp only [placeOrder, compareLex, compareOn, trees]

/-- and so does the order of sequences. -/
theorem inSequence_of_ranksAs (wf : f.WellFormed) (h : t.Settles f a b) (same : t.RanksAs t') :
    f.inSequence t' a b = f.inSequence t a b := by
  rw [inSequence_apply, inSequence_apply, h.placeOrder_of_ranksAs same,
    (h.subject wf).placeOrder_of_ranksAs same]

theorem placeOrder_eq (h : t.Settles f a b) (grown : t.tops <+: t'.tops) :
    f.placeOrder t' a b = f.placeOrder t a b :=
  h.placeOrder_of_ranksAs (.of_grown grown)

/-- An order that a table tells stays as it is while the table grows. -/
theorem inSequence_eq (wf : f.WellFormed) (h : t.Settles f a b) (grown : t.tops <+: t'.tops) :
    f.inSequence t' a b = f.inSequence t a b :=
  h.inSequence_of_ranksAs wf (.of_grown grown)

/-- Pointers of different trees are ordered as the tops are, -/
theorem placeOrder_of_ne (s : t.Settles f a b) (ne : f.topOf a ≠ f.topOf b) :
    f.placeOrder t a b = Ord.compare (t.tops.idxOf (f.topOf a)) (t.tops.idxOf (f.topOf b)) ∧
      f.placeOrder t a b ≠ .eq := by
  obtain ⟨mem, -⟩ := s.tops.resolve_left ne
  have apart : Ord.compare (t.tops.idxOf (f.topOf a)) (t.tops.idxOf (f.topOf b)) ≠ .eq := fun eq =>
    ne ((List.idxOf_inj mem).1 (Nat.compare_eq_eq.1 eq))
  rw [placeOrder, compareLex, compareOn, treeRank, treeRank, then_of_ne apart]
  exact ⟨rfl, apart⟩

/-- also in sequences. -/
theorem inSequence_of_ne (wf : f.WellFormed) (s : t.Settles f a b) (ne : f.topOf a ≠ f.topOf b) :
    f.inSequence t a b = Ord.compare (t.tops.idxOf (f.topOf a)) (t.tops.idxOf (f.topOf b)) ∧
      f.inSequence t a b ≠ .eq := by
  have topA := (s.left.topOf_subject wf).2
  have topB := (s.right.topOf_subject wf).2
  obtain ⟨order, apart⟩ := (s.subject wf).placeOrder_of_ne (by rwa [topA, topB])
  rw [inSequence_apply, then_of_ne apart]
  rw [topA, topB] at order
  exact ⟨order, apart⟩

end Settles

/-- The table that settles two pointers: if they stand in different trees, the tops of these are
entered, that of the first pointer before that of the second. -/
def settle (t : Roots) (f : Forest) (a b : Pointer) : Roots :=
  if f.topOf a = f.topOf b then t else (t.enter (f.topOf a)).enter (f.topOf b)

section

variable {f : Forest} {a b : Pointer}

theorem grown_settle (f : Forest) (a b : Pointer) (t : Roots) : t.tops <+: (t.settle f a b).tops := by
  unfold settle
  split_ifs
  · exact List.prefix_rfl
  · exact (t.ordinal_spec _).2.1.trans ((t.enter _).ordinal_spec _).2.1

theorem settles_settle (ha : f.Reached a) (hb : f.Reached b) (t : Roots) :
    (t.settle f a b).Settles f a b := by
  refine ⟨ha, hb, ?_⟩
  unfold settle
  split_ifs with same
  · exact Or.inl same
  · obtain ⟨memB, grown, -⟩ := (t.enter (f.topOf a)).ordinal_spec (f.topOf b)
    exact Or.inr ⟨grown.subset (t.ordinal_spec _).1, memB⟩

theorem enter_of_mem (h : top ∈ t.tops) : t.enter top = t := by rw [enter, ordinal_of_mem h]

/-- There is nothing to enter for pointers that are settled. -/
theorem Settles.settle_eq (h : t.Settles f a b) : t.settle f a b = t := by
  unfold settle
  split_ifs with same
  · rfl
  · obtain ⟨memA, memB⟩ := h.tops.resolve_left same
    rw [enter_of_mem memA, enter_of_mem memB]

/-- An attribute is settled with its owner. -/
theorem settle_subject (wf : f.WellFormed) (ha : f.Reached a) (hb : f.Reached b) :
    t.settle f (f.subjectOrSelf a) (f.subjectOrSelf b) = t.settle f a b := by
  rw [settle, (ha.topOf_subject wf).2, (hb.topOf_subject wf).2, settle]

end

/-- The table settles any two of the pointers. -/
def SettlesAll (t : Roots) (f : Forest) (l : List Pointer) : Prop :=
  ∀ a ∈ l, ∀ b ∈ l, t.Settles f a b

theorem SettlesAll.of_subset {f : Forest} {l l' : List Pointer} (h : t.SettlesAll f l) (sub : l' ⊆ l) :
    t.SettlesAll f l' := fun a ha b hb => h a (sub ha) b (sub hb)

end Roots

namespace Forest

variable {f : Forest} {t : Roots} {a b : Pointer}

/-- The table is looked at for the places of the subjects first. -/
theorem compare_congr {t' : Roots} (wf : f.WellFormed) (ha : f.Reached a) (hb : f.Reached b)
    (ne : a ≠ b) (same : f.comparePositions (f.subjectOrSelf a) (f.subjectOrSelf b) t =
      f.comparePositions (f.subjectOrSelf a) (f.subjectOrSelf b) t') :
    f.compare a b t = f.compare a b t' := by
  have subjectA := (ha.subject wf).1
  have subjectB := (hb.subject wf).1
  have further : ∀ next : Ordering → Comparison Ordering,
      (f.comparePositions (f.subjectOrSelf a) (f.subjectOrSelf b) >>= next) t =
        (f.comparePositions (f.subjectOrSelf a) (f.subjectOrSelf b) >>= next) t' := fun next => by
    rw [bind_apply, bind_apply, same]
  rw [compare, if_neg ne]
  by_cases attrA : f.kind a.node = .attribute <;> by_cases attrB : f.kind b.node = .attribute
  · rw [decide_eq_true attrA, decide_eq_true attrB, subjectA, subjectB]
    exact further _
  · rw [decide_eq_true attrA, decide_eq_false attrB, subjectA, subjectB]
    exact further _
  · rw [decide_eq_false attrA, decide_eq_true attrB, subjectA, subjectB]
    exact further _
  · rw [decide_eq_false attrA, decide_eq_false attrB]
    rw [subjectOrSelf_of_ne attrA, subjectOrSelf_of_ne attrB] at same
    exact same

/-- Any two places can be compared with the table that settles them, and that table is left. -/
theorem comparePositions_of_reached (wf : f.WellFormed) (ha : f.Reached a) (hb : f.Reached b)
    (t : Roots) :
    f.comparePositions a b t = .ok (f.placeOrder (t.settle f a b) a b) (t.settle f a b) := by
  have after := Roots.settles_settle ha hb t
  by_cases same : f.topOf a = f.topOf b
  · rw [Roots.settle, if_pos same] at after ⊢
    exact after.comparePositions wf
  rw [← after.comparePositions wf, Roots.settle, if_neg same]
  -- the tops are entered one after the other, and are found there the next time
  obtain ⟨topA, insideA⟩ := ha.isTop_topOf wf
  obtain ⟨topB, insideB⟩ := hb.isTop_topOf wf
  obtain ⟨memA, -, rankA⟩ := t.ordinal_spec (f.topOf a)
  obtain ⟨memB, grown, rankB⟩ := (t.enter (f.topOf a)).ordinal_spec (f.topOf b)
  rw [comparePositions_of_ne_top wf topA topB same insideA insideB,
    comparePositions_of_ne_top wf topA topB same insideA insideB,
    Roots.ordinal_of_mem (grown.subset memA), Roots.ordinal_of_mem memB, rankA,
    grown.idxOf_eq_of_mem memA, ← rankB]
  rfl

/-- So can any two pointers. -/
theorem compare_eq_of_reached (wf : f.WellFormed) (ha : f.Reached a) (hb : f.Reached b) (t : Roots) :
    f.compare a b t = .ok (f.inSequence (t.settle f a b) a b) (t.settle f a b) := by
  have after := Roots.settles_settle ha hb t
  rw [← after.compare wf]
  by_cases eq : a = b
  · rw [Roots.settle, if_pos (congrArg f.topOf eq)]
  refine compare_congr wf ha hb eq ?_
  rw [(after.subject wf).comparePositions wf,
    comparePositions_of_reached wf (ha.topOf_subject wf).1 (hb.topOf_subject wf).1,
    Roots.settle_subject wf ha hb]

/-- The table grows until it settles two pointers, and tells their order then. -/
theorem compare_of_reached (wf : f.WellFormed) (ha : f.Reached a) (hb : f.Reached b) (t : Roots) :
    ∃ t' : Roots, t.tops <+: t'.tops ∧ t'.Settles f a b ∧
      f.compare a b t = .ok (f.inSequence t' a b) t' ∧ (t.Settles f a b → t' = t) :=
  ⟨t.settle f a b, Roots.grown_settle f a b t, Roots.settles_settle ha hb t,
    compare_eq_of_reached wf ha hb t, Roots.Settles.settle_eq⟩

end Forest

end VirtualTree
