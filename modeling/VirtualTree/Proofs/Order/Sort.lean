import Mathlib.Data.List.Pairwise
import VirtualTree.Proofs.Forest.Axes
import VirtualTree.Proofs.Order.Growing
import VirtualTree.Proofs.Order.Schedule

/-!
# Sorted sequences

Comparisons enter tops into the table, so a sort goes on with another table than it began with, and which
tops come first depends on the schedule.  But all that was told during the sort is told by the table at
its end, and by any table with the same tops in the same order (`Sorting.carryOut_eq`).  If a top had
not been entered, it could as well be put before all others or behind them, and the sort would be the
same in both cases; so all tops were entered (`Roots.settlesAll_of_pairwise`).  Hence by any schedule that
sorts, the result ascends strictly, and holds each pointer of the sequence once
(`sortAndDedupBy_sorted`); if the first table settles all pairs, nothing but the set of pointers matters.
-/

namespace VirtualTree

open Document

/-! ## Repeated entries -/

theorem mem_dropRepeated {l : List Pointer} {p : Pointer} : p ∈ dropRepeated l ↔ p ∈ l := by
  fun_induction dropRepeated l with
  | case1 b rest ih => rw [ih, List.mem_cons (l := b :: rest)]; simp
  | case2 a b rest ne ih => rw [List.mem_cons, ih, List.mem_cons (l := b :: rest)]
  | case3 short => rfl

/-- Where equal entries stand side by side, dropping the repeated ones leaves a strict order. -/
theorem pairwise_dropRepeated {r : Pointer → Pointer → Prop}
    (trans : ∀ {a b c}, r a b → r b c → r a c) {l : List Pointer}
    (h : l.Pairwise fun a b => a = b ∨ r a b) : (dropRepeated l).Pairwise r := by
  fun_induction dropRepeated l with
  | case1 b rest ih => exact ih h.of_cons
  | case2 a b rest ne ih =>
    obtain ⟨after, later⟩ := List.pairwise_cons.1 h
    have next : r a b := (after b List.mem_cons_self).resolve_left ne
    refine List.pairwise_cons.2 ⟨fun c hc => ?_, ih later⟩
    rcases List.mem_cons.1 (mem_dropRepeated.1 hc) with rfl | hc
    · exact next
    · rcases (List.pairwise_cons.1 later).1 c hc with rfl | further
      · exact next
      · exact trans next further
  | case3 short none =>
    match short, none with
    | [], _ => exact .nil
    | [a], _ => exact List.pairwise_singleton r a
    | a :: b :: rest, none => exact absurd rfl (none a b rest)

/-! ## The table at the end of a sort -/

namespace Roots

variable {f : Forest} {t : Roots} {l : List Pointer}

/-- A list that every table with the same order of tops finds sorted has no new top beside another one: it
could stand before the others or behind them. -/
theorem mem_tops_of_pairwise (wf : f.WellFormed) (reached : ∀ p ∈ l, f.Reached p)
    (inOrder : ∀ u, t.RanksAs u → l.Pairwise fun a b => f.inSequence u a b ≠ .gt) {p q : Pointer}
    (hp : p ∈ l) (hq : q ∈ l) (apart : f.topOf p ≠ f.topOf q) : f.topOf p ∈ t.tops := by
  by_contra fresh
  let first : Roots := ⟨f.topOf p :: (t.tops ++ [f.topOf q])⟩
  let last : Roots := ⟨t.tops ++ [f.topOf q, f.topOf p]⟩
  have settled {u : Roots} (memP : f.topOf p ∈ u.tops) (memQ : f.topOf q ∈ u.tops) :
      f.inSequence u p q = Ord.compare (u.tops.idxOf (f.topOf p)) (u.tops.idxOf (f.topOf q)) :=
    (Settles.inSequence_of_ne wf ⟨reached p hp, reached q hq, Or.inr ⟨memP, memQ⟩⟩ apart).1
  have before : f.inSequence first p q = .lt := by
    rw [settled (by simp [first]) (by simp [first]), List.idxOf_cons_self,
      List.idxOf_cons_ne _ apart]
    exact Nat.compare_eq_lt.2 (Nat.succ_pos _)
  have behind : f.inSequence last p q = .gt := by
    rw [settled (by simp [last]) (by simp [last])]
    refine Nat.compare_eq_gt.2 ?_
    simp only [last, List.idxOf_append, if_neg fresh, List.idxOf_cons_ne _ apart.symm,
      List.idxOf_cons_self]
    split_ifs with old
    · have := List.idxOf_lt_length_iff.2 old
      omega
    · omega
  have sameFirst : t.RanksAs first :=
    .restrict (List.prefix_append _ _) (.cons (by simp [fresh, apart]))
  have sameLast : t.RanksAs last := .of_grown (List.prefix_append _ _)
  obtain ⟨i, rfl⟩ := List.get_of_mem hp
  obtain ⟨j, rfl⟩ := List.get_of_mem hq
  rcases lt_trichotomy i j with lt | rfl | gt
  · exact (inOrder last sameLast).rel_get_of_lt lt behind
  · exact apart rfl
  · refine (inOrder first sameFirst).rel_get_of_lt gt ?_
    rw [Forest.inSequence_swap, before]
    rfl

/-- So it has all tops of the list, if there are two of them. -/
theorem settlesAll_of_pairwise (wf : f.WellFormed) (reached : ∀ p ∈ l, f.Reached p)
    (inOrder : ∀ u, t.RanksAs u → l.Pairwise fun a b => f.inSequence u a b ≠ .gt) :
    t.SettlesAll f l := by
  intro p hp q hq
  refine ⟨reached p hp, reached q hq, ?_⟩
  by_cases same : f.topOf p = f.topOf q
  · exact Or.inl same
  · exact Or.inr ⟨mem_tops_of_pairwise wf reached inOrder hp hq same,
      mem_tops_of_pairwise wf reached inOrder hq hp (Ne.symm same)⟩

end Roots

/-! ## The run of a schedule -/

namespace Sorting

variable {f : Forest} {t : Roots} {ps : List Pointer}

/-- What a comparison tells goes into the sort, and so does the table. -/
theorem compare_of_ok {t' : Roots} {a b : Pointer} {o : Ordering} (h : f.compare a b t = .ok o t') :
    compare f a b ⟨t, none⟩ = (o, ⟨t', none⟩) := by
  dsimp only [compare, get, getThe, MonadStateOf.get, bind, StateT.bind, StateT.get, pure]
  rw [h]
  rfl

theorem carryOut_compare (f : Forest) (i j : Fin ps.length) (next : Ordering → Schedule ps.length)
    (s : Sorting) : carryOut f ps (.compare i j next) s =
      carryOut f ps (next (compare f (ps.get i) (ps.get j) s).1)
        (compare f (ps.get i) (ps.get j) s).2 := rfl

/-- All comparisons that are made are told in the same way by the table at the end, and by any other with
the same order of tops. -/
theorem carryOut_eq (wf : f.WellFormed) (reached : ∀ p ∈ ps, f.Reached p)
    (s : Schedule ps.length) (t : Roots) :
    ∃ (l : List Pointer) (t' : Roots), carryOut f ps s ⟨t, none⟩ = (l, ⟨t', none⟩) ∧
      t.tops <+: t'.tops ∧ (t.SettlesAll f ps → t' = t) ∧
      ∀ u, t'.RanksAs u →
        (s.arranged fun i j => f.inSequence u (ps.get i) (ps.get j)).map ps.get = l := by
  induction s generalizing t with
  | arrange order => exact ⟨_, t, rfl, List.prefix_rfl, fun _ => rfl, fun _ _ => rfl⟩
  | compare i j next ih =>
    have hi := reached _ (ps.get_mem i)
    have hj := reached _ (ps.get_mem j)
    obtain ⟨t₁, grown₁, pair, order, same₁⟩ := Forest.compare_of_reached wf hi hj t
    obtain ⟨l, t', run, grown, same, told⟩ := ih (f.inSequence t₁ (ps.get i) (ps.get j)) t₁
    refine ⟨l, t', ?_, grown₁.trans grown, fun settled => ?_, fun u ranks => ?_⟩
    · rw [carryOut_compare, compare_of_ok order]
      exact run
    · have stays : t₁ = t := same₁ (settled _ (ps.get_mem i) _ (ps.get_mem j))
      rw [same (stays ▸ settled), stays]
    · rw [Schedule.arranged, pair.inSequence_of_ranksAs wf (.restrict grown ranks)]
      exact told u ranks

end Sorting

namespace Forest

variable {f : Forest} {t : Roots} {schedule : (n : ℕ) → Schedule n}

/-- Sorting settles all pairs and gives the pointers in the order that is told then; a table that
settles them already is left as it is. -/
theorem exists_sortAndDedupBy (wf : f.WellFormed) (sorts : IsStableSort schedule) {ps : List Pointer}
    (reached : ∀ p ∈ ps, f.Reached p) (t : Roots) :
    ∃ l t', f.sortAndDedupBy schedule ps t = .ok l t' ∧ t'.SettlesAll f l ∧
      l.Pairwise (fun a b => f.inSequence t' a b = .lt) ∧ (∀ p, p ∈ l ↔ p ∈ ps) ∧
      (t.SettlesAll f ps → t' = t) := by
  obtain ⟨l, t', run, -, same, told⟩ := Sorting.carryOut_eq wf reached (schedule ps.length) t
  have perm : l.Perm ps := by
    rw [← told t' (.of_grown List.prefix_rfl)]
    exact sorts.perm_map_get ps
  have inOrder : ∀ u, t'.RanksAs u → l.Pairwise fun a b => f.inSequence u a b ≠ .gt :=
    fun u ranks => by
      rw [← told u ranks]
      exact sorts.pairwise_map_get ps
  have settled : t'.SettlesAll f l :=
    Roots.settlesAll_of_pairwise wf (fun p hp => reached p (perm.subset hp)) inOrder
  have members : ∀ p, p ∈ dropRepeated l ↔ p ∈ ps := fun p => by
    rw [mem_dropRepeated, perm.mem_iff]
  refine ⟨dropRepeated l, t', ?_, ?_, ?_, members, same⟩
  · rw [sortAndDedupBy, run]
  · exact settled.of_subset fun p hp => mem_dropRepeated.1 hp
  · refine pairwise_dropRepeated Std.TransCmp.lt_trans ?_
    refine (inOrder t' (.of_grown List.prefix_rfl)).imp_of_mem fun {a b} ha hb notBehind => ?_
    cases order : f.inSequence t' a b with
    | lt => exact Or.inr rfl
    | eq => exact Or.inl (((settled a ha b hb).inSequence_eq_eq_iff wf).1 order)
    | gt => exact absurd order notBehind

/-- A table that settles all pairs makes the sorted sequence a matter of the set of pointers. -/
theorem sortAndDedupBy_eq_of_settlesAll (wf : f.WellFormed) (sorts : IsStableSort schedule)
    {l ps : List Pointer} (settled : t.SettlesAll f l)
    (inOrder : l.Pairwise fun a b => f.inSequence t a b = .lt) (members : ∀ p, p ∈ ps ↔ p ∈ l) :
    f.sortAndDedupBy schedule ps t = .ok l t := by
  have settled' : t.SettlesAll f ps := settled.of_subset fun p hp => (members p).1 hp
  obtain ⟨l', t', run, -, inOrder', members', same⟩ :=
    exists_sortAndDedupBy wf sorts (fun p hp => (settled' p hp p hp).left) t
  rw [same settled'] at run inOrder'
  have : Std.Antisymm fun a b => f.inSequence t a b = .lt := ⟨fun a b hab hba => by
    rw [inSequence_swap, hba] at hab
    cases hab⟩
  have : Std.Irrefl fun a b => f.inSequence t a b = .lt := ⟨fun a h => by
    rw [inSequence_self] at h
    cases h⟩
  rw [run, inOrder'.eq_of_mem_iff inOrder fun p => (members' p).trans (members p)]

/-- By any schedule that sorts, sorting always succeeds: what it gives ascends strictly with the table it
leaves, and holds exactly the pointers of the sequence, each once.  If the pointers stand in one tree, or
the table holds all their tops, then the table is left as it is, and every sequence of the same pointers
gives the same by every such schedule; so does the sorted sequence itself. -/
theorem sortAndDedupBy_sorted (wf : f.WellFormed) (sorts : IsStableSort schedule) (t : Roots)
    {ps : List Pointer} (navigated : ∀ p ∈ ps, f.Navigated p) :
    ∃ l t', f.sortAndDedupBy schedule ps t = .ok l t' ∧
      l.Pairwise (fun a b => f.compare a b t' = .ok .lt t') ∧ (∀ p, p ∈ l ↔ p ∈ ps) ∧ l.Nodup ∧
      ((∃ r, f.IsTop r ∧ ∀ p ∈ ps, p ∈ f.walk r) ∨
        (∀ p ∈ ps, ∀ r, f.IsTop r → p ∈ f.walk r → r ∈ t.tops) →
        t' = t ∧ ∀ other, IsStableSort other →
          (∀ ps', (∀ p, p ∈ ps' ↔ p ∈ ps) → f.sortAndDedupBy other ps' t = .ok l t) ∧
            f.sortAndDedupBy other l t = .ok l t) := by
  have reached : ∀ p ∈ ps, f.Reached p := fun p hp => (navigated p hp).reached wf.toNavigable
  obtain ⟨l, t', run, settled, inOrder, members, same⟩ := exists_sortAndDedupBy wf sorts reached t
  have nodup : l.Nodup := inOrder.imp fun {a b} lt eq => by
    rw [eq, inSequence_self] at lt
    cases lt
  refine ⟨l, t', run, inOrder.imp_of_mem fun {a b} ha hb lt => ?_, members, nodup, fun known => ?_⟩
  · rw [(settled a ha b hb).compare wf, lt]
  have settles : t.SettlesAll f ps := by
    rcases known with ⟨r, top, inside⟩ | known
    · intro a ha b hb
      refine ⟨reached a ha, reached b hb, Or.inl ?_⟩
      rw [topOf_of_mem_walk wf top (inside a ha), topOf_of_mem_walk wf top (inside b hb)]
    · exact fun a ha b hb =>
        Roots.Knows.settles wf ⟨reached a ha, known a ha⟩ ⟨reached b hb, known b hb⟩
  obtain rfl := same settles
  refine ⟨rfl, fun other sorts' => ⟨fun ps' set => ?_, ?_⟩⟩
  · exact sortAndDedupBy_eq_of_settlesAll wf sorts' settled inOrder fun p =>
      (set p).trans (members p).symm
  · exact sortAndDedupBy_eq_of_settlesAll wf sorts' settled inOrder fun _ => .rfl

/-- Pointers into two trees, some of them given twice: a virtual element, its attribute, an element that
is spliced in below them, and a child of that element in its own tree. -/
theorem sorted_across_trees :
    let d := holding (.node (.element (.unqualified "a")) [] [.node (.element (.unqualified "b")) [] []])
    let y := Arena.empty.alloc (.attribute (.unqualified "y") "1") (by decide)
    let s := y.2.alloc (.element (.unqualified "s") [.silhouette y.1] [.real ⟨0⟩]) (by decide)
    let f : Forest := ⟨d, s.2⟩
    let owner := Pointer.silhouette s.1
    let attr : Pointer := ⟨.silhouette y.1, [⟨s.1, .attribute (.unqualified "y")⟩]⟩
    let spliced : Pointer := ⟨.real ⟨0⟩, [⟨s.1, .child 0⟩]⟩
    let b := Pointer.real ⟨1⟩
    let ps := [b, spliced, attr, b, owner, attr]
    let t : Roots := ⟨[owner, .real ⟨0⟩]⟩
    f.WellFormed ∧ (∀ p ∈ ps, f.Navigated p) ∧ f.sortAndDedup ps t = .ok [owner, attr, spliced, b] t ∧
      f.compare attr spliced t = .ok .lt t ∧
      ∀ schedule, IsStableSort schedule → ∀ ps', (∀ p, p ∈ ps' ↔ p ∈ ps) →
        f.sortAndDedupBy schedule ps' t = .ok [owner, attr, spliced, b] t := by
  intro d y s f owner attr spliced b ps t
  have document : f.document.WellFormed :=
    wellFormed_holding (.node (.element (.unqualified "a")) [] [.node (.element (.unqualified "b")) [] []])
  have wf : f.WellFormed := .of_silhouettes document (by decide +kernel)
  have navigated : ∀ p ∈ ps, f.Navigated p := by
    have virtual : f.Navigated owner := .silhouette s.1
    have attributes : f.along .attribute owner = .ok (f.attributes owner) := rfl
    have children : f.along .child owner = .ok (f.children owner) := rfl
    have inSlot : f.Navigated attr := virtual.step attributes (by decide +kernel)
    have below : f.Navigated spliced := virtual.step children (by decide +kernel)
    have real : f.Navigated b := .real ⟨1⟩ (by decide +kernel)
    simp only [ps, List.forall_mem_cons]
    exact ⟨real, below, inSlot, real, virtual, inSlot, List.forall_mem_nil _⟩
  have known : ∀ p ∈ ps, ∀ r, f.IsTop r → p ∈ f.walk r → r ∈ t.tops := by
    have virtual : f.IsTop owner := .silhouette s.1
    have real : f.IsTop (.real ⟨0⟩) := .real ⟨0⟩ (by decide +kernel) (by decide +kernel)
    have inVirtual : ∀ p ∈ f.walk owner, t.Knows f p := fun p hp =>
      .of_mem_walk wf virtual List.mem_cons_self hp
    have inReal : ∀ p ∈ f.walk (.real ⟨0⟩), t.Knows f p := fun p hp =>
      .of_mem_walk wf real (by simp [t]) hp
    intro p hp
    have inside : p ∈ f.walk owner ∨ p ∈ f.walk (.real ⟨0⟩) := by
      revert p
      decide +kernel
    exact (inside.elim (inVirtual p) (inReal p)).top
  have computed : f.sortAndDedup ps t = .ok [owner, attr, spliced, b] t := rfl
  obtain ⟨l, t', run, inOrder, -, -, set⟩ :=
    sortAndDedupBy_sorted wf Schedule.isStableSort_insertion t navigated
  rw [← sortAndDedup, computed] at run
  cases run
  obtain ⟨-, others⟩ := set (Or.inr known)
  refine ⟨wf, navigated, computed, ?_, fun schedule sorts => (others schedule sorts).1⟩
  exact List.rel_of_pairwise_cons inOrder.of_cons (by simp)

end Forest

end VirtualTree
