import VirtualTree.Proofs.Order.Sort
import VirtualTree.Proofs.Order.Widened

/-!
# Orders that stay

Comparisons share a table of tops, and what one of them told, the later ones tell again, although the
table grows with every comparison of new trees and the arena grows with every new silhouette
(`order_never_flips`).  Two facts carry this.  Whatever is done with the table, also with pointers that
cannot be compared, tops are only entered at its end, and none twice (`Roots.Call.later`).  And a pointer
that was reached stands in the same tree as before in every later forest on the same document
(`Forest.Widens.topOf_eq`), where all that stood below the top still does.
-/

namespace VirtualTree

open Document

/-! ## The table grows -/

namespace Roots

/-- A later table: new tops are entered behind the others, and none that is there already. -/
structure Grew (t u : Roots) : Prop where
  kept : t.tops <+: u.tops
  nodup : t.tops.Nodup → u.tops.Nodup

namespace Grew

variable {t u v : Roots}

theorem refl (t : Roots) : t.Grew t := ⟨List.prefix_rfl, id⟩

theorem trans (h : t.Grew u) (h' : u.Grew v) : t.Grew v :=
  ⟨h.kept.trans h'.kept, h'.nodup ∘ h.nodup⟩

theorem enter (h : t.Grew u) (top : Pointer) : t.Grew (u.enter top) := by
  by_cases mem : top ∈ u.tops
  · rwa [enter_of_mem mem]
  · have entered : u.enter top = ⟨u.tops ++ [top]⟩ := by
      rw [Roots.enter, ordinal, List.idxOf?_eq_none_iff.2 mem]
    rw [entered]
    refine ⟨h.kept.trans (List.prefix_append _ _), fun nodup => ?_⟩
    rw [← List.concat_eq_append]
    exact (h.nodup nodup).concat mem

end Grew

end Roots

namespace Comparison

variable (t : Roots)

theorem keeps_ordinal (top : Pointer) : Keeps t.Grew (ordinal top) fun _ => True :=
  fun _ grew => ⟨grew.enter top, trivial⟩

theorem keeps_ofExcept {α : Type} (x : Except Error α) : Keeps t.Grew (ofExcept x) fun _ => True := by
  cases x with
  | ok a => exact keeps_pure trivial
  | error e => exact keeps_throw e

end Comparison

namespace Forest

open Comparison

variable (f : Forest) (t : Roots)

theorem keeps_comparePositions (a b : Pointer) :
    Keeps t.Grew (f.comparePositions a b) fun _ => True := by
  unfold comparePositions
  split_ifs
  · exact keeps_pure trivial
  refine (keeps_ofExcept t (f.path a)).bind fun pathA _ =>
    (keeps_ofExcept t (f.path b)).bind fun pathB _ => ?_
  split
  · split_ifs
    · exact keeps_ofExcept t _
    · exact (keeps_ordinal t _).bind fun i _ => (keeps_ordinal t _).bind fun j _ => keeps_pure trivial
  · exact keeps_throw _

theorem keeps_compare (a b : Pointer) : Keeps t.Grew (f.compare a b) fun _ => True := by
  unfold compare
  split_ifs
  · exact keeps_pure trivial
  dsimp only
  split
  · exact f.keeps_comparePositions t a b
  refine (keeps_ofExcept t (f.subject a)).bind fun subjectA _ =>
    (keeps_ofExcept t (f.subject b)).bind fun subjectB _ =>
      (f.keeps_comparePositions t subjectA subjectB).bind fun order _ => ?_
  split
  · split
    · exact keeps_pure trivial
    · exact keeps_pure trivial
    · split
      · exact f.keeps_comparePositions t a b
      · exact keeps_pure trivial
  · exact keeps_pure trivial

end Forest

namespace Sorting

variable (f : Forest) {t : Roots}

/-- The sort uses the table for comparisons only. -/
theorem compare_roots (a b : Pointer) (s : Sorting) :
    (compare f a b s).2.roots = endState (f.compare a b s.roots) := by
  dsimp only [compare, get, getThe, MonadStateOf.get, bind, StateT.bind, StateT.get, pure]
  cases f.compare a b s.roots <;> rfl

theorem grew_carryOut {ps : List Pointer} (schedule : Schedule ps.length) {s : Sorting}
    (h : t.Grew s.roots) : t.Grew (carryOut f ps schedule s).2.roots := by
  induction schedule generalizing s with
  | arrange order => exact h
  | compare i j next ih =>
    rw [carryOut_compare]
    refine ih _ ?_
    rw [compare_roots]
    exact (f.keeps_compare t _ _).endState h

end Sorting

theorem Forest.keeps_sortAndDedupBy (f : Forest) (t : Roots) (schedule : (n : ℕ) → Schedule n)
    (ps : List Pointer) : Keeps t.Grew (f.sortAndDedupBy schedule ps) fun _ => True := by
  intro u grew
  have sorted := Sorting.grew_carryOut f (schedule ps.length) (s := ⟨u, none⟩) grew
  rw [sortAndDedupBy]
  revert sorted
  cases Sorting.carryOut f ps (schedule ps.length) ⟨u, none⟩ with
  | mk l s =>
    obtain ⟨roots, fault?⟩ := s
    cases fault? with
    | none => exact fun sorted => ⟨sorted, trivial⟩
    | some e => exact id

/-! ## Calls that share a table -/

/-- What may happen between two states of a shared table: a call uses it, successfully or not, or
silhouettes are added to the arena. -/
inductive Roots.Call : Forest × Roots → Forest × Roots → Prop
  | compare (f : Forest) (t : Roots) (a b : Pointer) : Call (f, t) (f, endState (f.compare a b t))
  | comparePositions (f : Forest) (t : Roots) (a b : Pointer) :
    Call (f, t) (f, endState (f.comparePositions a b t))
  | ordinal (f : Forest) (t : Roots) (top : Pointer) :
    Call (f, t) (f, endState (Comparison.ordinal top t))
  | sortAndDedupBy (f : Forest) (t : Roots) (schedule : (n : ℕ) → Schedule n) (ps : List Pointer) :
    Call (f, t) (f, endState (f.sortAndDedupBy schedule ps t))
  | widen {f g : Forest} (t : Roots) (widens : f.Widens g) (wf : g.WellFormed) : Call (f, t) (g, t)

/-- Any number of calls, one after the other. -/
def Roots.Run : Forest × Roots → Forest × Roots → Prop := Relation.ReflTransGen Roots.Call

/-- A later state of a shared table. -/
structure Roots.Later (x y : Forest × Roots) : Prop where
  widens : x.1.Widens y.1
  wf : y.1.WellFormed
  grew : x.2.Grew y.2

namespace Roots

theorem Call.later {x y : Forest × Roots} (wf : x.1.WellFormed) (call : Call x y) : Later x y := by
  cases call with
  | compare f t a b => exact ⟨.refl f, wf, (f.keeps_compare t a b).endState (.refl t)⟩
  | comparePositions f t a b =>
    exact ⟨.refl f, wf, (f.keeps_comparePositions t a b).endState (.refl t)⟩
  | ordinal f t top => exact ⟨.refl f, wf, (Comparison.keeps_ordinal t top).endState (.refl t)⟩
  | sortAndDedupBy f t schedule ps =>
    exact ⟨.refl f, wf, (f.keeps_sortAndDedupBy t schedule ps).endState (.refl t)⟩
  | widen t widens wf' => exact ⟨widens, wf', .refl t⟩

theorem Run.later {x y : Forest × Roots} (wf : x.1.WellFormed) (run : Run x y) : Later x y := by
  induction run with
  | refl => exact ⟨.refl _, wf, .refl _⟩
  | tail _ call ih =>
    have next := call.later ih.wf
    exact ⟨ih.widens.trans next.widens, next.wf, ih.grew.trans next.grew⟩

namespace Later

variable {f g : Forest} {t u : Roots} {a b : Pointer}

theorem settles (h : Later (f, t) (g, u)) (wf : f.WellFormed) (s : t.Settles f a b) :
    u.Settles g a b :=
  (s.mono h.grew.kept).widen h.widens wf h.wf

/-- What a table told of two pointers it tells again, in both ways. -/
theorem compare (h : Later (f, t) (g, u)) (wf : f.WellFormed) (s : t.Settles f a b) :
    g.compare a b u = .ok (f.inSequence t a b) u ∧
      g.compare b a u = .ok (f.inSequence t a b).swap u := by
  have after := h.settles wf s
  have order : g.inSequence u a b = f.inSequence t a b := by
    rw [(s.mono h.grew.kept).inSequence_widen h.widens wf h.wf, s.inSequence_eq wf h.grew.kept]
  rw [after.compare h.wf, after.symm.compare h.wf, Forest.inSequence_swap b a, order]
  exact ⟨rfl, rfl⟩

theorem comparePositions (h : Later (f, t) (g, u)) (wf : f.WellFormed) (s : t.Settles f a b) :
    g.comparePositions a b u = .ok (f.placeOrder t a b) u ∧
      g.comparePositions b a u = .ok (f.placeOrder t a b).swap u := by
  have after := h.settles wf s
  have order : g.placeOrder u a b = f.placeOrder t a b := by
    rw [(s.mono h.grew.kept).placeOrder_widen h.widens wf h.wf, s.placeOrder_eq h.grew.kept]
  have swapped : g.placeOrder u b a = (g.placeOrder u a b).swap := Std.OrientedCmp.eq_swap
  rw [after.comparePositions h.wf, after.symm.comparePositions h.wf, swapped, order]
  exact ⟨rfl, rfl⟩

end Later

end Roots

namespace Forest

variable {f : Forest}

/-- A comparison could as well start with the table that it leaves. -/
theorem compare_settle (wf : f.WellFormed) {a b : Pointer} (ha : f.Reached a) (hb : f.Reached b)
    (t : Roots) : f.compare a b t = f.compare a b (t.settle f a b) ∧
      f.comparePositions a b t = f.comparePositions a b (t.settle f a b) := by
  have settled := Roots.settles_settle ha hb t
  rw [settled.compare wf, settled.comparePositions wf]
  exact ⟨compare_eq_of_reached wf ha hb t, comparePositions_of_reached wf ha hb t⟩

section Trees

variable {r r' a b : Pointer} (top : f.IsTop r) (top' : f.IsTop r') (ne : r ≠ r')

include top top' ne

/-- The table that settles two pointers of different trees is a matter of the tops. -/
theorem settle_of_mem_walks (wf : f.WellFormed) (t : Roots) (ha : a ∈ f.walk r)
    (hb : b ∈ f.walk r') : t.settle f a b = (t.enter r).enter r' := by
  rw [Roots.settle, topOf_of_mem_walk wf top ha, topOf_of_mem_walk wf top' hb, if_neg ne]

/-- A table that holds the tops of two trees tells all pointers of the one from all of the other in the
same way. -/
theorem compare_of_mem_walks (wf : f.WellFormed) {t : Roots} (mem : r ∈ t.tops) (mem' : r' ∈ t.tops)
    (ha : a ∈ f.walk r) (hb : b ∈ f.walk r') :
    f.compare a b t = .ok (Ord.compare (t.tops.idxOf r) (t.tops.idxOf r')) t ∧
      f.comparePositions a b t = .ok (Ord.compare (t.tops.idxOf r) (t.tops.idxOf r')) t := by
  have topA := topOf_of_mem_walk wf top ha
  have topB := topOf_of_mem_walk wf top' hb
  have s : t.Settles f a b := ⟨reached_of_mem_walk wf top.reached ha,
    reached_of_mem_walk wf top'.reached hb, Or.inr ⟨by rwa [topA], by rwa [topB]⟩⟩
  have apart : f.topOf a ≠ f.topOf b := by rwa [topA, topB]
  rw [s.compare wf, s.comparePositions wf, (s.inSequence_of_ne wf apart).1,
    (s.placeOrder_of_ne apart).1, topA, topB]
  exact ⟨rfl, rfl⟩

end Trees

/-- Whatever is done with a shared table, it only grows at its end, and no top is entered twice.  A
comparison of two pointers of one tree leaves it as it is.  Any two pointers can be compared, and after
any calls that follow, with the arena grown or not, they are compared in the same way, and in the reverse
way if they are exchanged.  All pointers of one tree are compared with all of another in one way, that of
the tops, at the first comparison and after any calls that follow it. -/
theorem order_never_flips (wf : f.WellFormed) (t : Roots) :
    (∀ g u, Roots.Run (f, t) (g, u) → t.tops <+: u.tops ∧ (t.tops.Nodup → u.tops.Nodup)) ∧
    (∀ a b, f.Navigated a → f.Navigated b →
      (∃ o t₁, f.compare a b t = .ok o t₁ ∧ (f.topOf a = f.topOf b → t₁ = t) ∧
        ∀ g u, Roots.Run (f, t₁) (g, u) →
          g.compare a b u = .ok o u ∧ g.compare b a u = .ok o.swap u) ∧
      ∃ o t₁, f.comparePositions a b t = .ok o t₁ ∧ (f.topOf a = f.topOf b → t₁ = t) ∧
        ∀ g u, Roots.Run (f, t₁) (g, u) →
          g.comparePositions a b u = .ok o u ∧ g.comparePositions b a u = .ok o.swap u) ∧
    ∀ r r', f.IsTop r → f.IsTop r' → r ≠ r' → ∃ o t₁, o ≠ .eq ∧
      (∀ a ∈ f.walk r, ∀ b ∈ f.walk r',
        f.compare a b t = .ok o t₁ ∧ f.comparePositions a b t = .ok o t₁) ∧
      ∀ g u, Roots.Run (f, t₁) (g, u) → ∀ a ∈ g.walk r, ∀ b ∈ g.walk r',
        g.compare a b u = .ok o u ∧ g.comparePositions a b u = .ok o u ∧
          g.compare b a u = .ok o.swap u ∧ g.comparePositions b a u = .ok o.swap u := by
  refine ⟨fun g u run => ?_, fun a b ha hb => ?_, fun r r' top top' ne => ?_⟩
  · have later := run.later wf
    exact ⟨later.grew.kept, later.grew.nodup⟩
  · have reachedA := ha.reached wf.toNavigable
    have reachedB := hb.reached wf.toNavigable
    have settled := Roots.settles_settle reachedA reachedB t
    have untouched (same : f.topOf a = f.topOf b) : t.settle f a b = t := if_pos same
    exact ⟨⟨_, _, compare_eq_of_reached wf reachedA reachedB t, untouched,
        fun g u run => (run.later wf).compare wf settled⟩,
      ⟨_, _, comparePositions_of_reached wf reachedA reachedB t, untouched,
        fun g u run => (run.later wf).comparePositions wf settled⟩⟩
  · -- the tops alone decide what is entered, so all pairs leave the same table
    obtain ⟨mem, -, -⟩ := t.ordinal_spec r
    obtain ⟨mem', grown, -⟩ := (t.enter r).ordinal_spec r'
    replace mem := grown.subset mem
    refine ⟨Ord.compare (((t.enter r).enter r').tops.idxOf r) (((t.enter r).enter r').tops.idxOf r'),
      (t.enter r).enter r', fun eq => ?_, fun a ha b hb => ?_, fun g u run a ha b hb => ?_⟩
    · exact ne ((List.idxOf_inj mem).1 (Nat.compare_eq_eq.1 eq))
    · have first := compare_settle wf (reached_of_mem_walk wf top.reached ha)
        (reached_of_mem_walk wf top'.reached hb) t
      rw [settle_of_mem_walks top top' ne wf t ha hb] at first
      obtain ⟨order, places⟩ := compare_of_mem_walks top top' ne wf mem mem' ha hb
      exact ⟨first.1.trans order, first.2.trans places⟩
    · have later := run.later wf
      have kept : ((t.enter r).enter r').tops <+: u.tops := later.grew.kept
      have isTop : g.IsTop r := later.widens.isTop top
      have isTop' : g.IsTop r' := later.widens.isTop top'
      rw [kept.idxOf_eq_of_mem mem, kept.idxOf_eq_of_mem mem', Nat.compare_swap]
      obtain ⟨order, places⟩ := compare_of_mem_walks isTop isTop' ne later.wf (kept.subset mem)
        (kept.subset mem') ha hb
      obtain ⟨order', places'⟩ := compare_of_mem_walks isTop' isTop ne.symm later.wf
        (kept.subset mem') (kept.subset mem) hb ha
      exact ⟨order, places, order', places'⟩

/-- An attribute of a virtual element and a node of the document are compared, then other nodes are sorted,
a silhouette is added and its top is entered; after that the two are still told apart as before, and as the
tops of their trees. -/
theorem order_kept_while_arena_grows :
    let d := holding (.node (.element (.unqualified "a")) [] [.node (.element (.unqualified "b")) [] []])
    let y := Arena.empty.alloc (.attribute (.unqualified "y") "1") (by decide)
    let s := y.2.alloc (.element (.unqualified "s") [.silhouette y.1] [.real ⟨0⟩]) (by decide)
    let x := s.2.alloc (.text "x") (by decide)
    let f : Forest := ⟨d, s.2⟩
    let g : Forest := ⟨d, x.2⟩
    let owner := Pointer.silhouette s.1
    let attr : Pointer := ⟨.silhouette y.1, [⟨s.1, .attribute (.unqualified "y")⟩]⟩
    let b := Pointer.real ⟨1⟩
    let t : Roots := ⟨[.real ⟨0⟩, owner]⟩
    let u : Roots := ⟨[.real ⟨0⟩, owner, .silhouette y.1, .silhouette x.1]⟩
    f.WellFormed ∧ g.WellFormed ∧ f.Navigated attr ∧ f.Navigated b ∧ Roots.Run (f, .empty) (g, u) ∧
      u.tops.Nodup ∧ f.compare b attr .empty = .ok .lt t ∧
      g.compare b attr u = .ok .lt u ∧ g.compare attr b u = .ok .gt u ∧
      g.comparePositions owner (.real ⟨0⟩) u = .ok .gt u := by
  intro d y s x f g owner attr b t u
  have document : d.WellFormed :=
    wellFormed_holding (.node (.element (.unqualified "a")) [] [.node (.element (.unqualified "b")) [] []])
  have wf : f.WellFormed := .of_silhouettes document (by decide +kernel)
  have wf' : g.WellFormed := .of_silhouettes document (by decide +kernel)
  have attributes : f.along .attribute owner = .ok (f.attributes owner) := rfl
  have inSlot : f.Navigated attr := .step (.silhouette s.1) attributes (by decide +kernel)
  have real : f.Navigated b := .real ⟨1⟩ (by decide +kernel)
  have first : f.compare b attr .empty = .ok .lt t := rfl
  have run : Roots.Run (f, t) (g, u) := by
    refine .tail (.tail (.tail .refl (.sortAndDedupBy f t .insertion [.silhouette y.1, b])) ?_)
      (.ordinal g ⟨[.real ⟨0⟩, owner, .silhouette y.1]⟩ (.silhouette x.1))
    exact .widen _ ⟨rfl, s.2.extends_alloc (.text "x") (by decide)⟩ wf'
  have start : Roots.Run (f, .empty) (f, t) := .single (.compare f .empty b attr)
  have top : f.IsTop owner := .silhouette s.1
  have top' : f.IsTop (.real ⟨0⟩) := .real ⟨0⟩ (by decide +kernel) (by decide +kernel)
  obtain ⟨grows, told, -⟩ := order_never_flips wf .empty
  obtain ⟨-, -, trees⟩ := order_never_flips wf t
  obtain ⟨⟨o, t₁, call, -, later⟩, -⟩ := told b attr real inSlot
  rw [first] at call
  cases call
  obtain ⟨again, swapped⟩ := later g u run
  refine ⟨wf, wf', inSlot, real, start.trans run, (grows g u (start.trans run)).2 .nil, first, again,
    swapped, ?_⟩
  obtain ⟨o, t₁, -, all, later⟩ := trees owner (.real ⟨0⟩) top top' (by decide)
  have tops : f.comparePositions owner (.real ⟨0⟩) t = .ok .gt t := rfl
  have both := (all owner (by decide +kernel) (.real ⟨0⟩) (by decide +kernel)).2
  rw [tops] at both
  cases both
  exact (later g u run owner (by decide +kernel) (.real ⟨0⟩) (by decide +kernel)).2.1

end Forest

end VirtualTree
