import VirtualTree.Proofs.Document.Extends
import VirtualTree.Proofs.Order.Walk

/-!
# The order of places

Places are compared by the paths that lead to them: at the last node the paths have in common, by the
entries at which they part.  Within one tree this is the order of its walk, and between two trees the
order of their tops in the table (`comparePositions_preorder`).
-/

namespace VirtualTree

open Document

/-! ## Places in concatenations -/

theorem compare_add_right (i j k : ℕ) : compare (i + k) (j + k) = compare i j := by
  simp only [Nat.compare_eq_ite_lt, Nat.add_lt_add_iff_right]

section

variable {α β : Type} [DecidableEq α] [DecidableEq β] {g : α → List β} {l : List α} {x y : α} {a b : β}

/-- In a concatenation of blocks, entries of the same block are ordered as they are in the block. -/
theorem compare_idxOf_flatMap (hx : x ∈ l) (ha : a ∈ g x) (hb : b ∈ g x)
    (only_a : ∀ z ∈ l, a ∈ g z → z = x) (only_b : ∀ z ∈ l, b ∈ g z → z = x) :
    compare ((l.flatMap g).idxOf a) ((l.flatMap g).idxOf b) =
      compare ((g x).idxOf a) ((g x).idxOf b) := by
  induction l with
  | nil => cases hx
  | cons z zs ih =>
    rw [List.flatMap_cons, List.idxOf_append, List.idxOf_append]
    by_cases eq : z = x
    · subst eq
      rw [if_pos ha, if_pos hb]
    · have later : x ∈ zs := (List.mem_cons.1 hx).resolve_left (Ne.symm eq)
      rw [if_neg fun h => eq (only_a z List.mem_cons_self h),
        if_neg fun h => eq (only_b z List.mem_cons_self h), compare_add_right, ih later]
      · exact fun z hz => only_a z (List.mem_cons_of_mem _ hz)
      · exact fun z hz => only_b z (List.mem_cons_of_mem _ hz)

/-- In a concatenation of blocks, entries of two blocks are ordered as the blocks are: by the one that
comes first. -/
theorem find?_of_flatMap (hx : x ∈ l) (hy : y ∈ l) (ne : x ≠ y) (ha : a ∈ g x) (hb : b ∈ g y)
    (only_a : ∀ z ∈ l, a ∈ g z → z = x) (only_b : ∀ z ∈ l, b ∈ g z → z = y) :
    ∃ s, l.find? (fun s => s = x ∨ s = y) = some s ∧
      compare ((l.flatMap g).idxOf a) ((l.flatMap g).idxOf b) = if s = x then .lt else .gt := by
  induction l with
  | nil => cases hx
  | cons z zs ih =>
    rw [List.flatMap_cons, List.idxOf_append, List.idxOf_append, List.find?_cons]
    by_cases eqx : z = x
    · subst eqx
      have inside := List.idxOf_lt_length_of_mem ha
      rw [if_pos ha, if_neg fun h => ne (only_b z List.mem_cons_self h)]
      exact ⟨z, by simp, by rw [if_pos rfl, Nat.compare_eq_lt]; omega⟩
    · by_cases eqy : z = y
      · subst eqy
        have inside := List.idxOf_lt_length_of_mem hb
        rw [if_neg fun h => eqx (only_a z List.mem_cons_self h), if_pos hb]
        exact ⟨z, by simp, by rw [if_neg eqx, Nat.compare_eq_gt]; omega⟩
      · rw [if_neg fun h => eqx (only_a z List.mem_cons_self h),
          if_neg fun h => eqy (only_b z List.mem_cons_self h), compare_add_right]
        simp only [eqx, eqy, or_self, decide_false]
        refine ih ((List.mem_cons.1 hx).resolve_left (Ne.symm eqx))
          ((List.mem_cons.1 hy).resolve_left (Ne.symm eqy)) ?_ ?_
        · exact fun z hz => only_a z (List.mem_cons_of_mem _ hz)
        · exact fun z hz => only_b z (List.mem_cons_of_mem _ hz)

end

namespace Forest

variable {f : Forest}

/-! ## Within one tree -/

/-- A top stands first in its walk. -/
theorem idxOf_walk_self (wf : f.WellFormed) (r : Pointer) : (f.walk r).idxOf r = 0 := by
  rw [walk_cons wf, List.idxOf_cons_self]

/-- What stands below a node stands later in the walk, behind the walks of earlier entries. -/
theorem idxOf_walk_of_mem_entries (wf : f.WellFormed) {r x a : Pointer} (hr : f.Reached r)
    (hx : x ∈ f.entries r) (ha : a ∈ f.walk x) :
    (f.walk r).idxOf a = ((f.entries r).flatMap f.walk).idxOf a + 1 := by
  have ne : r ≠ a := fun eq => not_mem_walk_of_mem_entries wf hr hx (eq ▸ ha)
  rw [walk_cons wf, List.idxOf_cons_ne _ ne]

/-- The order that two ways down tell is the order of the walk. -/
theorem comparePaths_eq (wf : f.WellFormed) {r a b : Pointer} {as bs : List Pointer}
    (hr : f.Reached r) (ha : f.Descends r as a) (hb : f.Descends r bs b) :
    f.comparePaths r as bs = .ok (Ord.compare ((f.walk r).idxOf a) ((f.walk r).idxOf b)) := by
  induction ha generalizing bs with
  | here r =>
    cases hb with
    | here => rw [Nat.compare_eq_eq.2 rfl]; rfl
    | step mem rest =>
      have below := idxOf_walk_of_mem_entries wf hr mem ((mem_walk_iff wf).2 ⟨_, rest⟩)
      rw [idxOf_walk_self wf, below, Nat.compare_eq_lt.2 (Nat.succ_pos _)]
      rfl
  | @step r x a as memX restA ih =>
    have ax := (mem_walk_iff wf).2 ⟨_, restA⟩
    have only_a : ∀ z ∈ f.entries r, a ∈ f.walk z → z = x := fun z hz az =>
      entry_unique wf hr hz memX az ax
    rw [idxOf_walk_of_mem_entries wf hr memX ax]
    cases hb with
    | here =>
      rw [idxOf_walk_self wf, Nat.compare_eq_gt.2 (Nat.succ_pos _)]
      rfl
    | @step _ y _ bs memY restB =>
      have byy := (mem_walk_iff wf).2 ⟨_, restB⟩
      have only_b : ∀ z ∈ f.entries r, b ∈ f.walk z → z = y := fun z hz bz =>
        entry_unique wf hr hz memY bz byy
      rw [idxOf_walk_of_mem_entries wf hr memY byy, compare_add_right, comparePaths]
      split_ifs with eq
      · subst eq
        rw [ih (.entry hr memX) restB, compare_idxOf_flatMap memX ax byy only_a only_b]
      · obtain ⟨s, found, order⟩ := find?_of_flatMap memX memY eq ax byy only_a only_b
        rw [order, compareSiblings]
        simp only [entries] at found
        rw [found]

/-- Nodes on the way to a node stand before it. -/
theorem comparePaths_append (r p : Pointer) (as ps : List Pointer) :
    f.comparePaths r as (as ++ p :: ps) = .ok .lt := by
  induction as generalizing r with
  | nil => rfl
  | cons a as ih => exact (if_pos rfl).trans (ih a)

/-- Two places of one tree are compared without the table. -/
theorem comparePositions_of_mem_walk (wf : f.WellFormed) {r a b : Pointer} (top : f.IsTop r)
    (ha : a ∈ f.walk r) (hb : b ∈ f.walk r) (t : Roots) : f.comparePositions a b t =
      .ok (Ord.compare ((f.walk r).idxOf a) ((f.walk r).idxOf b)) t := by
  obtain ⟨as, downA⟩ := (mem_walk_iff wf).1 ha
  obtain ⟨bs, downB⟩ := (mem_walk_iff wf).1 hb
  rw [comparePositions]
  split_ifs with eq
  · rw [eq, Nat.compare_eq_eq.2 rfl]
    rfl
  · rw [path_of_descends wf top.reached (path_of_isTop wf top) downA,
      path_of_descends wf top.reached (path_of_isTop wf top) downB]
    show (if r = r then (Comparison.ofExcept (f.comparePaths r as bs)) else _) t = _
    rw [if_pos rfl, comparePaths_eq wf top.reached downA downB]
    rfl

/-! ## Between two trees -/

/-- No pointer stands in two trees. -/
theorem top_unique (wf : f.WellFormed) {r r' a : Pointer} (top : f.IsTop r) (top' : f.IsTop r')
    (h : a ∈ f.walk r) (h' : a ∈ f.walk r') : r = r' := by
  obtain ⟨as, down⟩ := (mem_walk_iff wf).1 h
  obtain ⟨bs, down'⟩ := (mem_walk_iff wf).1 h'
  have path := path_of_descends wf top.reached (path_of_isTop wf top) down
  rw [path_of_descends wf top'.reached (path_of_isTop wf top') down'] at path
  exact (List.cons.inj (Except.ok.inj path)).1.symm

/-- Two places of different trees are compared by their tops alone. -/
theorem comparePositions_of_ne_top (wf : f.WellFormed) {r r' a b : Pointer} (top : f.IsTop r)
    (top' : f.IsTop r') (ne : r ≠ r') (ha : a ∈ f.walk r) (hb : b ∈ f.walk r') (t : Roots) :
    f.comparePositions a b t =
      .ok (Ord.compare (t.ordinal r).1 ((t.ordinal r).2.ordinal r').1)
        ((t.ordinal r).2.ordinal r').2 := by
  have apart : a ≠ b := fun eq => ne (top_unique wf top top' ha (eq ▸ hb))
  obtain ⟨as, downA⟩ := (mem_walk_iff wf).1 ha
  obtain ⟨bs, downB⟩ := (mem_walk_iff wf).1 hb
  rw [comparePositions, if_neg apart,
    path_of_descends wf top.reached (path_of_isTop wf top) downA,
    path_of_descends wf top'.reached (path_of_isTop wf top') downB]
  show (if r = r' then _ else Comparison.ordinal r >>= fun i => Comparison.ordinal r' >>= fun j =>
    (return Ord.compare i j : Comparison Ordering)) t = _
  rw [if_neg ne]
  rfl

/-- The walk of a tree lists every node of it once, and the order of places is the order of the walk;
nodes of different trees are ordered as the table orders the tops, and a top that is new to it is
entered, that of the first node before that of the second. -/
theorem comparePositions_preorder (wf : f.WellFormed) :
    (∀ p, f.walk p = p :: (f.attributes p ++ (f.children p).flatMap f.walk)) ∧
    (∀ r, f.IsTop r → (f.walk r).Nodup ∧ ∀ a ∈ f.walk r, ∀ b ∈ f.walk r, ∀ t : Roots,
      f.comparePositions a b t =
        .ok (Ord.compare ((f.walk r).idxOf a) ((f.walk r).idxOf b)) t) ∧
    ∀ r r', f.IsTop r → f.IsTop r' → r ≠ r' → ∀ a ∈ f.walk r, ∀ b ∈ f.walk r', ∀ t : Roots,
      f.comparePositions a b t =
        .ok (Ord.compare (t.ordinal r).1 ((t.ordinal r).2.ordinal r').1)
          ((t.ordinal r).2.ordinal r').2 :=
  ⟨walk_eq wf.document,
    fun _ top => ⟨nodup_walk wf top.reached, fun _ ha _ hb =>
      comparePositions_of_mem_walk wf top ha hb⟩,
    fun _ _ top top' ne _ ha _ hb => comparePositions_of_ne_top wf top top' ne ha hb⟩

/-- A node that is spliced in twice stands in two places of one walk, and apart from both in the walk
of its own tree. -/
theorem comparePositions_of_spliced_twice :
    let d := holding (.node (.element (.unqualified "a"))
      [.leaf (.attribute (.unqualified "x") "1")] [.node (.element (.unqualified "b")) [] []])
    let y := Arena.empty.alloc (.attribute (.unqualified "y") "2") (by decide)
    let s := y.2.alloc (.element (.unqualified "s") [.silhouette y.1, .real ⟨1⟩]
      [.real ⟨0⟩, .real ⟨0⟩]) (by decide)
    let f : Forest := ⟨d, s.2⟩
    let top := Pointer.silhouette s.1
    let b := fun i => (⟨.real ⟨2⟩, [⟨s.1, .child i⟩]⟩ : Pointer)
    f.WellFormed ∧ f.IsTop top ∧ f.IsTop (.real ⟨0⟩) ∧
      f.comparePositions (b 1) ⟨.real ⟨0⟩, [⟨s.1, .child 0⟩]⟩ .empty = .ok .gt .empty ∧
      f.comparePositions (.real ⟨2⟩) (b 0) ⟨[top]⟩ = .ok .gt ⟨[top, .real ⟨0⟩]⟩ := by
  intro d y s f top b
  have document : d.WellFormed := wellFormed_holding _
  have wf : f.WellFormed := .of_silhouettes document (by decide +kernel)
  have isTop : f.IsTop top := .silhouette s.1
  have isTop' : f.IsTop (.real ⟨0⟩) := .real ⟨0⟩ (by decide +kernel) (by decide +kernel)
  obtain ⟨-, within, between⟩ := comparePositions_preorder wf
  refine ⟨wf, isTop, isTop', ?_, ?_⟩
  · rw [(within top isTop).2 _ (by decide +kernel) _ (by decide +kernel)]
    exact congrArg₂ EStateM.Result.ok (by decide +kernel) rfl
  · rw [between (.real ⟨0⟩) top isTop' isTop (by decide) _ (by decide +kernel) _
      (by decide +kernel)]
    exact congrArg₂ EStateM.Result.ok (by decide +kernel) (by decide +kernel)

end Forest

end VirtualTree
