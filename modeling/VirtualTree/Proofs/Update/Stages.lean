import Mathlib.Data.List.Nodup
import VirtualTree.Update.Apply

/-!
# The order of carrying out

Updates are carried out by stage, in list order within each.  The staged list is a rearrangement of the
list (`inStages_perm`), its stages ascend (`pairwise_inStages`), and whatever is read off the updates of
one stage only is read off in list order (`filterMap_inStages`).
-/

namespace VirtualTree

variable {α β : Type}

theorem Action.stage_lt (a : Action α) : a.stage < 5 := by
  cases a with
  | insert place content => cases place <;> simp [stage]
  | _ => simp [stage]

theorem flatMap_filter_stage_perm (n : ℕ) (l : List (Update α)) :
    ((List.range n).flatMap fun stage => l.filter fun u => u.action.stage = stage).Perm
      (l.filter fun u => u.action.stage < n) := by
  induction n with
  | zero => simp
  | succ n ih =>
    have parted := List.filter_append_perm (fun u : Update α => u.action.stage < n)
      (l.filter fun u => u.action.stage < n + 1)
    have earlier : (l.filter fun u => u.action.stage < n + 1).filter
        (fun u => u.action.stage < n) = l.filter fun u => u.action.stage < n := by
      rw [List.filter_filter]
      exact List.filter_congr fun u _ => by rw [Bool.eq_iff_iff]; simp; omega
    have latest : (l.filter fun u => u.action.stage < n + 1).filter
        (fun u => !decide (u.action.stage < n)) = l.filter fun u => u.action.stage = n := by
      rw [List.filter_filter]
      exact List.filter_congr fun u _ => by rw [Bool.eq_iff_iff]; simp; omega
    rw [earlier, latest] at parted
    rw [List.range_succ, List.flatMap_append, List.flatMap_singleton]
    exact (ih.append_right _).trans parted

/-- Staging rearranges a list. -/
theorem inStages_perm (l : List (Update α)) : (inStages l).Perm l := by
  have all : (l.filter fun u => u.action.stage < 5) = l :=
    List.filter_eq_self.2 fun u _ => by simpa using u.action.stage_lt
  exact (flatMap_filter_stage_perm 5 l).trans (List.Perm.of_eq all)

theorem mem_inStages {u : Update α} {l : List (Update α)} : u ∈ inStages l ↔ u ∈ l :=
  (inStages_perm l).mem_iff

/-- The stages of a staged list ascend. -/
theorem pairwise_inStages (l : List (Update α)) :
    (inStages l).Pairwise fun u v => u.action.stage ≤ v.action.stage := by
  have stage_of_mem : ∀ {stage : ℕ} {u : Update α},
      (u ∈ l.filter fun u => u.action.stage = stage) → u.action.stage = stage := fun h => by
    simpa using (List.mem_filter.1 h).2
  refine List.pairwise_flatMap.2 ⟨fun stage _ => ?_, ?_⟩
  · exact List.pairwise_of_forall_mem_list fun u hu v hv =>
      Nat.le_of_eq ((stage_of_mem hu).trans (stage_of_mem hv).symm)
  · apply List.pairwise_lt_range.imp
    intro m n lt u hu v hv
    rw [stage_of_mem hu, stage_of_mem hv]
    exact Nat.le_of_lt lt

theorem flatMap_range_ite {n stage : ℕ} (h : stage < n) (l : List β) :
    ((List.range n).flatMap fun k => if k = stage then l else []) = l := by
  induction n with
  | zero => omega
  | succ n ih =>
    rw [List.range_succ, List.flatMap_append, List.flatMap_singleton]
    by_cases hn : n = stage
    · have before : ((List.range n).flatMap fun k => if k = stage then l else []) = [] :=
        List.flatMap_eq_nil_iff.2 fun k hk => if_neg (by have := List.mem_range.1 hk; omega)
      rw [before, if_pos hn, List.nil_append]
    · rw [ih (by omega), if_neg hn, List.append_nil]

/-- What is read off the updates of one stage only is read off in list order. -/
theorem filterMap_inStages {f : Update α → Option β} (stage : ℕ)
    (only : ∀ u, (f u).isSome → u.action.stage = stage) (h : stage < 5) (l : List (Update α)) :
    (inStages l).filterMap f = l.filterMap f := by
  have at_stage : ∀ k, (l.filter fun u => u.action.stage = k).filterMap f =
      if k = stage then l.filterMap f else [] := by
    intro k
    rw [List.filterMap_filter]
    split_ifs with hk
    · apply List.filterMap_congr
      intro u _
      split_ifs with hu
      · rfl
      · rw [eq_comm, ← Option.not_isSome_iff_eq_none]
        exact fun some => hu (by simpa [hk] using only u some)
    · apply List.filterMap_eq_nil_iff.2
      intro u _
      split_ifs with hu
      · rw [← Option.not_isSome_iff_eq_none]
        exact fun some => hk ((of_decide_eq_true hu).symm.trans (only u some))
      · rfl
  rw [inStages, List.filterMap_flatMap]
  simp only [at_stage]
  exact flatMap_range_ite h _

end VirtualTree
