import Mathlib.Algebra.GroupWithZero.Nat
import VirtualTree.Proofs.Expression.Direct

/-!
# The budget of waiting polls

The driver counts the waiting polls since the last chunk that reached it.  A copy expression gives one
chunk, and keeps those of its operands to itself; so all its waiting polls count in one row, where a
sequence starts anew behind each operand.  `Expression.runs` lists these rows, and a poll takes from
the front of the list (`runs_poll`).  An evaluation that would succeed without waiting succeeds exactly
if no row is longer than the budget, and else gives up (`evaluate_within_budget`).
-/

namespace VirtualTree

/-! ## Rows of waiting polls -/

mutual

/-- How often an expression waits before each of the chunks that it gives. -/
def Expression.runs : Expression → List ℕ
  | .reference _ => [0]
  | .call pending _ => [pending]
  | .sequence operands => Expression.runsAll operands
  | .transform copies modify result =>
    [Expression.waitsCopies copies + modify.runs.sum + result.runs.sum]

/-- The rows of expressions that follow one another. -/
def Expression.runsAll : List Expression → List ℕ
  | [] => []
  | e :: rest => e.runs ++ Expression.runsAll rest

/-- How often the sources of copies wait together. -/
def Expression.waitsCopies : List (ExpandedName × Expression) → ℕ
  | [] => 0
  | (_, source) :: rest => source.runs.sum + Expression.waitsCopies rest

end

/-- How often a copy expression still waits after the source at hand. -/
def CopyClause.waits (c : CopyClause) : ℕ :=
  Expression.waitsCopies c.remaining + c.modify.runs.sum + c.result.runs.sum

/-- How often a cursor still waits before each of the chunks that it still gives. -/
def Cursor.runs : Cursor → List ℕ
  | .finished => []
  | .calling pending _ _ => [pending]
  | .referring _ => [0]
  | .sequencing current rest _ => current.runs ++ Expression.runsAll rest
  | .copying _ source _ clause => [source.runs.sum + clause.waits]
  | .modifying current _ clause => [current.runs.sum + clause.result.runs.sum]
  | .returning current _ _ => [current.runs.sum]

theorem Expression.runs_start (scope : Scope) (e : Expression) : (e.start scope).runs = e.runs := by
  fun_induction start scope e with
  | case1 | case2 | case3 => rfl
  | case4 e rest ih => rw [Cursor.runs, ih, runs, runsAll]
  | case5 modify result ih =>
    rw [Cursor.runs, ih, runs, waitsCopies, Nat.zero_add]
  | case6 modify result name source rest ih =>
    simp only [Cursor.runs, CopyClause.waits, ih, runs, waitsCopies, Nat.add_assoc]

namespace CopyClause

theorem runs_next (c : CopyClause) : c.next.runs = [c.waits] := by
  unfold next
  split
  · rename_i h
    simp only [Cursor.runs, Expression.runs_start, waits, h, Expression.waitsCopies, Nat.zero_add]
  · rename_i name source rest h
    simp only [Cursor.runs, Expression.runs_start, waits, h, Expression.waitsCopies, Nat.add_assoc]

theorem waits_bindCopy {c c' : CopyClause} {name : ExpandedName} {source : Yield} {o : Options}
    {s s' : Evaluation} (h : c.bindCopy name source o s = .ok c' s') : c'.waits = c.waits := by
  obtain ⟨items, updates⟩ := source
  match items with
  | [.node p] =>
    simp only [bindCopy, bind, ReaderT.bind, EStateM.bind] at h
    split at h <;> cases h
    rfl
  | [] | [.atomic _] | .node _ :: _ :: _ | .atomic _ :: _ :: _ => cases h

end CopyClause

/-! ## What polls take -/

/-- What a step shows is taken from the front of the rows. -/
def Signal.Takes (runs : List ℕ) : Signal × Cursor × Evaluation → Prop
  | (.silent, c, _) => c.runs = runs
  | (.pending, c, _) => ∃ n rest, runs = (n + 1) :: rest ∧ c.runs = n :: rest
  | (.ready _, c, _) => runs = 0 :: c.runs
  | (.failed _, _, _) => True
  | (.done, _, _) => runs = []

/-- What a poll gives is taken from the front of the rows. -/
def Outcome.Takes (runs : List ℕ) : Outcome × Cursor × Evaluation → Prop
  | (.pending, c, _) => ∃ n rest, runs = (n + 1) :: rest ∧ c.runs = n :: rest
  | (.ready _, c, _) => runs = 0 :: c.runs
  | (.failed _, _, _) => True
  | (.done, _, _) => runs = []

namespace Cursor

variable {o : Options} {s : Evaluation} {c : Cursor}

/-- The rows of an operand whose chunks are kept are one row, with what follows. -/
theorem takes_of_kept {c' : Cursor} {signal : Signal} {s' : Evaluation} {n : ℕ} {runs : List ℕ}
    (step : Signal.Takes runs (signal, c, s)) (notReady : ∀ chunk, signal ≠ .ready chunk)
    (notDone : signal ≠ .done) (kept : c'.runs = [c.runs.sum + n]) :
    Signal.Takes [runs.sum + n] (signal, c', s') := by
  cases signal with
  | silent =>
    rw [Signal.Takes] at step ⊢
    rw [kept, step]
  | pending =>
    obtain ⟨k, rest, rfl, after⟩ := step
    refine ⟨k + rest.sum + n, [], ?_, ?_⟩
    · simp only [List.sum_cons, List.cons.injEq, and_true]
      omega
    · rw [kept, after, List.sum_cons]
  | ready chunk => exact absurd rfl (notReady chunk)
  | failed e => trivial
  | done => exact absurd rfl notDone

/-- A chunk that an operand gives is collected and ends no row. -/
theorem takes_of_collected {c' : Cursor} {chunk : Yield} {s' : Evaluation} {n : ℕ} {runs : List ℕ}
    (step : Signal.Takes runs (.ready chunk, c, s)) (kept : c'.runs = [c.runs.sum + n]) :
    Signal.Takes [runs.sum + n] (.silent, c', s') := by
  have given : runs = 0 :: c.runs := step
  rw [Signal.Takes, kept, given, List.sum_cons, Nat.zero_add]

theorem runs_advance (o : Options) (c : Cursor) (s : Evaluation) :
    Signal.Takes c.runs (c.advance o s) := by
  induction c generalizing s with
  | finished => rfl
  | calling pending body scope =>
    cases pending with
    | succ n => exact ⟨n, [], rfl, rfl⟩
    | zero =>
      rw [advance]
      split
      · rfl
      · trivial
  | referring value => cases value <;> trivial
  | sequencing current rest scope ih =>
    have step := ih s
    rcases h : current.advance o s with ⟨signal, c', s'⟩
    rw [h] at step
    simp only [advance, h]
    cases signal with
    | silent => exact congrArg (· ++ Expression.runsAll rest) step
    | pending =>
      obtain ⟨n, others, before, after⟩ := step
      exact ⟨n, others ++ Expression.runsAll rest, by rw [runs, before]; rfl, by rw [runs, after]; rfl⟩
    | ready chunk => exact congrArg (· ++ Expression.runsAll rest) step
    | failed e => trivial
    | done =>
      have none : current.runs = [] := step
      cases rest with
      | nil =>
        show finished.runs = _
        rw [runs, runs, none]
        rfl
      | cons e rest =>
        show (sequencing (e.start scope) rest scope).runs = _
        rw [runs, runs, none, Expression.runs_start, Expression.runsAll, List.nil_append]
  | copying name source sofar clause ih =>
    have step := ih s
    rw [advance, runs]
    split
    · rename_i chunk source' s' h
      rw [h] at step
      exact takes_of_collected step rfl
    · rename_i source' s' h
      rw [h] at step
      have none : source.runs = [] := step
      rw [none, List.sum_nil, Nat.zero_add]
      split
      · rename_i clause' s'' bound
        rw [← CopyClause.waits_bindCopy bound]
        exact clause'.runs_next
      · trivial
    · rename_i signal source' s' notReady notDone h
      rw [h] at step
      exact takes_of_kept step notReady notDone rfl
  | modifying current updates clause ih =>
    have step := ih s
    rw [advance, runs]
    split
    · rename_i chunk current' s' h
      rw [h] at step
      exact takes_of_collected step rfl
    · rename_i current' s' h
      rw [h] at step
      have none : current.runs = [] := step
      rw [none, List.sum_nil, Nat.zero_add]
      split
      · rw [Signal.Takes, runs, Expression.runs_start]
      · trivial
    · rename_i signal current' s' notReady notDone h
      rw [h] at step
      exact takes_of_kept step notReady notDone rfl
  | returning current sofar sourceUpdates ih =>
    have step := ih s
    rw [advance, runs]
    split
    · rename_i chunk current' s' h
      rw [h] at step
      exact takes_of_collected (n := 0) step rfl
    · rename_i current' s' h
      rw [h] at step
      have none : current.runs = [] := step
      rw [none]
      rfl
    · rename_i signal current' s' notReady notDone h
      rw [h] at step
      exact takes_of_kept (n := 0) step notReady notDone rfl

/-- A poll that waits takes one from the first row; a chunk ends a row that is used up. -/
theorem runs_poll (o : Options) (c : Cursor) (s : Evaluation) : Outcome.Takes c.runs (c.poll o s) := by
  fun_induction poll o c s with
  | case1 c s c' s' h ih =>
    have step := runs_advance o c s
    rw [h] at step
    exact step ▸ ih
  | case2 c s c' s' h | case3 c s _ c' s' h | case4 c s _ c' s' h | case5 c s c' s' h =>
    have step := runs_advance o c s
    rw [h] at step
    exact step

/-! ## Rows that are too long -/

/-- A row is longer than the limit, where some polls of the first one are counted already. -/
def Exceeds (limit waits : ℕ) : List ℕ → Prop
  | [] => False
  | k :: rest => limit < waits + k ∨ ∃ j ∈ rest, limit < j

theorem exceeds_zero {limit : ℕ} {runs : List ℕ} :
    Exceeds limit 0 runs ↔ ∃ k ∈ runs, limit < k := by
  cases runs with
  | nil => simp [Exceeds]
  | cons k rest => simp [Exceeds]

/-- What follows a chunk succeeds if the whole does. -/
theorem succeeds_of_before {chunk : Yield} {m : Evaluate Yield}
    (whole : succeeds (chunk.before m o s)) : succeeds (m o s) := by
  cases h : m o s with
  | ok y s' => rfl
  | error e s' =>
    rw [Yield.before, Evaluate.bind_of_error h] at whole
    cases whole

/-- A driver will have waited too long exactly if a row is too long. -/
theorem overdue_iff {waits limit : ℕ} (whole : succeeds (c.remainder o s))
    (limited : o.maxPendingPolls = some limit) (patient : waits ≤ limit) :
    c.Overdue o waits s ↔ Exceeds limit waits c.runs := by
  -- The induction is that of the driver, in which what it collected plays no part.
  fun_induction drive c waits Yield.empty o s with
  | case1 c waits sofar s c' s' run =>
    have taken := runs_poll o c s
    rw [run] at taken
    have none : c.runs = [] := taken
    refine iff_of_false (fun overdue => ?_) (by rw [none]; exact id)
    have next := overdue.poll limited patient
    rwa [run] at next
  | case2 c waits sofar s e c' s' run =>
    have step := remainder_poll o c s
    rw [run] at step
    have fails : c.remainder o s = .error e s' := step
    rw [fails] at whole
    cases whole
  | case3 c waits sofar s chunk c' s' run ih =>
    have taken := runs_poll o c s
    have step := remainder_poll o c s
    rw [run] at taken step
    have rows : c.runs = 0 :: c'.runs := taken
    have split : c.remainder o s = chunk.before c'.remainder o s' := step
    rw [split] at whole
    have next : c.Overdue o waits s ↔ c'.Overdue o 0 s' := by
      refine ⟨fun overdue => ?_, overdue_of_ready run⟩
      have next := overdue.poll limited patient
      rwa [run] at next
    rw [next, ih (succeeds_of_before whole) (Nat.zero_le limit), exceeds_zero, rows, Exceeds]
    simp only [Nat.add_zero, Nat.not_lt.2 patient, false_or]
  | case4 c waits sofar s c' s' run unlimited ih =>
    rw [unlimited] at limited
    cases limited
  | case5 c waits sofar s c' s' run limit' limited' late =>
    obtain rfl : limit' = limit := Option.some.inj (limited'.symm.trans limited)
    have taken := runs_poll o c s
    rw [run] at taken
    obtain ⟨n, rest, rows, -⟩ := taken
    refine iff_of_true (overdue_of_late run limited late) ?_
    rw [rows]
    exact .inl (by omega)
  | case6 c waits sofar s c' s' run limit' limited' patient' ih =>
    obtain rfl : limit' = limit := Option.some.inj (limited'.symm.trans limited)
    have taken := runs_poll o c s
    have step := remainder_poll o c s
    rw [run] at taken step
    obtain ⟨n, rest, rows, rows'⟩ := taken
    have same : c.remainder o s = c'.remainder o s' := step
    have next : c.Overdue o waits s ↔ c'.Overdue o (waits + 1) s' := by
      refine ⟨fun overdue => ?_, overdue_of_pending run⟩
      have next := overdue.poll limited patient
      rwa [run] at next
    rw [next, ih (same ▸ whole) (Nat.not_lt.1 patient'), rows, rows', Exceeds, Exceeds,
      Nat.add_assoc, Nat.add_comm 1 n]

end Cursor

/-! ## Evaluations -/

namespace Expression

variable {x : Expression} {scope : Scope} {o : Options} {s s' : Evaluation} {y : Yield}

/-- An evaluation that succeeds does not stall. -/
theorem not_stalls_of_ok (h : x.evaluate scope o s = .ok y s') : ¬ (x.start scope).Stalls o s := by
  intro stalls
  obtain ⟨limit, s'', -, run⟩ := (evaluate_eq_direct x scope o s).1 stalls
  cases h.symm.trans run

/-- An expression that would succeed without waiting stalls exactly if one of its rows is too long. -/
theorem stalls_iff {limit : ℕ} (h : x.direct scope o s = .ok y s')
    (limited : o.maxPendingPolls = some limit) :
    (x.start scope).Stalls o s ↔ ∃ k ∈ x.runs, limit < k := by
  have whole : succeeds ((x.start scope).remainder o s) := by
    rw [remainder_start, h]
    rfl
  rw [← runs_start scope, ← Cursor.exceeds_zero]
  exact Cursor.overdue_iff whole limited (Nat.zero_le limit)

/-- An expression that would succeed without waiting gives the same if none of its rows is longer
than the budget, and without a budget; else the driver gives up. -/
theorem evaluate_within_budget (h : x.prompt.evaluate scope o s = .ok y s') :
    (o.maxPendingPolls = none → x.evaluate scope o s = .ok y s') ∧
    ∀ limit, o.maxPendingPolls = some limit →
      ((∀ k ∈ x.runs, k ≤ limit) → x.evaluate scope o s = .ok y s') ∧
      ((∃ k ∈ x.runs, limit < k) → ∃ e s'', x.evaluate scope o s = .error e s'' ∧
        e = .stalled limit ∧ e.code = ErrorCode.eval0001.name) := by
  have direct : x.direct scope o s = .ok y s' := by
    rw [← direct_prompt, ← h]
    exact ((evaluate_eq_direct x.prompt scope o s).2 (not_stalls_of_ok h)).1.symm
  have patient (calm : ¬ (x.start scope).Stalls o s) : x.evaluate scope o s = .ok y s' :=
    ((evaluate_eq_direct x scope o s).2 calm).1.trans direct
  refine ⟨fun unlimited => patient fun ⟨limit, limited, _⟩ => ?_, fun limit limited => ⟨?_, ?_⟩⟩
  · cases unlimited.symm.trans limited
  · intro short
    refine patient fun stalls => ?_
    obtain ⟨k, mem, long⟩ := (stalls_iff direct limited).1 stalls
    exact absurd (short k mem) (Nat.not_le.2 long)
  · intro long
    obtain ⟨limit', s'', limited', run⟩ :=
      (evaluate_eq_direct x scope o s).1 ((stalls_iff direct limited).2 long)
    obtain rfl : limit' = limit := Option.some.inj (limited'.symm.trans limited)
    exact ⟨_, s'', run, rfl, rfl⟩

/-- A copy whose three parts wait four times together, before an operand that waits three times:
four polls in a row are enough and three are not, even though no call waits longer than three. -/
theorem evaluate_within_budget_of_copy :
    let s := Evaluation.start (.holding (.node (.element (.unqualified "e")) [] []))
    let copied : ExpandedName := ⟨none, "c"⟩
    let x : Expression := .sequence [.transform
      [(copied, .call 2 fun _ => pure ⟨[.node (.real ⟨0⟩)], []⟩)]
      (.call 1 fun _ => pure ⟨[], [⟨.real ⟨1⟩, .rename (.unqualified "f")⟩]⟩)
      (.sequence [.reference copied, .call 1 fun _ => pure .empty]),
      .call 3 fun _ => pure .empty]
    x.runs = [4, 3] ∧
      (∃ y s', x.evaluate .empty { maxPendingPolls := some 4 } s = .ok y s') ∧
      ∃ e s', x.evaluate .empty { maxPendingPolls := some 3 } s = .error e s' ∧
        e.code = ErrorCode.eval0001.name := by
  intro s copied x
  refine ⟨rfl, ?_, ?_⟩
  · obtain ⟨y, s', run⟩ := exists_of_succeeds
      (r := x.prompt.evaluate .empty { maxPendingPolls := some 4 } s) (by decide +kernel)
    exact ⟨y, s', ((evaluate_within_budget run).2 4 rfl).1 (by decide)⟩
  · obtain ⟨y, s', run⟩ := exists_of_succeeds
      (r := x.prompt.evaluate .empty { maxPendingPolls := some 3 } s) (by decide +kernel)
    obtain ⟨e, s'', stalled, -, code⟩ :=
      ((evaluate_within_budget run).2 3 rfl).2 ⟨4, List.mem_cons_self, by decide⟩
    exact ⟨e, s'', stalled, code⟩

end Expression

end VirtualTree
