import Mathlib.Data.Nat.Notation
import Mathlib.Logic.Relation
import VirtualTree.Expression.Poll
import VirtualTree.Proofs.Document.Extends

/-!
# After a failure

What becomes of a copy expression whose poll failed depends on where the failure comes from.  When a
copy cannot be bound, or the updates of the copies are refused, the expression has ended: all later
polls give nothing and change nothing.  When an operand fails, the copy expression stays where it was,
with what is left of the operand, and the next poll goes on from there; an operand that has nothing
left counts as one that came to its end (`ends_iff_of_failed`).
-/

namespace VirtualTree

deriving instance DecidableEq for Outcome

namespace Cursor

variable {o : Options} {c c' : Cursor} {s s' : Evaluation} {e : Error}

/-! ## Copy expressions that have not ended -/

/-- The cursor of the operand that a copy expression evaluates at the moment. -/
def operand? : Cursor → Option Cursor
  | .copying _ source _ _ => some source
  | .modifying current _ _ => some current
  | .returning current _ _ => some current
  | _ => none

/-- The copy expression with another cursor for its operand. -/
def withOperand (c operand : Cursor) : Cursor :=
  match c with
  | .copying name _ sofar clause => .copying name operand sofar clause
  | .modifying _ updates clause => .modifying operand updates clause
  | .returning _ sofar sourceUpdates => .returning operand sofar sourceUpdates
  | c => c

/-- The cursor is that of a copy expression that has not ended. -/
def IsCopy (c : Cursor) : Prop := c.operand?.isSome

theorem isCopy_withOperand (h : c.IsCopy) (x : Cursor) : (c.withOperand x).IsCopy := by
  cases c with
  | finished | calling | referring | sequencing => cases h
  | copying | modifying | returning => exact rfl

theorem isCopy_next (clause : CopyClause) : clause.next.IsCopy := by
  unfold CopyClause.next
  split <;> rfl

theorem isCopy_start (copies : List (ExpandedName × Expression)) (modify result : Expression)
    (scope : Scope) : ((Expression.transform copies modify result).start scope).IsCopy := by
  rcases copies with - | ⟨⟨name, source⟩, rest⟩ <;> simp [Expression.start, IsCopy, operand?]

/-! ## One step -/

/-- What a step of a copy expression shows and where it leads to. -/
inductive CopyStep (o : Options) (c : Cursor) (s : Evaluation) : Signal × Cursor × Evaluation → Prop
  /-- The copy expression goes on, with the same operand or with another. -/
  | goesOn {signal : Signal} {c' : Cursor} {s' : Evaluation} (next : c'.IsCopy)
    (quiet : signal = .silent ∨ signal = .pending) : CopyStep o c s (signal, c', s')
  /-- The operand fails, and what is left of it takes its place. -/
  | operand {x x' : Cursor} {e : Error} {s' : Evaluation} (current : c.operand? = some x)
    (run : x.advance o s = (.failed e, x', s')) : CopyStep o c s (.failed e, c.withOperand x', s')
  /-- The operand is done, and what follows fails. -/
  | clause {x x' : Cursor} {e : Error} {s₁ s' : Evaluation} (current : c.operand? = some x)
    (run : x.advance o s = (.done, x', s₁)) : CopyStep o c s (.failed e, .finished, s')
  /-- The result is given. -/
  | result {chunk : Yield} {s' : Evaluation} : CopyStep o c s (.ready chunk, .finished, s')

/-- Unless the operand gives a chunk or is done, its step is all that happens. -/
theorem CopyStep.of_operand (h : c.IsCopy) {x x' : Cursor} {signal : Signal}
    (current : c.operand? = some x) (run : x.advance o s = (signal, x', s'))
    (notReady : ∀ chunk, signal ≠ .ready chunk) (notDone : signal ≠ .done) :
    CopyStep o c s (signal, c.withOperand x', s') := by
  cases signal with
  | silent => exact .goesOn (isCopy_withOperand h x') (.inl rfl)
  | pending => exact .goesOn (isCopy_withOperand h x') (.inr rfl)
  | ready chunk => exact absurd rfl (notReady chunk)
  | failed e => exact .operand current run
  | done => exact absurd rfl notDone

theorem copyStep_advance (h : c.IsCopy) : CopyStep o c s (c.advance o s) := by
  cases c with
  | finished | calling | referring | sequencing => cases h
  | copying name source sofar clause =>
    rw [advance]
    split
    · exact .goesOn rfl (.inl rfl)
    · rename_i run
      split
      · exact .goesOn (isCopy_next _) (.inl rfl)
      · exact .clause rfl run
    · rename_i notReady notDone run
      exact .of_operand (c := .copying name source sofar clause) h rfl run notReady notDone
  | modifying current updates clause =>
    rw [advance]
    split
    · exact .goesOn rfl (.inl rfl)
    · rename_i run
      split
      · exact .goesOn rfl (.inl rfl)
      · exact .clause rfl run
    · rename_i notReady notDone run
      exact .of_operand (c := .modifying current updates clause) h rfl run notReady notDone
  | returning current sofar sourceUpdates =>
    rw [advance]
    split
    · exact .goesOn rfl (.inl rfl)
    · exact .result
    · rename_i notReady notDone run
      exact .of_operand (c := .returning current sofar sourceUpdates) h rfl run notReady notDone

/-! ## One poll -/

/-- Steps that show nothing lead from one cursor to another. -/
def Silently (o : Options) : Cursor × Evaluation → Cursor × Evaluation → Prop :=
  Relation.ReflTransGen fun x y => x.1.advance o x.2 = (.silent, y.1, y.2)

/-- The operand at hand fails, after some steps that show nothing; all else stays as it is. -/
def OperandFails (o : Options) (c : Cursor) (s : Evaluation) (e : Error) (c' : Cursor)
    (s' : Evaluation) : Prop :=
  ∃ c₁ s₁ x x', Silently o (c, s) (c₁, s₁) ∧ c₁.operand? = some x ∧
    x.advance o s₁ = (.failed e, x', s') ∧ c' = c₁.withOperand x'

/-- The operand at hand comes to its end, after some steps that show nothing, and then the copy cannot
be bound, or the updates of the copies cannot be made. -/
def ClauseFails (o : Options) (c : Cursor) (s : Evaluation) (e : Error) (c' : Cursor)
    (s' : Evaluation) : Prop :=
  ∃ c₁ s₁ x x' s₂, Silently o (c, s) (c₁, s₁) ∧ c₁.operand? = some x ∧
    x.advance o s₁ = (.done, x', s₂) ∧ c₁.advance o s₁ = (.failed e, .finished, s') ∧
    c' = .finished

theorem OperandFails.isCopy (h : c.OperandFails o s e c' s') : c'.IsCopy := by
  obtain ⟨c₁, s₁, x, x', -, current, -, rfl⟩ := h
  exact isCopy_withOperand (Option.isSome_iff_exists.2 ⟨x, current⟩) x'

theorem ClauseFails.not_isCopy (h : c.ClauseFails o s e c' s') : ¬ c'.IsCopy := by
  obtain ⟨_, _, _, _, _, -, -, -, -, rfl⟩ := h
  nofun

/-- What a poll of a copy expression gives and where it leads to. -/
inductive CopyPoll (o : Options) (c : Cursor) (s : Evaluation) :
    Outcome × Cursor × Evaluation → Prop
  | waits {c' : Cursor} {s' : Evaluation} (next : c'.IsCopy) : CopyPoll o c s (.pending, c', s')
  | operand {e : Error} {c' : Cursor} {s' : Evaluation} (fails : c.OperandFails o s e c' s') :
    CopyPoll o c s (.failed e, c', s')
  | clause {e : Error} {s' : Evaluation} (fails : c.ClauseFails o s e .finished s') :
    CopyPoll o c s (.failed e, .finished, s')
  | result {chunk : Yield} {s' : Evaluation} : CopyPoll o c s (.ready chunk, .finished, s')

/-- A step that shows nothing belongs to the poll. -/
theorem CopyPoll.head {r : Outcome × Cursor × Evaluation} (step : c.advance o s = (.silent, c', s'))
    (h : CopyPoll o c' s' r) : CopyPoll o c s r := by
  cases h with
  | waits next => exact .waits next
  | operand fails =>
    obtain ⟨c₁, s₁, x, x', silently, rest⟩ := fails
    exact .operand ⟨c₁, s₁, x, x', .head step silently, rest⟩
  | clause fails =>
    obtain ⟨c₁, s₁, x, x', s₂, silently, rest⟩ := fails
    exact .clause ⟨c₁, s₁, x, x', s₂, .head step silently, rest⟩
  | result => exact .result

theorem copyPoll_poll (h : c.IsCopy) : CopyPoll o c s (c.poll o s) := by
  fun_induction poll o c s with
  | case1 c s c' s' run ih =>
    have step := copyStep_advance (o := o) (s := s) h
    rw [run] at step
    cases step with
    | goesOn next => exact (ih next).head run
  | case2 c s c' s' run =>
    have step := copyStep_advance (o := o) (s := s) h
    rw [run] at step
    cases step with
    | goesOn next => exact .waits next
  | case3 c s chunk c' s' run =>
    have step := copyStep_advance (o := o) (s := s) h
    rw [run] at step
    cases step with
    | goesOn _ quiet => rcases quiet with quiet | quiet <;> cases quiet
    | result => exact .result
  | case4 c s e c' s' run =>
    have step := copyStep_advance (o := o) (s := s) h
    rw [run] at step
    cases step with
    | goesOn _ quiet => rcases quiet with quiet | quiet <;> cases quiet
    | operand current failed =>
      exact .operand ⟨c, s, _, _, .refl, current, failed, rfl⟩
    | clause current done => exact .clause ⟨c, s, _, _, _, .refl, current, done, run, rfl⟩
  | case5 c s c' s' run =>
    have step := copyStep_advance (o := o) (s := s) h
    rw [run] at step
    cases step with
    | goesOn _ quiet => rcases quiet with quiet | quiet <;> cases quiet

/-- A copy expression gives its result before it is done. -/
theorem poll_ne_done (h : c.IsCopy) : (c.poll o s).1 ≠ .done := by
  have poll := copyPoll_poll (o := o) (s := s) h
  intro done
  rcases run : c.poll o s with ⟨outcome, c', s'⟩
  rw [run] at poll done
  obtain rfl : outcome = .done := done
  cases poll

/-! ## Any number of polls -/

/-- The second cursor is what is left of the first after some polls, in whatever states. -/
inductive Later (c : Cursor) : Cursor → Prop
  | refl : Later c c
  | poll {c' : Cursor} (h : Later c c') (o : Options) (s : Evaluation) : Later c (c'.poll o s).2.1

@[simp] theorem poll_finished (o : Options) (s : Evaluation) :
    finished.poll o s = (.done, .finished, s) := by
  rw [poll]
  rfl

theorem polls_finished (o : Options) (n : ℕ) (s : Evaluation) :
    finished.polls o n s = (List.replicate n .done, s) := by
  induction n with
  | zero => rfl
  | succ n ih => simp only [polls, poll_finished, ih, List.replicate_succ]

/-- As long as it is polled, a copy expression goes on or has ended. -/
theorem Later.isCopy (h : c.Later c') (start : c.IsCopy) : c'.IsCopy ∨ c' = .finished := by
  induction h with
  | refl => exact .inl start
  | @poll c' _ o s ih =>
    rcases ih with copy | rfl
    · have poll := copyPoll_poll (o := o) (s := s) copy
      rcases run : c'.poll o s with ⟨outcome, c₁, s₁⟩
      rw [run] at poll
      cases poll with
      | waits next => exact .inl next
      | operand fails => exact .inl fails.isCopy
      | clause | result => exact .inr rfl
    · rw [poll_finished]
      exact .inr rfl

end Cursor

namespace Expression

/-- A failure is one of the copy expression itself or one of an operand.  It ends the expression
exactly in the first case; in the second the next poll goes on. -/
theorem ends_iff_of_failed {copies : List (ExpandedName × Expression)} {modify result : Expression}
    {scope : Scope} {c c' : Cursor} {o : Options} {s s' : Evaluation} {e : Error}
    (h : ((Expression.transform copies modify result).start scope).Later c)
    (run : c.poll o s = (.failed e, c', s')) :
    (c.ClauseFails o s e c' s' ∨ c.OperandFails o s e c' s') ∧
      (c.ClauseFails o s e c' s' ↔ ∀ n t, c'.polls o n t = (List.replicate n .done, t)) ∧
      (c.OperandFails o s e c' s' ↔ ∀ t, (c'.poll o t).1 ≠ .done) := by
  have start := Cursor.isCopy_start copies modify result scope
  have unfinished : c.IsCopy := (h.isCopy start).resolve_right fun finished => by
    rw [finished, Cursor.poll_finished] at run
    cases run
  have poll := Cursor.copyPoll_poll (o := o) (s := s) unfinished
  rw [run] at poll
  -- Only one of the two failures leaves a copy expression behind, so it decides both statements.
  cases poll with
  | operand fails =>
    have goesOn (t : Evaluation) : (c'.poll o t).1 ≠ .done := Cursor.poll_ne_done fails.isCopy
    refine ⟨.inr fails, iff_of_false (fun failed => failed.not_isCopy fails.isCopy) fun ended => ?_,
      iff_of_true fails goesOn⟩
    exact goesOn s' (List.cons.inj (congrArg Prod.fst (ended 1 s'))).1
  | clause fails =>
    refine ⟨.inl fails, iff_of_true fails (Cursor.polls_finished o),
      iff_of_false (fun failed => fails.not_isCopy failed.isCopy) fun goesOn => ?_⟩
    exact goesOn s' (by rw [Cursor.poll_finished])

/-- A source that yields nothing cannot be bound, and all is over. -/
theorem ends_of_empty_source :
    let s := Evaluation.start .empty
    let start := (Expression.transform [(⟨none, "c"⟩, .sequence [])] (.sequence [])
      (.sequence [])).start .empty
    ∃ e c' s', start.poll {} s = (.failed e, c', s') ∧
      (∀ n t, c'.polls {} n t = (List.replicate n .done, t)) ∧
      (start.ClauseFails {} s e c' s' ∨ start.OperandFails {} s e c' s') ∧
      (start.ClauseFails {} s e c' s' ↔
        ∀ n t, c'.polls {} n t = (List.replicate n .done, t)) ∧
      (start.OperandFails {} s e c' s' ↔ ∀ t, (c'.poll {} t).1 ≠ .done) := by
  intro s start
  have run : start.poll {} s = (.failed (.notOneNode ⟨none, "c"⟩), .finished, s) := by
    rw [Cursor.poll]
    rfl
  exact ⟨_, _, _, run, Cursor.polls_finished {}, ends_iff_of_failed .refl run⟩

/-- Of two operands that ask for updates of a copy the second fails.  The next poll makes the update of
the first, and gives the result. -/
theorem goes_on_after_failed_operand :
    let s := Evaluation.start (.holding (.node (.element (.unqualified "e")) [] []))
    let copied : ExpandedName := ⟨none, "c"⟩
    let x : Expression := .transform
      [(copied, .call 0 fun _ => pure ⟨[.node (.real ⟨0⟩)], []⟩)]
      (.sequence [.call 0 fun _ => pure ⟨[], [⟨.real ⟨1⟩, .rename (.unqualified "f")⟩]⟩,
        .call 0 fun _ => throw (.unbound copied)])
      (.reference copied)
    let first := (x.start .empty).poll {} s
    let second := first.2.1.poll {} first.2.2
    first.1 = .failed (.unbound copied) ∧
      first.2.2.document.name? ⟨1⟩ = some (.unqualified "e") ∧
      second.1 = .ready ⟨[.node (.real ⟨1⟩)], []⟩ ∧
      second.2.2.document.name? ⟨1⟩ = some (.unqualified "f") := by
  decide +kernel

end Expression

end VirtualTree
