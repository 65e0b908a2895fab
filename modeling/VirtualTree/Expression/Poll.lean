import VirtualTree.Expression.Cursor

/-!
# Polling and evaluating

A poll makes steps of a cursor until one of them shows.  An evaluation polls until the cursor is
done, collects the chunks, and gives up when the cursor waits too often in a row.
-/

namespace VirtualTree

/-- What a poll gives. -/
inductive Outcome where
  /-- The cursor waits. -/
  | pending
  /-- A chunk of the yield. -/
  | ready (chunk : Yield)
  /-- A failure. -/
  | failed (e : Error)
  /-- The end. -/
  | done

namespace Cursor

/-- Makes steps until one shows. -/
def poll (o : Options) (c : Cursor) (s : Evaluation) : Outcome × Cursor × Evaluation :=
  match _h : c.advance o s with
  | (.silent, c', s') => poll o c' s'
  | (.pending, c', s') => (.pending, c', s')
  | (.ready chunk, c', s') => (.ready chunk, c', s')
  | (.failed e, c', s') => (.failed e, c', s')
  | (.done, c', s') => (.done, c', s')
termination_by c.weight
decreasing_by
  have := weight_advance o c s
  rw [_h] at this
  simpa using this

/-- Every poll lowers the weight, unless the cursor is done. -/
theorem weight_poll (o : Options) (c : Cursor) (s : Evaluation) :
    (c.poll o s).1 = .done ∨ (c.poll o s).2.1.weight < c.weight := by
  fun_induction poll o c s with
  | case1 c s c' s' h ih =>
    have := weight_advance o c s
    rw [h] at this
    simp only [reduceCtorEq, false_or] at this
    exact ih.imp_right fun lower => Nat.lt_trans lower this
  | case2 c s c' s' h | case3 c s _ c' s' h | case4 c s _ c' s' h =>
    have := weight_advance o c s
    rw [h] at this
    simpa using this
  | case5 => exact .inl rfl

/-- Polls until the cursor is done and collects the yield.  `waits` counts the waiting polls since
the last chunk. -/
def drive (c : Cursor) (waits : Nat) (sofar : Yield) (o : Options) (s : Evaluation) :
    EStateM.Result Error Evaluation Yield :=
  match _h : c.poll o s with
  | (.done, _, s') => .ok sofar s'
  | (.failed e, _, s') => .error e s'
  | (.ready chunk, c', s') => drive c' 0 (sofar ++ chunk) o s'
  | (.pending, c', s') =>
    match o.maxPendingPolls with
    | none => drive c' (waits + 1) sofar o s'
    | some limit =>
      if limit < waits + 1 then .error (.stalled limit) s' else drive c' (waits + 1) sofar o s'
termination_by c.weight
decreasing_by
  all_goals
    have := weight_poll o c s
    rw [_h] at this
    simpa using this

/-- Polls a cursor `n` times, whatever the polls give. -/
def polls (o : Options) : Nat → Cursor → Evaluation → List Outcome × Evaluation
  | 0, _, s => ([], s)
  | n + 1, c, s =>
    let (outcome, c, s) := c.poll o s
    let (rest, s) := polls o n c s
    (outcome :: rest, s)

end Cursor

namespace Expression

/-- The yield of an expression; the updates it asks for are not made. -/
def evaluate (e : Expression) (scope : Scope) : Evaluate Yield := (e.start scope).drive 0 .empty

/-- The value of an expression, whose updates are made. -/
def run (e : Expression) (scope : Scope) : Evaluate (List (Item Pointer)) := do
  let yield ← e.evaluate scope
  Evaluate.applyUpdates yield.updates
  return yield.items

end Expression

end VirtualTree
