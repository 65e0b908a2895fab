import VirtualTree.Expression.Direct
import VirtualTree.Proofs.Expression.Isolation

/-!
# Polling and direct evaluation

A cursor that is polled to its end gives what direct evaluation gives.  `Cursor.remainder` is what a
cursor still yields, said directly; a step that shows nothing leaves it as it is, and a step that
shows a chunk takes the chunk off its front (`remainder_advance`).  So the chunks that the driver
collects are the whole, unless it meets more waiting polls in a row than it answers
(`evaluate_eq_direct`).
-/

namespace VirtualTree

/-! ## Computations of an evaluation, one after the other -/

namespace Evaluate

variable {α β : Type} {m m' : Evaluate α} {o : Options} {s s' : Evaluation}

theorem bind_run (m : Evaluate α) (f : α → Evaluate β) (o : Options) (s : Evaluation) :
    (m >>= f) o s = match m o s with
      | .ok a s' => f a o s'
      | .error e s' => .error e s' := by
  show (m o >>= fun a => f a o) s = _
  rw [bind_apply]
  cases m o s <;> rfl

theorem bind_of_ok {a : α} (h : m o s = .ok a s') (f : α → Evaluate β) :
    (m >>= f) o s = f a o s' := by
  rw [bind_run, h]

theorem bind_of_error {e : Error} (h : m o s = .error e s') (f : α → Evaluate β) :
    (m >>= f) o s = .error e s' := by
  rw [bind_run, h]

theorem bind_of_eq (h : m o s = m' o s') (f : α → Evaluate β) :
    (m >>= f) o s = (m' >>= f) o s' := by
  rw [bind_run, bind_run, h]

end Evaluate

namespace Yield

theorem items_append (x y : Yield) : (x ++ y).items = x.items ++ y.items := rfl

theorem updates_append (x y : Yield) : (x ++ y).updates = x.updates ++ y.updates := rfl

theorem empty_append (y : Yield) : empty ++ y = y := rfl

theorem append_empty (y : Yield) : y ++ empty = y :=
  congrArg₂ mk (List.append_nil _) (List.append_nil _)

theorem append_assoc (x y z : Yield) : x ++ y ++ z = x ++ (y ++ z) :=
  congrArg₂ mk (List.append_assoc _ _ _) (List.append_assoc _ _ _)

/-- A yield that a chunk stands before. -/
def before (chunk : Yield) (m : Evaluate Yield) : Evaluate Yield := do return chunk ++ (← m)

theorem empty_before (m : Evaluate Yield) : empty.before m = m := by
  simp only [before, empty_append, bind_pure]

end Yield

/-! ## Checks of modifications -/

namespace Copies

theorem check_created (c : CopyClause) (f : Forest) (u : Update Pointer) :
    check c.created f u = match c.updateRefusal? f u with
      | some e => .error e
      | none => .ok () := by
  obtain ⟨⟨node, graft⟩, action⟩ := u
  have covers (id : NodeId) : (∃ a ∈ c.created, a ∈ f.document.ancestorsOrSelf id) ↔
      c.Covers f.document ⟨.real id, graft⟩ :=
    exists_congr fun a => And.comm
  cases action with
  | put uri => cases node <;> rfl
  | _ =>
    cases node with
    | silhouette id => rfl
    | real id =>
      simp only [check, CopyClause.updateRefusal?, covers]
      split <;> rfl

theorem forM_check_created (c : CopyClause) (f : Forest) (updates : List (Update Pointer)) :
    updates.forM (check c.created f) = match updates.findSome? (c.updateRefusal? f) with
      | some e => .error e
      | none => .ok () := by
  induction updates with
  | nil => rfl
  | cons u us ih =>
    show (check c.created f u >>= fun _ => us.forM (check c.created f)) = _
    rw [ih, check_created, List.findSome?_cons]
    cases c.updateRefusal? f u <;> rfl

theorem modify_created (c : CopyClause) (updates : List (Update Pointer)) :
    modify c.created updates = c.modifyCopies updates := by
  funext o e
  rw [CopyClause.modifyCopies_apply, modify, Evaluate.bind_run, Evaluate.navigate,
    forM_check_created]
  cases updates.findSome? (c.updateRefusal? e.toForest) <;> rfl

/-- Only which nodes are copies counts, and not their order. -/
theorem modify_congr {nodes nodes' : List NodeId} (h : ∀ n, n ∈ nodes ↔ n ∈ nodes')
    (updates : List (Update Pointer)) : modify nodes updates = modify nodes' updates := by
  have same : check nodes = check nodes' := by
    funext f u
    simp only [check, h]
  simp only [modify, same]

end Copies

/-! ## What a cursor still yields -/

/-- What a copy expression still yields after the source at hand. -/
def CopyClause.remainder (c : CopyClause) : Evaluate Yield := do
  let made ← Expression.directCopies c.remaining c.scope
  let modification ← c.modify.direct made.scope
  Copies.modify (c.created ++ made.nodes) modification.updates
  let yield ← c.result.direct made.scope
  return ⟨yield.items, yield.updates ++ (c.sourceUpdates ++ made.updates)⟩

/-- What a cursor still yields. -/
def Cursor.remainder : Cursor → Evaluate Yield
  | .finished => pure .empty
  | .calling _ body scope => body scope
  | .referring value => do return ⟨← Evaluate.navigate fun _ => value, []⟩
  | .sequencing current rest scope => do
    let yield ← current.remainder
    return yield ++ (← Expression.directAll rest scope)
  | .copying name source sofar clause => do
    let yield ← source.remainder
    (← clause.bindCopy name (sofar ++ yield)).remainder
  | .modifying current updates clause => do
    let modification ← current.remainder
    Copies.modify clause.created (updates ++ modification.updates)
    let yield ← clause.result.direct clause.scope
    return ⟨yield.items, yield.updates ++ clause.sourceUpdates⟩
  | .returning current sofar sourceUpdates => do
    let yield ← current.remainder
    return ⟨sofar.items ++ yield.items, sofar.updates ++ yield.updates ++ sourceUpdates⟩

namespace CopyClause

variable {c : CopyClause}

theorem remainder_of_nil (h : c.remaining = []) : c.remainder = do
    let modification ← c.modify.direct c.scope
    Copies.modify c.created modification.updates
    let yield ← c.result.direct c.scope
    return ⟨yield.items, yield.updates ++ c.sourceUpdates⟩ := by
  simp only [remainder, h, Expression.directCopies, pure_bind, List.append_nil]

theorem remainder_of_cons {name : ExpandedName} {source : Expression}
    {rest : List (ExpandedName × Expression)} (h : c.remaining = (name, source) :: rest) :
    c.remainder = source.direct c.scope >>= fun yield =>
      bindCopy { c with remaining := rest } name yield >>= remainder := by
  simp only [remainder, h, Expression.directCopies, bind_assoc]
  refine bind_congr fun yield => ?_
  obtain ⟨items, updates⟩ := yield
  match items with
  | [.node p] =>
    simp only [bindCopy, bind_assoc, pure_bind]
    refine bind_congr fun copy => bind_congr fun made => bind_congr fun modification => ?_
    have same : ∀ n, n ∈ c.created ++ copy :: made.nodes ↔ n ∈ copy :: c.created ++ made.nodes := by
      simp [or_left_comm]
    rw [Copies.modify_congr same, List.append_assoc]
  | [] | [.atomic _] | .node _ :: _ :: _ | .atomic _ :: _ :: _ => rfl

end CopyClause

/-- A started cursor yields what the expression yields. -/
theorem Expression.remainder_start (scope : Scope) (e : Expression) :
    (e.start scope).remainder = e.direct scope := by
  fun_induction start scope e with
  | case1 name => rfl
  | case2 pending body => rfl
  | case3 => rfl
  | case4 e rest ih =>
    rw [Cursor.remainder, ih]
    rfl
  | case5 modify result ih =>
    rw [Cursor.remainder, ih, direct, directCopies]
    simp only [pure_bind, List.nil_append, List.append_nil]
  | case6 name source rest modify result ih =>
    rw [Cursor.remainder, ih]
    simp only [Yield.empty_append]
    have clause := CopyClause.remainder_of_cons
      (c := ⟨(name, source) :: rest, modify, result, scope, [], []⟩) rfl
    rw [direct, ← clause]
    simp only [CopyClause.remainder, List.nil_append]

/-- What a step shows, and what the cursor yields after it, make up the yield from before. -/
def Signal.Explains (o : Options) (whole : EStateM.Result Error Evaluation Yield) :
    Signal × Cursor × Evaluation → Prop
  | (.silent, c, s) | (.pending, c, s) => whole = c.remainder o s
  | (.ready chunk, c, s) => whole = chunk.before c.remainder o s
  | (.failed e, _, s) => whole = .error e s
  | (.done, _, s) => whole = .ok .empty s

/-- Nothing is lost between two sources, or before the updates of the copies. -/
theorem CopyClause.remainder_next (c : CopyClause) : c.next.remainder = c.remainder := by
  unfold next
  split
  · rename_i h
    rw [Cursor.remainder, Expression.remainder_start, remainder_of_nil h]
    simp only [List.nil_append]
  · rename_i name source rest h
    rw [Cursor.remainder, Expression.remainder_start, remainder_of_cons h]
    simp only [Yield.empty_append]

namespace Cursor

section Step

variable {o : Options} {s : Evaluation} {current : Cursor}

/-- The yield of an operand is followed by those of the operands after it. -/
theorem remainder_sequencing (rest : List Expression) (scope : Scope)
    (step : Signal.Explains o (current.remainder o s) (current.advance o s)) :
    Signal.Explains o ((sequencing current rest scope).remainder o s)
      ((sequencing current rest scope).advance o s) := by
  rcases h : current.advance o s with ⟨signal, c', s'⟩
  rw [h] at step
  simp only [advance, h]
  cases signal with
  | silent | pending => exact Evaluate.bind_of_eq step _
  | ready chunk =>
    refine (Evaluate.bind_of_eq step _).trans ?_
    simp only [Yield.before, remainder, bind_assoc, pure_bind, Yield.append_assoc]
  | failed e => exact Evaluate.bind_of_error step _
  | done =>
    have others : (sequencing current rest scope).remainder o s =
        Expression.directAll rest scope o s' := by
      refine (Evaluate.bind_of_ok step _).trans ?_
      simp only [Yield.empty_append, bind_pure]
    cases rest with
    | nil => exact others
    | cons e rest =>
      refine others.trans ?_
      rw [remainder, Expression.remainder_start, Expression.directAll]

/-- A source is collected before it is copied and bound. -/
theorem remainder_copying (name : ExpandedName) (sofar : Yield) (clause : CopyClause)
    (step : Signal.Explains o (current.remainder o s) (current.advance o s)) :
    Signal.Explains o ((copying name current sofar clause).remainder o s)
      ((copying name current sofar clause).advance o s) := by
  rcases h : current.advance o s with ⟨signal, c', s'⟩
  rw [h] at step
  simp only [advance, h]
  cases signal with
  | silent | pending => exact Evaluate.bind_of_eq step _
  | ready chunk =>
    refine (Evaluate.bind_of_eq step _).trans ?_
    simp only [Yield.before, remainder, bind_assoc, pure_bind, Yield.append_assoc]
  | failed e => exact Evaluate.bind_of_error step _
  | done =>
    have copied : (copying name current sofar clause).remainder o s =
        (clause.bindCopy name sofar >>= CopyClause.remainder) o s' := by
      refine (Evaluate.bind_of_ok step _).trans ?_
      rw [Yield.append_empty]
    rw [copied]
    simp only
    cases bound : clause.bindCopy name sofar o s' with
    | ok clause' s'' =>
      refine (Evaluate.bind_of_ok bound _).trans ?_
      rw [clause'.remainder_next]
    | error e s'' => exact Evaluate.bind_of_error bound _

/-- The updates of a modification are collected before they are made. -/
theorem remainder_modifying (updates : List (Update Pointer)) (clause : CopyClause)
    (step : Signal.Explains o (current.remainder o s) (current.advance o s)) :
    Signal.Explains o ((modifying current updates clause).remainder o s)
      ((modifying current updates clause).advance o s) := by
  rcases h : current.advance o s with ⟨signal, c', s'⟩
  rw [h] at step
  simp only [advance, h]
  cases signal with
  | silent | pending => exact Evaluate.bind_of_eq step _
  | ready chunk =>
    refine (Evaluate.bind_of_eq step _).trans ?_
    simp only [Yield.before, remainder, bind_assoc, pure_bind, Yield.updates_append,
      List.append_assoc]
  | failed e => exact Evaluate.bind_of_error step _
  | done =>
    have collected : (modifying current updates clause).remainder o s =
        (clause.modifyCopies updates >>= fun _ => do
          let yield ← clause.result.direct clause.scope
          return ⟨yield.items, yield.updates ++ clause.sourceUpdates⟩ : Evaluate Yield) o s' := by
      refine (Evaluate.bind_of_ok step _).trans ?_
      rw [← Copies.modify_created]
      simp only [Yield.empty, List.append_nil]
    rw [collected]
    simp only
    cases modified : clause.modifyCopies updates o s' with
    | ok _ s'' =>
      refine (Evaluate.bind_of_ok modified _).trans ?_
      rw [remainder, Expression.remainder_start]
      rfl
    | error e s'' => exact Evaluate.bind_of_error modified _

/-- A result is collected before it is shown with the updates of the sources. -/
theorem remainder_returning (sofar : Yield) (sourceUpdates : List (Update Pointer))
    (step : Signal.Explains o (current.remainder o s) (current.advance o s)) :
    Signal.Explains o ((returning current sofar sourceUpdates).remainder o s)
      ((returning current sofar sourceUpdates).advance o s) := by
  rcases h : current.advance o s with ⟨signal, c', s'⟩
  rw [h] at step
  simp only [advance, h]
  cases signal with
  | silent | pending => exact Evaluate.bind_of_eq step _
  | ready chunk =>
    refine (Evaluate.bind_of_eq step _).trans ?_
    simp only [Yield.before, remainder, bind_assoc, pure_bind, Yield.items_append,
      Yield.updates_append, List.append_assoc]
  | failed e => exact Evaluate.bind_of_error step _
  | done =>
    refine (Evaluate.bind_of_ok step _).trans ?_
    simp only [Yield.empty, List.append_nil]
    exact congrArg (EStateM.Result.ok · s') (Yield.append_empty _).symm

end Step

/-- What a step shows, and what is yielded after it, make up the yield from before it. -/
theorem remainder_advance (o : Options) (c : Cursor) (s : Evaluation) :
    Signal.Explains o (c.remainder o s) (c.advance o s) := by
  induction c generalizing s with
  | finished => rfl
  | calling pending body scope =>
    cases pending with
    | succ n => rfl
    | zero =>
      simp only [advance, remainder]
      cases h : body scope o s with
      | ok chunk s' => exact congrArg (EStateM.Result.ok · s') chunk.append_empty.symm
      | error e s' => rfl
  | referring value =>
    cases value with
    | ok items => exact congrArg (EStateM.Result.ok · s) (Yield.append_empty _).symm
    | error e => rfl
  | sequencing current rest scope ih => exact remainder_sequencing rest scope (ih s)
  | copying name source sofar clause ih => exact remainder_copying name sofar clause (ih s)
  | modifying current updates clause ih => exact remainder_modifying updates clause (ih s)
  | returning current sofar sourceUpdates ih => exact remainder_returning sofar sourceUpdates (ih s)

end Cursor

/-! ## Polls -/

/-- What a poll gives, and what the cursor yields after it, make up the yield from before. -/
def Outcome.Explains (o : Options) (whole : EStateM.Result Error Evaluation Yield) :
    Outcome × Cursor × Evaluation → Prop
  | (.pending, c, s) => whole = c.remainder o s
  | (.ready chunk, c, s) => whole = chunk.before c.remainder o s
  | (.failed e, _, s) => whole = .error e s
  | (.done, _, s) => whole = .ok .empty s

/-- The evaluation ends with this outcome. -/
def Outcome.IsLast : Outcome → Prop
  | .failed _ | .done => True
  | .pending | .ready _ => False

namespace Cursor

variable {o : Options} {c : Cursor} {s : Evaluation}

theorem remainder_poll (o : Options) (c : Cursor) (s : Evaluation) :
    Outcome.Explains o (c.remainder o s) (c.poll o s) := by
  fun_induction poll o c s with
  | case1 c s c' s' h ih =>
    have step := remainder_advance o c s
    rw [h] at step
    exact step.symm ▸ ih
  | case2 c s c' s' h | case3 c s _ c' s' h | case4 c s _ c' s' h | case5 c s c' s' h =>
    have step := remainder_advance o c s
    rw [h] at step
    exact step

theorem polls_succ (n : ℕ) : c.polls o (n + 1) s =
    ((c.poll o s).1 :: ((c.poll o s).2.1.polls o n (c.poll o s).2.2).1,
      ((c.poll o s).2.1.polls o n (c.poll o s).2.2).2) := rfl

/-- Before the evaluation ends, the driver meets more waiting polls in a row than it answers. -/
def Stalls (o : Options) (c : Cursor) (s : Evaluation) : Prop :=
  ∃ limit, o.maxPendingPolls = some limit ∧ ∃ n before,
    (c.polls o n s).1 = before ++ List.replicate (limit + 1) .pending ∧ ∀ x ∈ before, ¬ x.IsLast

/-- The same of a driver that has counted some waiting polls already. -/
def Overdue (o : Options) (waits : ℕ) (c : Cursor) (s : Evaluation) : Prop :=
  ∃ limit, o.maxPendingPolls = some limit ∧ ∃ n before,
    List.replicate waits .pending ++ (c.polls o n s).1 =
      before ++ List.replicate (limit + 1) .pending ∧ ∀ x ∈ before, ¬ x.IsLast

theorem overdue_of_pending {waits : ℕ} {c' : Cursor} {s' : Evaluation}
    (run : c.poll o s = (.pending, c', s')) (later : c'.Overdue o (waits + 1) s') :
    c.Overdue o waits s := by
  obtain ⟨limit, ho, n, before, shown, ongoing⟩ := later
  refine ⟨limit, ho, n + 1, before, ?_, ongoing⟩
  rw [polls_succ, run, ← shown, List.replicate_succ', List.append_assoc]
  rfl

theorem overdue_of_ready {waits : ℕ} {chunk : Yield} {c' : Cursor} {s' : Evaluation}
    (run : c.poll o s = (.ready chunk, c', s')) (later : c'.Overdue o 0 s') :
    c.Overdue o waits s := by
  obtain ⟨limit, ho, n, before, shown, ongoing⟩ := later
  refine ⟨limit, ho, n + 1, List.replicate waits .pending ++ .ready chunk :: before, ?_, ?_⟩
  · rw [polls_succ, run, List.append_assoc, List.cons_append, ← shown]
    rfl
  · intro x hx
    rcases List.mem_append.1 hx with hx | hx
    · rw [List.eq_of_mem_replicate hx]
      exact id
    · rcases List.mem_cons.1 hx with rfl | hx
      · exact id
      · exact ongoing x hx

theorem overdue_of_late {waits limit : ℕ} {c' : Cursor} {s' : Evaluation}
    (run : c.poll o s = (.pending, c', s')) (limited : o.maxPendingPolls = some limit)
    (late : limit < waits + 1) : c.Overdue o waits s := by
  refine ⟨limit, limited, 1, List.replicate (waits - limit) .pending, ?_, fun x hx => ?_⟩
  · rw [polls_succ, run]
    show List.replicate waits Outcome.pending ++ List.replicate 1 Outcome.pending = _
    rw [List.replicate_append_replicate, List.replicate_append_replicate]
    congr 1
    omega
  · rw [List.eq_of_mem_replicate hx]
    exact id

/-- A driver that never waits too long collects what the cursor yields. -/
theorem drive_of_not_overdue {waits : ℕ} {sofar : Yield} (h : ¬ c.Overdue o waits s) :
    c.drive waits sofar o s = sofar.before c.remainder o s := by
  fun_induction drive c waits sofar o s with
  | case1 c waits sofar s c' s' run =>
    have step := remainder_poll o c s
    rw [run] at step
    rw [Yield.before, Evaluate.bind_of_ok step, Yield.append_empty]
    rfl
  | case2 c waits sofar s e c' s' run =>
    have step := remainder_poll o c s
    rw [run] at step
    exact (Evaluate.bind_of_error step _).symm
  | case3 c waits sofar s chunk c' s' run ih =>
    have step := remainder_poll o c s
    rw [run] at step
    rw [ih fun later => h (overdue_of_ready run later), Yield.before, Yield.before,
      Evaluate.bind_of_eq step, Yield.before]
    simp only [bind_assoc, pure_bind, Yield.append_assoc]
  | case4 c waits sofar s c' s' run unlimited ih
  | case6 c waits sofar s c' s' run limit limited patient ih =>
    have step := remainder_poll o c s
    rw [run] at step
    rw [ih fun later => h (overdue_of_pending run later)]
    exact (Evaluate.bind_of_eq step _).symm
  | case5 c waits sofar s c' s' run limit limited late =>
    exact absurd (overdue_of_late run limited late) h

/-- What a driver that will have waited too long sees next. -/
theorem Overdue.poll {waits limit : ℕ} (h : c.Overdue o waits s)
    (limited : o.maxPendingPolls = some limit) (patient : waits ≤ limit) :
    match c.poll o s with
    | (.pending, c', s') => c'.Overdue o (waits + 1) s'
    | (.ready _, c', s') => c'.Overdue o 0 s'
    | _ => False := by
  obtain ⟨limit', limited', n, before, shown, ongoing⟩ := h
  obtain rfl : limit' = limit := Option.some.inj (limited'.symm.trans limited)
  cases n with
  | zero =>
    have short := congrArg List.length shown
    simp only [polls, List.append_nil, List.length_append, List.length_replicate] at short
    omega
  | succ n =>
    rcases run : c.poll o s with ⟨outcome, c', s'⟩
    rw [polls_succ, run] at shown
    dsimp only at shown
    have mem : outcome ∈ before ∨ outcome = .pending := by
      have : outcome ∈ before ++ List.replicate (limit' + 1) Outcome.pending := by
        rw [← shown]
        exact List.mem_append_right _ List.mem_cons_self
      exact (List.mem_append.1 this).imp_right List.eq_of_mem_replicate
    cases outcome with
    | pending =>
      refine ⟨limit', limited, n, before, ?_, ongoing⟩
      rw [← shown, List.replicate_succ', List.append_assoc]
      rfl
    | ready chunk =>
      refine ⟨limit', limited, n, ?_⟩
      rcases List.append_eq_append_iff.1 shown with ⟨between, rfl, eq⟩ | ⟨between, -, eq⟩
      · cases between with
        | nil => cases eq
        | cons _ after =>
          obtain ⟨rfl, rest⟩ := List.cons.inj eq
          refine ⟨after, rest, fun x hx => ongoing x ?_⟩
          exact List.mem_append_right _ (List.mem_cons_of_mem _ hx)
      · have mem : Outcome.ready chunk ∈ List.replicate (limit' + 1) Outcome.pending := by
          rw [eq]
          exact List.mem_append_right _ List.mem_cons_self
        cases List.eq_of_mem_replicate mem
    | failed e | done =>
      rcases mem with mem | mem
      · exact ongoing _ mem trivial
      · cases mem

/-- A driver that waits too long gives up. -/
theorem drive_of_overdue {waits limit : ℕ} {sofar : Yield} (h : c.Overdue o waits s)
    (limited : o.maxPendingPolls = some limit) (patient : waits ≤ limit) :
    ∃ s', c.drive waits sofar o s = .error (.stalled limit) s' := by
  fun_induction drive c waits sofar o s with
  | case1 c waits sofar s c' s' run | case2 c waits sofar s e c' s' run =>
    have next := h.poll limited patient
    rw [run] at next
    exact next.elim
  | case3 c waits sofar s chunk c' s' run ih =>
    have next := h.poll limited patient
    rw [run] at next
    exact ih next (Nat.zero_le limit)
  | case4 c waits sofar s c' s' run unlimited ih =>
    rw [unlimited] at limited
    cases limited
  | case5 c waits sofar s c' s' run limit' limited' late =>
    obtain rfl : limit' = limit := Option.some.inj (limited'.symm.trans limited)
    exact ⟨s', rfl⟩
  | case6 c waits sofar s c' s' run limit' limited' patient' ih =>
    obtain rfl : limit' = limit := Option.some.inj (limited'.symm.trans limited)
    have next := h.poll limited patient
    rw [run] at next
    exact ih next (Nat.not_lt.1 patient')

end Cursor

/-! ## Evaluations -/

namespace Expression

mutual

/-- Direct evaluation does not wait. -/
theorem direct_prompt (scope : Scope) : (x : Expression) → x.prompt.direct scope = x.direct scope
  | .reference _ => rfl
  | .call _ _ => rfl
  | .sequence operands => directAll_prompt scope operands
  | .transform copies modify result => by
    rw [prompt, direct, direct, directCopies_prompt scope copies]
    refine bind_congr fun made => ?_
    rw [direct_prompt made.scope modify, direct_prompt made.scope result]

theorem directAll_prompt (scope : Scope) :
    (xs : List Expression) → directAll (promptAll xs) scope = directAll xs scope
  | [] => rfl
  | x :: xs => by
    rw [promptAll, directAll, directAll, direct_prompt scope x, directAll_prompt scope xs]

theorem directCopies_prompt (scope : Scope) : (copies : List (ExpandedName × Expression)) →
    directCopies (promptCopies copies) scope = directCopies copies scope
  | [] => rfl
  | (name, source) :: rest => by
    rw [promptCopies, directCopies, directCopies, direct_prompt scope source]
    refine bind_congr fun yield => ?_
    split
    · refine bind_congr fun copy => ?_
      rw [directCopies_prompt _ rest]
    · rfl

end

/-- An evaluation gives what direct evaluation gives, answer, failure and state alike, unless the
driver waits too long and gives up; so how often functions wait makes no other difference. -/
theorem evaluate_eq_direct (x : Expression) (scope : Scope) (o : Options) (s : Evaluation) :
    ((x.start scope).Stalls o s → ∃ limit s', o.maxPendingPolls = some limit ∧
      x.evaluate scope o s = .error (.stalled limit) s') ∧
    (¬ (x.start scope).Stalls o s → x.evaluate scope o s = x.direct scope o s ∧
      ∀ y : Expression, y.prompt = x.prompt → ¬ (y.start scope).Stalls o s →
        y.evaluate scope o s = x.evaluate scope o s) := by
  have evaluated : ∀ y : Expression, ¬ (y.start scope).Stalls o s →
      y.evaluate scope o s = y.direct scope o s := by
    intro y patient
    have driven : (y.start scope).drive 0 .empty o s =
        Yield.empty.before (y.start scope).remainder o s := Cursor.drive_of_not_overdue patient
    rw [evaluate, driven, Yield.empty_before, remainder_start]
  constructor
  · intro stalls
    obtain ⟨limit, limited, -⟩ := id stalls
    obtain ⟨s', run⟩ : ∃ s', (x.start scope).drive 0 .empty o s = .error (.stalled limit) s' :=
      Cursor.drive_of_overdue stalls limited (Nat.zero_le limit)
    exact ⟨limit, s', limited, run⟩
  · intro patient
    refine ⟨evaluated x patient, fun y same patient' => ?_⟩
    rw [evaluated x patient, evaluated y patient', ← direct_prompt, ← direct_prompt scope x, same]

/-- A copy is made and renamed by parts that wait four times in a row, which is just not too often;
without waiting the yield is the same. -/
theorem evaluate_eq_direct_of_waiting_copy :
    let s := Evaluation.start (.holding (.node (.element (.unqualified "e")) [] []))
    let o : Options := { maxPendingPolls := some 4 }
    let copied : ExpandedName := ⟨none, "c"⟩
    let x : Expression := .sequence [.transform
      [(copied, .call 2 fun _ => pure ⟨[.node (.real ⟨0⟩)], []⟩)]
      (.call 1 fun _ => pure ⟨[], [⟨.real ⟨1⟩, .rename (.unqualified "f")⟩]⟩)
      (.sequence [.reference copied, .call 1 fun _ => pure ⟨[], [⟨.real ⟨0⟩, .delete⟩]⟩])]
    ¬ (x.start .empty).Stalls o s ∧ ¬ (x.prompt.start .empty).Stalls o s ∧
      x.evaluate .empty o s = x.direct .empty o s ∧
      x.prompt.evaluate .empty o s = x.evaluate .empty o s := by
  intro s o copied x
  have answers (y : Expression) (ok : succeeds (y.evaluate .empty o s)) :
      ¬ (y.start .empty).Stalls o s := by
    intro stalls
    obtain ⟨limit, s', -, run⟩ := (evaluate_eq_direct y .empty o s).1 stalls
    rw [run] at ok
    cases ok
  have patient := answers x (by decide +kernel)
  have patient' := answers x.prompt (by decide +kernel)
  have both := (evaluate_eq_direct x .empty o s).2 patient
  exact ⟨patient, patient', both.1, both.2 x.prompt rfl patient'⟩

end Expression

end VirtualTree
