import Mathlib.Data.List.Infix
import VirtualTree.Proofs.Expression.Failure
import VirtualTree.Proofs.Keeps

/-!
# Nothing runs twice

What an expression has to do is a list of tasks, in the order of their places in the expression: the
calls of its functions, and, for each copy expression, the copies, the modification and the one chunk
that it gives.  A cursor has a rest of this list still before it.  A step of the cursor does the first
of these tasks or none, and may drop others after a failure; it never puts one back.  So in any run of
polls every task is done at most once, whatever the polls give and whatever happens between them
(`nothing_runs_twice`).
-/

namespace VirtualTree

/-! ## Tasks -/

/-- Something that is to be done once, at a place of an expression. -/
inductive Task where
  /-- A function is called. -/
  | call (body : Body)
  /-- A source is copied, and the copy is bound. -/
  | copy (name : ExpandedName)
  /-- The updates of the copies are made. -/
  | modify
  /-- A copy expression gives its result. -/
  | yield

mutual

/-- What an expression has to do. -/
def Expression.tasks : Expression → List Task
  | .reference _ => []
  | .call _ body => [.call body]
  | .sequence operands => Expression.tasksAll operands
  | .transform copies modify result =>
    Expression.tasksCopies copies ++ (modify.tasks ++ .modify :: (result.tasks ++ [.yield]))

/-- What expressions that follow one another have to do. -/
def Expression.tasksAll : List Expression → List Task
  | [] => []
  | e :: rest => e.tasks ++ Expression.tasksAll rest

/-- What is to be done for copies. -/
def Expression.tasksCopies : List (ExpandedName × Expression) → List Task
  | [] => []
  | (name, source) :: rest => source.tasks ++ .copy name :: Expression.tasksCopies rest

end

/-- What a copy expression still has to do after the source at hand. -/
def CopyClause.tasks (c : CopyClause) : List Task :=
  Expression.tasksCopies c.remaining ++ (c.modify.tasks ++ .modify :: (c.result.tasks ++ [.yield]))

/-- What a cursor still has to do. -/
def Cursor.tasks : Cursor → List Task
  | .finished | .referring _ => []
  | .calling _ body _ => [.call body]
  | .sequencing current rest _ => current.tasks ++ Expression.tasksAll rest
  | .copying name source _ clause => source.tasks ++ .copy name :: clause.tasks
  | .modifying current _ clause => current.tasks ++ .modify :: (clause.result.tasks ++ [.yield])
  | .returning current _ _ => current.tasks ++ [.yield]

theorem Expression.tasks_start (scope : Scope) (e : Expression) :
    (e.start scope).tasks = e.tasks := by
  fun_induction start scope e with
  | case1 | case2 | case3 => rfl
  | case4 e rest ih => rw [Cursor.tasks, ih, tasks, tasksAll]
  | case5 modify result ih => rw [Cursor.tasks, ih, tasks, tasksCopies, List.nil_append]
  | case6 modify result name source rest ih =>
    simp only [Cursor.tasks, CopyClause.tasks, ih, tasks, tasksCopies, List.append_assoc,
      List.cons_append]

namespace CopyClause

theorem tasks_next (c : CopyClause) : c.next.tasks = c.tasks := by
  unfold next
  split
  · rename_i h
    simp only [Cursor.tasks, Expression.tasks_start, tasks, h, Expression.tasksCopies,
      List.nil_append]
  · rename_i name source rest h
    simp only [Cursor.tasks, Expression.tasks_start, tasks, h, Expression.tasksCopies,
      List.append_assoc, List.cons_append]

theorem tasks_bindCopy {c c' : CopyClause} {name : ExpandedName} {source : Yield} {o : Options}
    {s s' : Evaluation} (h : c.bindCopy name source o s = .ok c' s') : c'.tasks = c.tasks := by
  obtain ⟨items, updates⟩ := source
  match items with
  | [.node p] =>
    simp only [bindCopy, bind, ReaderT.bind, EStateM.bind] at h
    split at h <;> cases h
    rfl
  | [] | [.atomic _] | .node _ :: _ :: _ | .atomic _ :: _ :: _ => cases h

end CopyClause

/-! ## Events -/

/-- A task that is done, with what it is done on. -/
inductive Event where
  /-- A function is called in a scope. -/
  | call (body : Body) (scope : Scope)
  /-- What a source yielded is copied and bound. -/
  | copy (clause : CopyClause) (name : ExpandedName) (source : Yield)
  /-- Updates of the copies are checked and made. -/
  | modify (clause : CopyClause) (updates : List (Update Pointer))
  /-- A copy expression gives its result. -/
  | yield (chunk : Yield)

namespace Event

/-- The task that is done. -/
def task : Event → Task
  | call body _ => .call body
  | copy _ name _ => .copy name
  | modify _ _ => .modify
  | yield _ => .yield

/-- What an event makes of the evaluation, be it successful or not. -/
def run (o : Options) (s : Evaluation) : Event → Evaluation
  | call body scope => endState (body scope o s)
  | copy clause name source => endState (clause.bindCopy name source o s)
  | modify clause updates => endState (clause.modifyCopies updates o s)
  | yield _ => s

/-- What events one after the other make of the evaluation. -/
def runAll (o : Options) (s : Evaluation) (events : List Event) : Evaluation :=
  events.foldl (run o) s

theorem runAll_append (o : Options) (s : Evaluation) (events later : List Event) :
    runAll o s (events ++ later) = runAll o (runAll o s events) later := List.foldl_append

end Event

namespace Cursor

variable {o : Options} {c c' : Cursor} {s s' : Evaluation}

/-- What the next step of a cursor does.  Each call that `advance` makes of a function, of
`bindCopy` and of `modifyCopies` is here, and so is each result of a copy expression. -/
def events (o : Options) : Cursor → Evaluation → List Event
  | .finished, _ | .calling (_ + 1) _ _, _ | .referring _, _ => []
  | .calling 0 body scope, _ => [.call body scope]
  | .sequencing current _ _, s => current.events o s
  | .copying name source sofar clause, s =>
    source.events o s ++
      match source.advance o s with
      | (.done, _, _) => [.copy clause name sofar]
      | _ => []
  | .modifying current updates clause, s =>
    current.events o s ++
      match current.advance o s with
      | (.done, _, _) => [.modify clause updates]
      | _ => []
  | .returning current sofar sourceUpdates, s =>
    current.events o s ++
      match current.advance o s with
      | (.done, _, _) => [.yield ⟨sofar.items, sofar.updates ++ sourceUpdates⟩]
      | _ => []

/-- Only a cursor with nothing left to do says so. -/
theorem eq_finished_of_done (h : c.advance o s = (.done, c', s')) :
    c = .finished ∧ c' = .finished ∧ s' = s := by
  cases c with
  | finished =>
    cases h
    exact ⟨rfl, rfl, rfl⟩
  | calling pending body scope =>
    cases pending with
    | succ n => cases h
    | zero =>
      rw [advance] at h
      split at h <;> cases h
  | referring value => cases value <;> cases h
  | sequencing current rest scope =>
    rw [advance] at h
    split at h
    · split at h <;> cases h
    · rename_i notDone _
      cases h
      exact (notDone rfl).elim
  | copying name source sofar clause =>
    rw [advance] at h
    split at h
    · cases h
    · split at h <;> cases h
    · rename_i notDone _
      cases h
      exact (notDone rfl).elim
  | modifying current updates clause =>
    rw [advance] at h
    split at h
    · cases h
    · split at h <;> cases h
    · rename_i notDone _
      cases h
      exact (notDone rfl).elim
  | returning current sofar sourceUpdates =>
    rw [advance] at h
    split at h
    · cases h
    · cases h
    · rename_i notDone _
      cases h
      exact (notDone rfl).elim

/-- All that a step makes of the evaluation are its events. -/
theorem runAll_events (o : Options) (c : Cursor) (s : Evaluation) :
    Event.runAll o s (c.events o s) = (c.advance o s).2.2 := by
  induction c generalizing s with
  | finished => rfl
  | calling pending body scope =>
    cases pending with
    | succ n => rfl
    | zero =>
      show endState (body scope o s) = _
      rw [advance]
      cases body scope o s <;> rfl
  | referring value => cases value <;> rfl
  | sequencing current rest scope ih =>
    rw [events, ih, advance]
    rcases current.advance o s with ⟨signal, c', s'⟩
    cases signal <;> cases rest <;> rfl
  | copying name source sofar clause ih =>
    rw [events, Event.runAll_append, ih, advance]
    rcases source.advance o s with ⟨signal, c', s'⟩
    cases signal with
    | done =>
      show endState (clause.bindCopy name sofar o s') = _
      simp only
      cases clause.bindCopy name sofar o s' <;> rfl
    | _ => rfl
  | modifying current updates clause ih =>
    rw [events, Event.runAll_append, ih, advance]
    rcases current.advance o s with ⟨signal, c', s'⟩
    cases signal with
    | done =>
      show endState (clause.modifyCopies updates o s') = _
      simp only
      cases clause.modifyCopies updates o s' <;> rfl
    | _ => rfl
  | returning current sofar sourceUpdates ih =>
    rw [events, Event.runAll_append, ih, advance]
    rcases current.advance o s with ⟨signal, c', s'⟩
    cases signal <;> rfl

end Cursor

/-! ## One step -/

/-- Of the tasks the first is done or none, and a rest of the others is left. -/
inductive Does (tasks : List Task) : List Event → List Task → Prop
  /-- Nothing is done. -/
  | nothing {left : List Task} (kept : left <:+ tasks) : Does tasks [] left
  /-- The first task is done. -/
  | first (event : Event) {rest left : List Task} (task : tasks = event.task :: rest)
    (kept : left <:+ rest) : Does tasks [event] left

/-- Tasks that come later wait. -/
theorem Does.before {tasks left : List Task} {events : List Event} (h : Does tasks events left)
    (later : List Task) : Does (tasks ++ later) events (left ++ later) := by
  cases h with
  | nothing kept => exact .nothing (List.suffix_append_self_iff.2 kept)
  | first event task kept =>
    exact .first event (by rw [task, List.cons_append]) (List.suffix_append_self_iff.2 kept)

namespace Cursor

variable {o : Options} {c c' : Cursor} {s s' : Evaluation}

theorem does_advance (o : Options) (c : Cursor) (s : Evaluation) :
    Does c.tasks (c.events o s) (c.advance o s).2.1.tasks := by
  induction c generalizing s with
  | finished => exact .nothing List.suffix_rfl
  | calling pending body scope =>
    cases pending with
    | succ n => exact .nothing List.suffix_rfl
    | zero =>
      refine .first (.call body scope) rfl ?_
      rw [advance]
      split <;> exact List.suffix_rfl
  | referring value => cases value <;> exact .nothing List.suffix_rfl
  | sequencing current rest scope ih =>
    have step := (ih s).before (Expression.tasksAll rest)
    rw [events, advance]
    rcases run : current.advance o s with ⟨signal, c', s'⟩
    rw [run] at step
    cases signal with
    | done =>
      obtain ⟨rfl, -, -⟩ := eq_finished_of_done run
      cases rest with
      | nil => exact .nothing List.suffix_rfl
      | cons e rest =>
        refine .nothing ?_
        show (e.start scope).tasks ++ _ <:+ [] ++ (e.tasks ++ _)
        rw [Expression.tasks_start]
        exact List.suffix_rfl
    | _ => exact step
  | copying name source sofar clause ih =>
    have step := (ih s).before (.copy name :: clause.tasks)
    rw [events, advance]
    rcases run : source.advance o s with ⟨signal, c', s'⟩
    rw [run] at step
    cases signal with
    | done =>
      -- the source has nothing left to do, so the copy comes first now
      obtain ⟨rfl, -, -⟩ := eq_finished_of_done run
      refine .first (.copy clause name sofar) rfl ?_
      simp only
      cases bound : clause.bindCopy name sofar o s' with
      | ok clause' s'' =>
        simp only
        rw [clause'.tasks_next, CopyClause.tasks_bindCopy bound]
      | error e s'' => exact List.nil_suffix
    | _ =>
      rw [List.append_nil]
      exact step
  | modifying current updates clause ih =>
    have step := (ih s).before (.modify :: (clause.result.tasks ++ [.yield]))
    rw [events, advance]
    rcases run : current.advance o s with ⟨signal, c', s'⟩
    rw [run] at step
    cases signal with
    | done =>
      obtain ⟨rfl, -, -⟩ := eq_finished_of_done run
      refine .first (.modify clause updates) rfl ?_
      simp only
      cases clause.modifyCopies updates o s' with
      | ok _ s'' =>
        simp only [tasks, Expression.tasks_start]
        exact List.suffix_rfl
      | error e s'' => exact List.nil_suffix
    | _ =>
      rw [List.append_nil]
      exact step
  | returning current sofar sourceUpdates ih =>
    have step := (ih s).before [.yield]
    rw [events, advance]
    rcases run : current.advance o s with ⟨signal, c', s'⟩
    rw [run] at step
    cases signal with
    | done =>
      obtain ⟨rfl, -, -⟩ := eq_finished_of_done run
      exact .first (.yield _) rfl List.suffix_rfl
    | _ =>
      rw [List.append_nil]
      exact step

end Cursor

/-! ## Positions -/

/-- The events of a log stand at positions from `p` on and below `q`, each behind the one before, and
at each position there is the task that the event does. -/
structure Numbered (all : List Task) (p : ℕ) (log : List (ℕ × Event)) (q : ℕ) : Prop where
  le : p ≤ q
  within : ∀ n ∈ log, p ≤ n.1 ∧ n.1 < q
  ordered : log.Pairwise fun m n => m.1 < n.1
  tasks : ∀ n ∈ log, all[n.1]? = some n.2.task

namespace Numbered

variable {all : List Task} {p q r : ℕ} {log later : List (ℕ × Event)}

theorem nil (h : p ≤ q) : Numbered all p [] q :=
  ⟨h, fun _ mem => (List.not_mem_nil mem).elim, .nil, fun _ mem => (List.not_mem_nil mem).elim⟩

theorem append (h : Numbered all p log q) (h' : Numbered all q later r) :
    Numbered all p (log ++ later) r where
  le := h.le.trans h'.le
  within n mem := by
    rcases List.mem_append.1 mem with mem | mem
    · exact ⟨(h.within n mem).1, (h.within n mem).2.trans_le h'.le⟩
    · exact ⟨h.le.trans (h'.within n mem).1, (h'.within n mem).2⟩
  ordered := List.pairwise_append.2 ⟨h.ordered, h'.ordered, fun m hm n hn =>
    (h.within m hm).2.trans_le (h'.within n hn).1⟩
  tasks n mem := (List.mem_append.1 mem).elim (h.tasks n) (h'.tasks n)

end Numbered

namespace Cursor

variable {all : List Task} {o : Options} {c c' : Cursor} {s s' : Evaluation}

/-- The position of the next task of a cursor among all the tasks of its expression. -/
def position (all : List Task) (c : Cursor) : ℕ := all.length - c.tasks.length

/-- The events of a step with their positions. -/
def entries (all : List Task) (o : Options) (c : Cursor) (s : Evaluation) : List (ℕ × Event) :=
  (c.events o s).map fun event => (c.position all, event)

/-- The events of a poll, from the first to the last, with their positions. -/
def log (all : List Task) (o : Options) (c : Cursor) (s : Evaluation) : List (ℕ × Event) :=
  match _h : c.advance o s with
  | (.silent, c', s') => c.entries all o s ++ log all o c' s'
  | _ => c.entries all o s
termination_by c.weight
decreasing_by
  have := weight_advance o c s
  rw [_h] at this
  simpa using this

theorem log_of_silent (h : c.advance o s = (.silent, c', s')) :
    c.log all o s = c.entries all o s ++ c'.log all o s' := by
  rw [log]
  split
  · rename_i run
    cases h.symm.trans run
    rfl
  · rename_i shown
    exact (shown _ _ h).elim

theorem log_of_shown {signal : Signal} (h : c.advance o s = (signal, c', s'))
    (shown : signal ≠ .silent) : c.log all o s = c.entries all o s := by
  rw [log]
  split
  · rename_i run
    cases h.symm.trans run
    exact absurd rfl shown
  · rfl

theorem numbered_advance (h : c.tasks <:+ all) :
    (c.advance o s).2.1.tasks <:+ all ∧ Numbered all (c.position all) (c.entries all o s)
      ((c.advance o s).2.1.position all) := by
  have step := does_advance o c s
  generalize (c.advance o s).2.1 = c' at step ⊢
  rw [entries, position, position]
  generalize c.events o s = events at step ⊢
  generalize c.tasks = tasks at h step ⊢
  generalize c'.tasks = left at step ⊢
  cases step with
  | nothing kept =>
    have := kept.length_le
    exact ⟨kept.trans h, .nil (by omega)⟩
  | @first event rest _ task kept =>
    subst task
    obtain ⟨front, rfl⟩ := h
    have := kept.length_le
    have place : (front ++ event.task :: rest).length - (event.task :: rest).length =
        front.length := by simp
    refine ⟨(kept.trans (List.suffix_cons ..)).trans (List.suffix_append ..), ?_⟩
    rw [place]
    refine ⟨?_, ?_, List.pairwise_singleton .., ?_⟩
    · simp only [List.length_append, List.length_cons]
      omega
    · rintro n (- | ⟨-, ⟨⟩⟩)
      simp only [List.length_append, List.length_cons]
      omega
    · rintro n (- | ⟨-, ⟨⟩⟩)
      simp

theorem numbered_poll (h : c.tasks <:+ all) :
    (c.poll o s).2.1.tasks <:+ all ∧ Numbered all (c.position all) (c.log all o s)
      ((c.poll o s).2.1.position all) := by
  fun_induction poll o c s with
  | case1 c s c' s' run ih =>
    have step := numbered_advance (o := o) (s := s) h
    rw [run] at step
    rw [log_of_silent run]
    exact ⟨(ih step.1).1, step.2.append (ih step.1).2⟩
  | case2 c s c' s' run | case3 c s _ c' s' run | case4 c s _ c' s' run | case5 c s c' s' run =>
    have step := numbered_advance (o := o) (s := s) h
    rw [run] at step
    rw [log_of_shown run (by simp)]
    exact step

/-- All that a poll makes of the evaluation are its events. -/
theorem runAll_log (all : List Task) (o : Options) (c : Cursor) (s : Evaluation) :
    Event.runAll o s ((c.log all o s).map Prod.snd) = (c.poll o s).2.2 := by
  have entries (c : Cursor) (s : Evaluation) :
      (c.entries all o s).map Prod.snd = c.events o s := by
    rw [entries, List.map_map]
    exact List.map_id _
  fun_induction poll o c s with
  | case1 c s c' s' run ih =>
    rw [log_of_silent run, List.map_append, Event.runAll_append, entries, runAll_events, run, ih]
  | case2 c s c' s' run | case3 c s _ c' s' run | case4 c s _ c' s' run | case5 c s c' s' run =>
    rw [log_of_shown run (by simp), entries, runAll_events, run]

/-- A poll that says that all is done leaves a cursor that has nothing left to do. -/
theorem finished_of_poll_done (h : (c.poll o s).1 = .done) : (c.poll o s).2.1 = .finished := by
  fun_induction poll o c s with
  | case1 c s c' s' run ih => exact ih h
  | case2 | case3 | case4 => cases h
  | case5 c s c' s' run => exact (eq_finished_of_done run).2.1

end Cursor

/-! ## Any number of polls -/

/-- A chunk is given. -/
def Outcome.isReady : Outcome → Bool
  | .ready _ => true
  | _ => false

/-- A poll: in which state, with which outcome, and what it did. -/
structure Visit where
  /-- The options of the evaluation. -/
  options : Options
  /-- The evaluation before the poll. -/
  before : Evaluation
  /-- What the poll gives. -/
  outcome : Outcome
  /-- The evaluation after the poll. -/
  after : Evaluation
  /-- The events of the poll with their positions. -/
  log : List (ℕ × Event)

namespace Cursor

variable {all : List Task} {c : Cursor}

/-- The polls of a cursor one after the other, each in a state of its own. -/
def visits (all : List Task) : List (Options × Evaluation) → Cursor → List Visit
  | [], _ => []
  | (o, s) :: rest, c =>
    ⟨o, s, (c.poll o s).1, (c.poll o s).2.2, c.log all o s⟩ :: visits all rest (c.poll o s).2.1

/-- The contexts of polls in a row, between which nothing happens. -/
def inRow (o : Options) : ℕ → Cursor → Evaluation → List (Options × Evaluation)
  | 0, _, _ => []
  | n + 1, c, s => (o, s) :: inRow o n (c.poll o s).2.1 (c.poll o s).2.2

theorem outcomes_inRow (all : List Task) (o : Options) (n : ℕ) (c : Cursor) (s : Evaluation) :
    (c.visits all (c.inRow o n s)).map Visit.outcome = (c.polls o n s).1 := by
  induction n generalizing c s with
  | zero => rfl
  | succ n ih => rw [inRow, visits, List.map_cons, ih, polls]

theorem numbered_visits (contexts : List (Options × Evaluation)) (h : c.tasks <:+ all) :
    ∃ q, Numbered all (c.position all) ((c.visits all contexts).flatMap Visit.log) q := by
  induction contexts generalizing c with
  | nil => exact ⟨_, .nil le_rfl⟩
  | cons context rest ih =>
    obtain ⟨o, s⟩ := context
    have poll := numbered_poll (o := o) (s := s) h
    obtain ⟨q, later⟩ := ih poll.1
    exact ⟨q, poll.2.append later⟩

theorem runAll_visits {contexts : List (Options × Evaluation)} {v : Visit}
    (h : v ∈ c.visits all contexts) :
    Event.runAll v.options v.before (v.log.map Prod.snd) = v.after := by
  induction contexts generalizing c with
  | nil => cases h
  | cons context rest ih =>
    rcases List.mem_cons.1 h with rfl | h
    · exact runAll_log all _ c _
    · exact ih h

/-- When all is done a poll does nothing. -/
theorem visits_finished {contexts : List (Options × Evaluation)} {v : Visit}
    (h : v ∈ finished.visits all contexts) :
    v.outcome = .done ∧ v.after = v.before ∧ v.log = [] := by
  induction contexts with
  | nil => cases h
  | cons context rest ih =>
    obtain ⟨o, s⟩ := context
    rw [visits, poll_finished] at h
    rcases List.mem_cons.1 h with rfl | h
    · exact ⟨rfl, rfl, log_of_shown rfl (by simp)⟩
    · exact ih h

theorem pairwise_visits (contexts : List (Options × Evaluation)) (c : Cursor) :
    (c.visits all contexts).Pairwise fun v w =>
      v.outcome = .done → w.outcome = .done ∧ w.after = w.before ∧ w.log = [] := by
  induction contexts generalizing c with
  | nil => exact .nil
  | cons context rest ih =>
    refine .cons (fun w later done => ?_) (ih _)
    rw [finished_of_poll_done done] at later
    exact visits_finished later

/-- A copy expression gives its result once. -/
theorem countP_isReady_visits (contexts : List (Options × Evaluation)) (h : c.IsCopy) :
    (c.visits all contexts).countP (·.outcome.isReady) ≤ 1 := by
  induction contexts generalizing c with
  | nil => exact Nat.zero_le 1
  | cons context rest ih =>
    obtain ⟨o, s⟩ := context
    have ended : (finished.visits all rest).countP (·.outcome.isReady) = 0 :=
      List.countP_eq_zero.2 fun v mem => by simp [(visits_finished mem).1, Outcome.isReady]
    have poll := copyPoll_poll (o := o) (s := s) h
    rw [visits, List.countP_cons]
    rcases run : c.poll o s with ⟨outcome, c', s'⟩
    rw [run] at poll
    cases poll with
    | waits next => exact ih next
    | operand fails => exact ih fails.isCopy
    | clause fails => exact ended.trans_le (Nat.zero_le 1)
    | result => exact (congrArg (· + 1) ended).le

end Cursor

namespace Expression

/-- In any run of polls the events stand at different places of the expression, one behind the other,
and nothing else happens to the evaluation: so each call, copy, modification and result of a copy
expression occurs at most once.  A copy expression gives one chunk at most, and after the end every
poll says that all is done and does nothing. -/
theorem nothing_runs_twice (x : Expression) (scope : Scope)
    (contexts : List (Options × Evaluation)) :
    let visits := (x.start scope).visits x.tasks contexts
    let log := visits.flatMap Visit.log
    (log.Pairwise fun m n => m.1 < n.1) ∧
    (∀ n ∈ log, x.tasks[n.1]? = some n.2.task) ∧
    (∀ v ∈ visits, Event.runAll v.options v.before (v.log.map Prod.snd) = v.after) ∧
    ((∃ copies modify result, x = .transform copies modify result) →
      visits.countP (·.outcome.isReady) ≤ 1) ∧
    visits.Pairwise fun v w =>
      v.outcome = .done → w.outcome = .done ∧ w.after = w.before ∧ w.log = [] := by
  intro visits log
  have start : (x.start scope).tasks <:+ x.tasks := by
    rw [tasks_start]
  obtain ⟨q, numbered⟩ := Cursor.numbered_visits contexts start
  refine ⟨numbered.ordered, numbered.tasks, fun v => Cursor.runAll_visits, ?_,
    Cursor.pairwise_visits contexts _⟩
  rintro ⟨copies, modify, result, rfl⟩
  exact Cursor.countP_isReady_visits contexts (Cursor.isCopy_start copies modify result scope)

/-- The call that fails is not made again; the poll behind it goes on with the modification. -/
theorem nothing_runs_twice_of_failing_operand :
    let s := Evaluation.start (.holding (.node (.element (.unqualified "e")) [] []))
    let copied : ExpandedName := ⟨none, "c"⟩
    let x : Expression := .transform
      [(copied, .call 1 fun _ => pure ⟨[.node (.real ⟨0⟩)], []⟩)]
      (.sequence [.call 0 fun _ => pure ⟨[], [⟨.real ⟨1⟩, .rename (.unqualified "f")⟩]⟩,
        .call 0 fun _ => throw (.unbound copied)])
      (.reference copied)
    let start := x.start .empty
    let visits := start.visits x.tasks (start.inRow {} 5 s)
    visits.map Visit.outcome = [.pending, .failed (.unbound copied),
      .ready ⟨[.node (.real ⟨1⟩)], []⟩, .done, .done] ∧
    visits.map (fun v => v.log.map Prod.fst) = [[], [0, 1, 2, 3], [4, 5], [], []] ∧
    ((visits.flatMap Visit.log).Pairwise fun m n => m.1 < n.1) ∧
    visits.countP (·.outcome.isReady) ≤ 1 := by
  intro s copied x start visits
  have once := nothing_runs_twice x .empty (start.inRow {} 5 s)
  exact ⟨by decide +kernel, by decide +kernel, once.1, once.2.2.2.1 ⟨_, _, _, rfl⟩⟩

end Expression

end VirtualTree
