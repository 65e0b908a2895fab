import VirtualTree.Expression.Basic

/-!
# Cursors

An expression is evaluated by polling a cursor.  Each poll gives a chunk of the yield, says that the
cursor waits, or says that it is done; a failed poll leaves the cursor where it was, and a copy, its
checks and its modification are never repeated.  A cursor is a small machine: `Cursor.advance` makes
one step, most of which show nothing outside, and `Cursor.poll` makes steps until one shows.  Every
step but those of a finished cursor lowers `Cursor.weight`, so a poll ends, and so does an
evaluation.
-/

namespace VirtualTree

/-- What a step of a cursor shows. -/
inductive Signal where
  /-- Nothing; the next step belongs to the same poll. -/
  | silent
  /-- The cursor waits. -/
  | pending
  /-- A chunk of the yield. -/
  | ready (chunk : Yield)
  /-- A failure. -/
  | failed (e : Error)
  /-- The end. -/
  | done

/-- What a copy expression still has to do, and what it did. -/
structure CopyClause where
  /-- The names and sources that are not copied yet. -/
  remaining : List (ExpandedName × Expression)
  /-- The expression whose updates are made on the copies. -/
  modify : Expression
  /-- The expression that gives the result. -/
  result : Expression
  /-- The variables, with the copies made so far. -/
  scope : Scope
  /-- The copies made so far. -/
  created : List NodeId
  /-- The updates that the sources asked for. -/
  sourceUpdates : List (Update Pointer)

/-- The evaluation of an expression between two polls. -/
inductive Cursor where
  /-- Nothing is left to do. -/
  | finished
  /-- A function is called after some more waiting polls. -/
  | calling (pending : Nat) (body : Body) (scope : Scope)
  /-- The value of a variable is given. -/
  | referring (value : Except Error (List (Item Pointer)))
  /-- An operand of a sequence is evaluated, and others follow. -/
  | sequencing (current : Cursor) (rest : List Expression) (scope : Scope)
  /-- The source of a copy is evaluated; `sofar` is what it yielded. -/
  | copying (name : ExpandedName) (source : Cursor) (sofar : Yield) (clause : CopyClause)
  /-- The updates of the copies are collected. -/
  | modifying (current : Cursor) (updates : List (Update Pointer)) (clause : CopyClause)
  /-- The result is evaluated; `sofar` is what it yielded. -/
  | returning (current : Cursor) (sofar : Yield) (sourceUpdates : List (Update Pointer))

/-- The cursor at the start of an expression. -/
def Expression.start (scope : Scope) : Expression → Cursor
  | .reference name => .referring (scope.value name)
  | .call pending body => .calling pending body scope
  | .sequence [] => .finished
  | .sequence (e :: rest) => .sequencing (e.start scope) rest scope
  | .transform [] modify result =>
    .modifying (modify.start scope) [] ⟨[], modify, result, scope, [], []⟩
  | .transform ((name, source) :: rest) modify result =>
    .copying name (source.start scope) .empty ⟨rest, modify, result, scope, [], []⟩

namespace CopyClause

/-- The cursor for what comes next: the next source, or the updates of the copies. -/
def next (c : CopyClause) : Cursor :=
  match c.remaining with
  | [] => .modifying (c.modify.start c.scope) [] c
  | (name, source) :: rest =>
    .copying name (source.start c.scope) .empty { c with remaining := rest }

/-- Copies the one node that a source yielded and binds the copy. -/
def bindCopy (c : CopyClause) (name : ExpandedName) (source : Yield) : Evaluate CopyClause :=
  match source.items with
  | [.node p] => do
    let copy ← Evaluate.deepCopy p
    return { c with
      scope := c.scope.bind name [.node (.real copy)]
      created := copy :: c.created
      sourceUpdates := c.sourceUpdates ++ source.updates }
  | _ => throw (.notOneNode name)

/-- A pointer denotes a copy or a real node below one. -/
def Covers (c : CopyClause) (d : Document) (p : Pointer) : Prop :=
  match p.node with
  | .real id => ∃ a ∈ d.ancestorsOrSelf id, a ∈ c.created
  | .silhouette _ => False

instance (c : CopyClause) (d : Document) (p : Pointer) : Decidable (c.Covers d p) := by
  unfold Covers
  split <;> infer_instance

/-- Why an update may not stand in the clause that modifies the copies. -/
def updateRefusal? (c : CopyClause) (f : Forest) (u : Update Pointer) : Option Error :=
  match u.action with
  | .put uri => some (.storedInModify uri)
  | _ =>
    if c.Covers f.document u.target then none
    else some (.uncopiedTarget u.kind (f.describe u.target))

/-- Checks that updates change copies only, and makes them. -/
def modifyCopies (c : CopyClause) (updates : List (Update Pointer)) : Evaluate Unit := do
  match updates.findSome? (c.updateRefusal? (← get).toForest) with
  | some e => throw e
  | none => Evaluate.applyUpdates updates

end CopyClause

namespace Cursor

/-- One step of a cursor. -/
def advance (o : Options) : Cursor → Evaluation → Signal × Cursor × Evaluation
  | .finished, s => (.done, .finished, s)
  | .calling (n + 1) body scope, s => (.pending, .calling n body scope, s)
  | .calling 0 body scope, s =>
    match body scope o s with
    | .ok chunk s => (.ready chunk, .finished, s)
    | .error e s => (.failed e, .finished, s)
  | .referring (.ok items), s => (.ready ⟨items, []⟩, .finished, s)
  | .referring (.error e), s => (.failed e, .finished, s)
  | .sequencing current rest scope, s =>
    match current.advance o s with
    | (.done, _, s) =>
      match rest with
      | [] => (.silent, .finished, s)
      | e :: rest => (.silent, .sequencing (e.start scope) rest scope, s)
    | (signal, current, s) => (signal, .sequencing current rest scope, s)
  | .copying name source sofar clause, s =>
    match source.advance o s with
    | (.ready chunk, source, s) => (.silent, .copying name source (sofar ++ chunk) clause, s)
    | (.done, _, s) =>
      match clause.bindCopy name sofar o s with
      | .ok clause s => (.silent, clause.next, s)
      | .error e s => (.failed e, .finished, s)
    | (signal, source, s) => (signal, .copying name source sofar clause, s)
  | .modifying current updates clause, s =>
    match current.advance o s with
    | (.ready chunk, current, s) =>
      (.silent, .modifying current (updates ++ chunk.updates) clause, s)
    | (.done, _, s) =>
      match clause.modifyCopies updates o s with
      | .ok () s =>
        (.silent, .returning (clause.result.start clause.scope) .empty clause.sourceUpdates, s)
      | .error e s => (.failed e, .finished, s)
    | (signal, current, s) => (signal, .modifying current updates clause, s)
  | .returning current sofar sourceUpdates, s =>
    match current.advance o s with
    | (.ready chunk, current, s) => (.silent, .returning current (sofar ++ chunk) sourceUpdates, s)
    | (.done, _, s) => (.ready ⟨sofar.items, sofar.updates ++ sourceUpdates⟩, .finished, s)
    | (signal, current, s) => (signal, .returning current sofar sourceUpdates, s)

end Cursor

/-! ## Weights -/

mutual

/-- A bound on the steps of the evaluation of an expression. -/
def Expression.weight : Expression → Nat
  | .reference _ => 1
  | .call pending _ => pending + 1
  | .sequence operands => 1 + Expression.weightAll operands
  | .transform copies modify result =>
    1 + Expression.weightCopies copies + (modify.weight + 1) + (result.weight + 1)

/-- The weights of expressions that follow one another. -/
def Expression.weightAll : List Expression → Nat
  | [] => 0
  | e :: rest => (e.weight + 1) + Expression.weightAll rest

/-- The weights of the sources of copies. -/
def Expression.weightCopies : List (ExpandedName × Expression) → Nat
  | [] => 0
  | (_, source) :: rest => (source.weight + 1) + Expression.weightCopies rest

end

/-- The weight of what a copy expression still has to do after the source at hand. -/
def CopyClause.weight (c : CopyClause) : Nat :=
  Expression.weightCopies c.remaining + (c.modify.weight + 1) + (c.result.weight + 1)

/-- A bound on the steps that a cursor still makes. -/
def Cursor.weight : Cursor → Nat
  | .finished => 0
  | .calling pending _ _ => pending + 1
  | .referring _ => 1
  | .sequencing current rest _ => current.weight + 1 + Expression.weightAll rest
  | .copying _ source _ clause => source.weight + 1 + clause.weight
  | .modifying current _ clause => current.weight + 1 + (clause.result.weight + 1)
  | .returning current _ _ => current.weight + 1

theorem Expression.weight_start_le (scope : Scope) (e : Expression) :
    (e.start scope).weight ≤ e.weight := by
  fun_induction Expression.start scope e <;>
    simp only [Cursor.weight, Expression.weight, Expression.weightAll, Expression.weightCopies,
      CopyClause.weight] <;> omega

theorem CopyClause.weight_next (c : CopyClause) : c.next.weight < c.weight + 1 := by
  unfold next
  split
  · rename_i h
    have := c.modify.weight_start_le c.scope
    simp only [Cursor.weight, weight, h, Expression.weightCopies]
    omega
  · rename_i name source rest h
    have := source.weight_start_le c.scope
    simp only [Cursor.weight, weight, h, Expression.weightCopies]
    omega

theorem CopyClause.weight_bindCopy {c c' : CopyClause} {name : ExpandedName} {source : Yield}
    {o : Options} {s s' : Evaluation} (h : c.bindCopy name source o s = .ok c' s') :
    c'.weight = c.weight := by
  obtain ⟨items, updates⟩ := source
  match items with
  | [.node p] =>
    simp only [bindCopy, bind, ReaderT.bind, EStateM.bind] at h
    split at h <;> cases h
    rfl
  | [] | [.atomic _] | .node _ :: _ :: _ | .atomic _ :: _ :: _ => cases h

namespace Cursor

/-- Every step lowers the weight, unless it shows that the cursor is done. -/
theorem weight_advance (o : Options) (c : Cursor) (s : Evaluation) :
    (c.advance o s).1 = .done ∨ (c.advance o s).2.1.weight < c.weight := by
  fun_induction advance o c s with
  | case1 => exact .inl rfl
  | case8 current scope s _ _ _ e rest =>
    have := e.weight_start_le scope
    simp only [weight, Expression.weightAll]
    omega
  | case11 _ _ _ _ _ _ _ _ clause _ h =>
    have := clause.weight_next
    have := CopyClause.weight_bindCopy h
    simp only [weight]
    omega
  | case15 _ _ clause =>
    have := clause.result.weight_start_le clause.scope
    simp only [weight]
    omega
  | case7 | case12 | case16 =>
    simp only [weight]
    omega
  | _ => simp_all [weight]

end Cursor

end VirtualTree
