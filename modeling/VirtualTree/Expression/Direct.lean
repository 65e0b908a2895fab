import VirtualTree.Expression.Basic

/-!
# Direct evaluation

What an expression yields, by recursion on the expression and without polls: operands are evaluated
one after the other, waiting does not occur, and the first failure is the answer.  A copy expression
evaluates its sources in the order of their declaration, each in the scope of the copies made before
it; it makes the updates of its second part on the copies, and yields what its last part says, whose
updates stand before those of the sources.
-/

namespace VirtualTree

/-- What the copying part of a copy expression gives. -/
structure Copies where
  /-- The variables, with the copies. -/
  scope : Scope
  /-- The copies, in the order of their declaration. -/
  nodes : List NodeId
  /-- The updates that the sources asked for, in the same order. -/
  updates : List (Update Pointer)

namespace Copies

/-- The updates of a modification change copies and nodes below copies only, and store nothing. -/
def check (nodes : List NodeId) (f : Forest) (u : Update Pointer) : Except Error Unit :=
  match u.action, u.target.node with
  | .put uri, _ => .error (.storedInModify uri)
  | _, .real id =>
    if ∃ a ∈ nodes, a ∈ f.document.ancestorsOrSelf id then .ok ()
    else .error (.uncopiedTarget u.kind (f.describe u.target))
  | _, .silhouette _ => .error (.uncopiedTarget u.kind (f.describe u.target))

/-- Checks the updates of a modification from the first to the last, and makes them. -/
def modify (nodes : List NodeId) (updates : List (Update Pointer)) : Evaluate Unit := do
  Evaluate.navigate fun f => updates.forM (check nodes f)
  Evaluate.applyUpdates updates

end Copies

namespace Expression

mutual

/-- The yield of an expression. -/
def direct : Expression → Scope → Evaluate Yield
  | .reference name, scope => do
    return ⟨← Evaluate.navigate fun _ => scope.value name, []⟩
  | .call _ body, scope => body scope
  | .sequence operands, scope => directAll operands scope
  | .transform copies modify result, scope => do
    let made ← directCopies copies scope
    let modification ← modify.direct made.scope
    Copies.modify made.nodes modification.updates
    let yield ← result.direct made.scope
    return ⟨yield.items, yield.updates ++ made.updates⟩

/-- The yields of expressions, one after the other. -/
def directAll : List Expression → Scope → Evaluate Yield
  | [], _ => pure .empty
  | e :: rest, scope => do
    let yield ← e.direct scope
    return yield ++ (← directAll rest scope)

/-- Copies the one node of every source, and binds the copies. -/
def directCopies : List (ExpandedName × Expression) → Scope → Evaluate Copies
  | [], scope => pure ⟨scope, [], []⟩
  | (name, source) :: rest, scope => do
    let yield ← source.direct scope
    match yield.items with
    | [.node p] =>
      let copy ← Evaluate.deepCopy p
      let made ← directCopies rest (scope.bind name [.node (.real copy)])
      return ⟨made.scope, copy :: made.nodes, yield.updates ++ made.updates⟩
    | _ => throw (.notOneNode name)

end

mutual

/-- The expression in which no function waits. -/
def prompt : Expression → Expression
  | .reference name => .reference name
  | .call _ body => .call 0 body
  | .sequence operands => .sequence (promptAll operands)
  | .transform copies modify result =>
    .transform (promptCopies copies) modify.prompt result.prompt

/-- The expressions in which no function waits. -/
def promptAll : List Expression → List Expression
  | [] => []
  | e :: rest => e.prompt :: promptAll rest

/-- The names and sources in which no function waits. -/
def promptCopies : List (ExpandedName × Expression) → List (ExpandedName × Expression)
  | [] => []
  | (name, source) :: rest => (name, source.prompt) :: promptCopies rest

end

end Expression

end VirtualTree
