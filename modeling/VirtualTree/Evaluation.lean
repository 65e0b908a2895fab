import VirtualTree.Item
import VirtualTree.Options
import VirtualTree.Order.Sort
import VirtualTree.Update.Apply

/-!
# Evaluations

An `Evaluation` is everything that expressions work on: the nodes, real and virtual, and the tables
that live as long as the evaluation, namely the order of unrelated trees and the built forms of
virtual trees.  The operations of the other files are offered here on this one state.
-/

namespace VirtualTree

/-- The state of one evaluation. -/
structure Evaluation extends Forest where
  /-- The order of unrelated trees. -/
  roots : Roots
  /-- The built forms of virtual trees. -/
  memo : Memo

/-- A new evaluation on a document. -/
def Evaluation.start (document : Document) : Evaluation :=
  ⟨⟨document, .empty⟩, .empty, .empty⟩

/-- A computation in an evaluation that may fail; a failure keeps what was done before it.  The
choices of the caller can be read and never change. -/
abbrev Evaluate := ReaderT Options (EStateM Error Evaluation)

namespace Evaluate

variable {α : Type}

/-- A computation that builds nodes. -/
def construct (m : Construct α) : Evaluate α := fun _ e =>
  match m ⟨e.document, e.memo, []⟩ with
  | .ok a s => .ok a { e with document := s.document, memo := s.memo }
  | .error err s => .error err { e with document := s.document, memo := s.memo }

/-- An edit of the document. -/
def edit (m : Edit α) : Evaluate α := construct (.edit m)

/-- A comparison of pointers. -/
def compare (m : Forest → Comparison α) : Evaluate α := fun _ e =>
  match m e.toForest e.roots with
  | .ok a roots => .ok a { e with roots := roots }
  | .error err roots => .error err { e with roots := roots }

/-- A step of navigation. -/
def navigate (step : Forest → Except Error α) : Evaluate α := fun _ e =>
  match step e.toForest with
  | .ok a => .ok a e
  | .error err => .error err e

/-- The real node for a pointer. -/
def materialize (p : Pointer) : Evaluate NodeId := do
  construct (.materialize (← get).arena p)

/-- The items with real nodes for pointers; atomic values stay. -/
def materializeAll (items : List (Item Pointer)) : Evaluate (List (Item NodeId)) :=
  items.mapM fun item =>
    match item with
    | .node p => return .node (← materialize p)
    | .atomic value => return .atomic value

/-- A fresh copy of what a pointer denotes. -/
def deepCopy (p : Pointer) : Evaluate NodeId := do
  construct (.deepCopy (← get).arena p)

/-- Checks, prepares and carries out an update list. -/
def applyUpdates (updates : List (Update Pointer)) : Evaluate Unit := do
  construct (.applyUpdates ⟨(← get).arena, (← read).copyInsertedContent⟩ updates)

end Evaluate

end VirtualTree
