import VirtualTree.Name
import VirtualTree.Text.Quoted

/-!
# Items

The values of expressions are sequences of items, and an item is a node or an atomic value.  Nodes
are whatever the context takes for nodes: pointers while expressions run, nodes of the document once
a result was built.
-/

namespace VirtualTree

/-- The atomic values that stand beside nodes in a sequence.  They are handed on as they are, none is ever
looked into, and only `Atomic.written` tells their kinds apart; floating-point numbers, which would go the
same way, are left out, as their printed form is a matter of floating-point arithmetic. -/
inductive Atomic where
  | boolean (value : Bool)
  | string (value : String)
  | integer (value : Int)
  | untyped (value : String)
  | name (value : Name)
deriving DecidableEq, Inhabited

/-- The printed form of an atomic value. -/
def Atomic.written : Atomic → String
  | .boolean value => "Boolean(" ++ toString value ++ ")"
  | .string value => "String(" ++ Text.quote value ++ ")"
  | .integer value => "Integer(" ++ toString value ++ ")"
  | .untyped value => "UntypedAtomic(" ++ Text.quote value ++ ")"
  | .name value =>
    "QName \x7b ns_uri: " ++ Text.quoteOption value.namespaceUri ++ ", prefix: " ++
      Text.quoteOption value.qualifier ++ ", local: " ++ Text.quote value.localPart ++ " \x7d"

/-- A member of a sequence. -/
inductive Item (α : Type) where
  | node (node : α)
  | atomic (value : Atomic)
deriving DecidableEq, Inhabited

namespace Item

variable {α : Type}

/-- The node that an item is. -/
def node? : Item α → Option α
  | .node n => some n
  | .atomic _ => none

/-- The printed form of an item; nodes are not told apart. -/
def written : Item α → String
  | .node _ => "<node>"
  | .atomic value => value.written

end Item

end VirtualTree
