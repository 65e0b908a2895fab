/-!
# Kinds of updates

The twelve kinds of update primitives and their names.  The names are the tags of the transferable
form of an update, and messages about an update begin with them.
-/

namespace VirtualTree

/-- The kinds of update primitives. -/
inductive UpdateKind where
  | delete
  | insertBefore
  | insertAfter
  | insertInto
  | insertIntoAsFirst
  | insertIntoAsLast
  | insertAttributes
  | rename
  | replaceNode
  | replaceValue
  | replaceElementContent
  | put
deriving DecidableEq, Inhabited

namespace UpdateKind

/-- The name of a kind of update. -/
def written : UpdateKind → String
  | delete => "delete"
  | insertBefore => "insertBefore"
  | insertAfter => "insertAfter"
  | insertInto => "insertInto"
  | insertIntoAsFirst => "insertIntoAsFirst"
  | insertIntoAsLast => "insertIntoAsLast"
  | insertAttributes => "insertAttributes"
  | rename => "rename"
  | replaceNode => "replaceNode"
  | replaceValue => "replaceValue"
  | replaceElementContent => "replaceElementContent"
  | put => "put"

/-- Every kind of update, once. -/
def all : List UpdateKind :=
  [delete, insertBefore, insertAfter, insertInto, insertIntoAsFirst, insertIntoAsLast,
    insertAttributes, rename, replaceNode, replaceValue, replaceElementContent, put]

/-- The kind with a given name. -/
def ofString? (s : String) : Option UpdateKind := all.find? fun k => k.written = s

end UpdateKind

end VirtualTree
