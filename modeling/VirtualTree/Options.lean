/-!
# Options

What the caller of an evaluation may choose.
-/

namespace VirtualTree

/-- The choices that apply to one evaluation. -/
structure Options where
  /-- How many waiting polls in a row are answered by another poll; no limit if absent. -/
  maxPendingPolls : Option Nat := some 10000
  /-- Nodes of the document that are inserted somewhere are copied first; otherwise they move. -/
  copyInsertedContent : Bool := true
deriving DecidableEq, Inhabited

end VirtualTree
