import VirtualTree.Name

/-!
# Error codes

The standard codes of updating expressions and the codes that this library adds to them.  All of
them live in one namespace, `errorNamespace`, so an error is classified by its expanded name alone.
-/

namespace VirtualTree

/-- The namespace of the error codes. -/
def errorNamespace : String := "http://www.w3.org/2005/xqt-errors"

/-- The error codes, with `unknown` for every other name. -/
inductive ErrorCode where
  /-- A general error. -/
  | foer0000
  /-- A type error. -/
  | xpty0004
  /-- A variable that is not bound. -/
  | xpst0008
  /-- A replaced node without a parent. -/
  | xudy0009
  /-- An update of a node that the copy clause did not create. -/
  | xudy0014
  /-- Two renames of one node. -/
  | xudy0015
  /-- Two replacements of one node. -/
  | xudy0016
  /-- Two replacements of one value or of the content of one element. -/
  | xudy0017
  /-- Two namespaces for one qualifier on one element. -/
  | xudy0024
  /-- An insertion beside a node without a parent. -/
  | xudy0029
  /-- Two documents stored at one address. -/
  | xudy0031
  /-- A document stored inside a modify clause. -/
  | xudy0037
  /-- An attribute where only children are allowed. -/
  | xuty0004
  /-- An insertion into a node without a child list. -/
  | xuty0005
  /-- An insertion beside a node that is no child. -/
  | xuty0006
  /-- A replacement whose target does not allow it. -/
  | xuty0008
  /-- A child replaced by attributes. -/
  | xuty0010
  /-- An attribute replaced by other nodes. -/
  | xuty0011
  /-- A rename of a node without a name. -/
  | xuty0012
  /-- A copy source that is not exactly one node. -/
  | xuty0013
  /-- Attributes inserted into a node that is no element. -/
  | xuty0022
  /-- An inconsistency of the pointers themselves. -/
  | int0000
  /-- A call that the document rejects. -/
  | host0000
  /-- An update of a node that is not in the document. -/
  | upd0001
  /-- An expression that waits for too long. -/
  | eval0001
  /-- A feature that does not exist. -/
  | nyi0000
  /-- Any other name. -/
  | unknown
deriving DecidableEq, Inhabited

namespace ErrorCode

/-- The local part of a code. -/
def written : ErrorCode → String
  | foer0000 => "FOER0000"
  | xpty0004 => "XPTY0004"
  | xpst0008 => "XPST0008"
  | xudy0009 => "XUDY0009"
  | xudy0014 => "XUDY0014"
  | xudy0015 => "XUDY0015"
  | xudy0016 => "XUDY0016"
  | xudy0017 => "XUDY0017"
  | xudy0024 => "XUDY0024"
  | xudy0029 => "XUDY0029"
  | xudy0031 => "XUDY0031"
  | xudy0037 => "XUDY0037"
  | xuty0004 => "XUTY0004"
  | xuty0005 => "XUTY0005"
  | xuty0006 => "XUTY0006"
  | xuty0008 => "XUTY0008"
  | xuty0010 => "XUTY0010"
  | xuty0011 => "XUTY0011"
  | xuty0012 => "XUTY0012"
  | xuty0013 => "XUTY0013"
  | xuty0022 => "XUTY0022"
  | int0000 => "INT0000"
  | host0000 => "HOST0000"
  | upd0001 => "UPD0001"
  | eval0001 => "EVAL0001"
  | nyi0000 => "NYI0000"
  | unknown => "UNKNOWN"

/-- Every code, once. -/
def all : List ErrorCode :=
  [foer0000, xpty0004, xpst0008, xudy0009, xudy0014, xudy0015, xudy0016, xudy0017, xudy0024,
    xudy0029, xudy0031, xudy0037, xuty0004, xuty0005, xuty0006, xuty0008, xuty0010, xuty0011,
    xuty0012, xuty0013, xuty0022, int0000, host0000, upd0001, eval0001, nyi0000, unknown]

/-- The text without one leading `err:`. -/
def dropMark (s : String) : String :=
  match s.toList with
  | 'e' :: 'r' :: 'r' :: ':' :: rest => String.ofList rest
  | _ => s

/-- The code that a text names, with or without a leading `err:`. -/
def ofString (s : String) : ErrorCode :=
  (all.find? fun c => c.written = dropMark s).getD unknown

/-- The expanded name of a code. -/
def name (c : ErrorCode) : ExpandedName := ⟨some errorNamespace, c.written⟩

/-- The code with a given expanded name; a name outside `errorNamespace` has none. -/
def ofName (n : ExpandedName) : ErrorCode :=
  if n.namespaceUri = some errorNamespace then ofString n.localPart else unknown

@[simp] theorem ofName_name (c : ErrorCode) : ofName c.name = c := by
  cases c <;> rfl

end ErrorCode

end VirtualTree
