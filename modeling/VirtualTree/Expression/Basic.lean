import VirtualTree.Evaluation

/-!
# Updating expressions

An expression yields a sequence of items and asks for updates.  Variables are bound in a `Scope`.
Besides references to variables there are calls of functions of the caller, which may be made to
wait, sequences, and copies: `Expression.transform` copies nodes, modifies the copies, and yields
what its last part says about them.
-/

namespace VirtualTree

/-- What an expression yields. -/
structure Yield where
  /-- The items of the value. -/
  items : List (Item Pointer)
  /-- The updates asked for. -/
  updates : List (Update Pointer)
deriving DecidableEq

namespace Yield

/-- The empty value without updates. -/
def empty : Yield := ⟨[], []⟩

instance : Inhabited Yield := ⟨empty⟩

/-- Two yields one after the other. -/
def append (y z : Yield) : Yield := ⟨y.items ++ z.items, y.updates ++ z.updates⟩

instance : Append Yield := ⟨append⟩

end Yield

/-- The bindings of variables, the latest first. -/
structure Scope where
  /-- The names and their values. -/
  bindings : List (ExpandedName × List (Item Pointer))
deriving DecidableEq

namespace Scope

/-- The scope without bindings. -/
def empty : Scope := ⟨[]⟩

instance : Inhabited Scope := ⟨empty⟩

/-- The scope with one more binding, which hides an earlier one of the same name. -/
def bind (s : Scope) (name : ExpandedName) (value : List (Item Pointer)) : Scope :=
  ⟨(name, value) :: s.bindings⟩

/-- The value of a variable. -/
def value? (s : Scope) (name : ExpandedName) : Option (List (Item Pointer)) :=
  s.bindings.lookup name

/-- The value of a variable, or the failure that there is none. -/
def value (s : Scope) (name : ExpandedName) : Except Error (List (Item Pointer)) :=
  match s.value? name with
  | some items => .ok items
  | none => .error (.unbound name)

end Scope

/-- A function of the caller. -/
abbrev Body := Scope → Evaluate Yield

/-- Updating expressions. -/
inductive Expression where
  /-- The value of a variable. -/
  | reference (name : ExpandedName)
  /-- The yield of a function, after the given number of waiting polls. -/
  | call (pending : Nat) (body : Body)
  /-- The yields of expressions one after the other. -/
  | sequence (operands : List Expression)
  /-- Copies of single nodes bound to names, updates of the copies, and a result. -/
  | transform (copies : List (ExpandedName × Expression)) (modify result : Expression)

instance : Inhabited Expression := ⟨.sequence []⟩

end VirtualTree
