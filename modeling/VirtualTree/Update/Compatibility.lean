import VirtualTree.Forest.Axes
import VirtualTree.Update.Basic

/-!
# Compatibility of updates

The primitives of one list must not contradict each other: no node is renamed, replaced, or given a
new value or content twice, nothing else is stored at an address already used, and the names that the
list puts on one element bind each qualifier to one namespace.  `Forest.compatibility` looks for a
contradiction in this order and reports the first.
-/

namespace VirtualTree

/-- The first entry of a list that equals an earlier one, where those in `seen` count as earlier. -/
def firstRepeated {α : Type} [DecidableEq α] (seen : List α) : List α → Option α
  | [] => none
  | a :: rest => if a ∈ seen then some a else firstRepeated (a :: seen) rest

/-- The first contradiction in a list of bindings: a qualifier, its earlier and its later namespace.
The bindings in `seen` count as earlier. -/
def firstRebound (seen : List (String × String)) :
    List (String × String) → Option (String × String × String)
  | [] => none
  | (qualifier, uri) :: rest =>
    match seen.lookup qualifier with
    | none => firstRebound ((qualifier, uri) :: seen) rest
    | some earlier => if earlier = uri then firstRebound seen rest else some (qualifier, earlier, uri)

/-- The targets of the updates of a kind, in order. -/
def targetsOf (kind : UpdateKind) (updates : List (Update Pointer)) : List Pointer :=
  (updates.filter fun u => u.kind = kind).map Update.target

/-- The addresses at which a list stores documents, in order. -/
def storedUris (updates : List (Update Pointer)) : List String :=
  updates.filterMap fun u =>
    match u.action with
    | .put uri => some uri
    | _ => none

/-- A binding of a qualifier to a namespace on an element. -/
structure ElementBinding where
  /-- The element. -/
  element : Pointer
  /-- The qualifier and the namespace. -/
  binding : String × String
deriving DecidableEq

namespace Forest

variable (f : Forest)

/-- The bindings that attributes force onto the element they come to. -/
def attributeBindings (element : Pointer) (content : List Pointer) : List ElementBinding :=
  content.filterMap fun a =>
    ((f.name? a.node).bind Name.attributeBinding).map fun b => ⟨element, b⟩

/-- The bindings that an update forces onto an element: those of inserted attributes on the target,
those of the attributes that replace an attribute on its owner, and that of a new name on the renamed
element or on the owner of the renamed attribute. -/
def bindings (u : Update Pointer) : Except Error (List ElementBinding) :=
  match u.action with
  | .insertAttributes content => .ok (f.attributeBindings u.target content)
  | .replaceNode replacement =>
    if f.kind u.target.node = .attribute then do
      match ← f.parent? u.target with
      | none => return []
      | some owner =>
        return f.attributeBindings owner (replacement.filter fun p => f.kind p.node = .attribute)
    else .ok []
  | .rename name =>
    match f.kind u.target.node with
    | .element => .ok (name.elementBinding.map fun b => ⟨u.target, b⟩).toList
    | .attribute => do
      match ← f.parent? u.target with
      | none => return []
      | some owner => return (name.attributeBinding.map fun b => ⟨owner, b⟩).toList
    | _ => .ok []
  | _ => .ok []

/-- The first contradiction among bindings, looking at one element after the other. -/
def bindingConflict? (bindings : List ElementBinding) : Option Conflict :=
  (bindings.map ElementBinding.element).findSome? fun element =>
    (firstRebound [] ((bindings.filter fun b => b.element = element).map ElementBinding.binding)).map
      fun (qualifier, earlier, later) =>
        .boundTwice qualifier earlier later (((f.name? element.node).map Name.written).getD "")

/-- The first contradiction among targets and addresses. -/
def targetConflict? (updates : List (Update Pointer)) : Option Conflict :=
  let repeated (kind : UpdateKind) := (firstRepeated [] (targetsOf kind updates)).map f.describe
  ((repeated .rename).map .renamedTwice).or <|
    ((repeated .replaceNode).map .replacedTwice).or <|
      ((repeated .replaceValue).map .valueReplacedTwice).or <|
        ((repeated .replaceElementContent).map .contentReplacedTwice).or <|
          (firstRepeated [] (storedUris updates)).map .storedTwice

/-- Fails for the first contradiction in an update list. -/
def compatibility (updates : List (Update Pointer)) : Except Error Unit :=
  match f.targetConflict? updates with
  | some c => .error (.conflict c)
  | none => do
    let bindings ← updates.mapM f.bindings
    match f.bindingConflict? bindings.flatten with
    | some c => throw (.conflict c)
    | none => return

end Forest

end VirtualTree
