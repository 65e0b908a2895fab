import VirtualTree.Kind
import VirtualTree.Name

/-!
# Labels

A label is what a node carries apart from its neighbours: its kind, its name and its value.  Only
elements, attributes and processing instructions answer to a name; a document type has one, but
shows it only when it is written out.
-/

namespace VirtualTree

/-- What a node carries apart from its neighbours. -/
inductive Label where
  | document
  | documentType (name : String)
  | element (name : Name)
  | attribute (name : Name) (value : String)
  | text (data : String)
  | comment (data : String)
  | processingInstruction (target data : String)
deriving DecidableEq, Inhabited

namespace Label

/-- The kind of a node with the given label. -/
def kind : Label → Kind
  | .document => .document
  | .documentType _ => .documentType
  | .element _ => .element
  | .attribute .. => .attribute
  | .text _ => .text
  | .comment _ => .comment
  | .processingInstruction .. => .processingInstruction

/-- The name a node answers to; a processing instruction answers to its target. -/
def name? : Label → Option Name
  | .element name => some name
  | .attribute name _ => some name
  | .processingInstruction target _ => some (Name.unqualified target)
  | _ => none

/-- The value of an attribute or the data of a leaf. -/
def value? : Label → Option String
  | .attribute _ value => some value
  | .text data => some data
  | .comment data => some data
  | .processingInstruction _ data => some data
  | _ => none

/-- The label with another name, if its kind has names.  Of the new name of a processing instruction
only the local part counts. -/
def rename? (name : Name) : Label → Option Label
  | .element _ => some (.element name)
  | .attribute _ value => some (.attribute name value)
  | .processingInstruction _ data => some (.processingInstruction name.localPart data)
  | _ => none

/-- The label with another value, if its kind has values. -/
def setValue? (value : String) : Label → Option Label
  | .attribute name _ => some (.attribute name value)
  | .text _ => some (.text value)
  | .comment _ => some (.comment value)
  | .processingInstruction target _ => some (.processingInstruction target value)
  | _ => none

theorem isSome_name? (l : Label) : l.name?.isSome = l.kind.isNamed := by
  cases l <;> rfl

theorem isSome_value? (l : Label) : l.value?.isSome = l.kind.hasValue := by
  cases l <;> rfl

theorem kind_of_rename? {l m : Label} {name : Name} (h : l.rename? name = some m) :
    m.kind = l.kind := by
  cases l <;> simp only [rename?, Option.some.injEq, reduceCtorEq] at h <;> subst h <;> rfl

theorem kind_of_setValue? {l m : Label} {value : String} (h : l.setValue? value = some m) :
    m.kind = l.kind := by
  cases l <;> simp only [setValue?, Option.some.injEq, reduceCtorEq] at h <;> subst h <;> rfl

end Label

end VirtualTree
