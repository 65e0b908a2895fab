/-!
# Names

A `Name` is the name of an element, an attribute or a processing instruction as it is written in a
document: an optional qualifier (the part before the colon), a local part and an optional namespace.
An `ExpandedName` forgets the qualifier; variables and error codes have expanded names.  A name that
is written out binds its qualifier to its namespace on the element that carries it:
`Name.elementBinding` and `Name.attributeBinding` say which binding that is.
-/

namespace VirtualTree

/-- The namespace that the qualifier `xml` always denotes. -/
def xmlNamespace : String := "http://www.w3.org/XML/1998/namespace"

/-- The namespace of the attributes that declare namespaces. -/
def xmlnsNamespace : String := "http://www.w3.org/2000/xmlns/"

/-- The name of an element, an attribute or a processing instruction as a document writes it. -/
structure Name where
  /-- What stands before the colon, if there is a colon. -/
  qualifier : Option String
  /-- What stands after the colon. -/
  localPart : String
  /-- The namespace the name belongs to, if any. -/
  namespaceUri : Option String
deriving DecidableEq, Inhabited

namespace Name

/-- The name in no namespace with the given local part. -/
def unqualified (localPart : String) : Name := ⟨none, localPart, none⟩

/-- An empty qualifier or namespace counts as an absent one. -/
def ofParts (qualifier : Option String) (localPart : String) (namespaceUri : Option String) : Name :=
  ⟨qualifier.filter (· ≠ ""), localPart, namespaceUri.filter (· ≠ "")⟩

/-- The written form: `qualifier:local`, or the local part alone. -/
def written (n : Name) : String :=
  match n.qualifier with
  | some q => q ++ ":" ++ n.localPart
  | none => n.localPart

/-- Two names denote the same thing when their local parts and namespaces agree; the qualifier is
only a way to write the namespace. -/
def SameExpanded (n m : Name) : Prop :=
  n.localPart = m.localPart ∧ n.namespaceUri = m.namespaceUri

instance (n m : Name) : Decidable (n.SameExpanded m) := by
  unfold SameExpanded; infer_instance

/-- Names with the qualifier `xml` or `xmlns`, or in one of their namespaces, are bound everywhere. -/
def isReserved (n : Name) : Bool :=
  n.qualifier = some "xml" || n.qualifier = some "xmlns" ||
    n.namespaceUri = some xmlNamespace || n.namespaceUri = some xmlnsNamespace

/-- The binding of a qualifier to a namespace that the name of an attribute forces onto its element.
A name without a qualifier forces none. -/
def attributeBinding (n : Name) : Option (String × String) :=
  if n.isReserved then none else n.qualifier.map fun q => (q, n.namespaceUri.getD "")

/-- The binding of a qualifier to a namespace that the name of an element forces onto it.  A name
without a qualifier binds the empty qualifier. -/
def elementBinding (n : Name) : Option (String × String) :=
  if n.isReserved then none else some (n.qualifier.getD "", n.namespaceUri.getD "")

end Name

/-- A name reduced to its namespace and local part. -/
structure ExpandedName where
  /-- The namespace, if any. -/
  namespaceUri : Option String
  /-- The local part. -/
  localPart : String
deriving DecidableEq, Inhabited

/-- The written form of an expanded name: the namespace in braces after a `Q`, then the local part. -/
def ExpandedName.written (n : ExpandedName) : String :=
  match n.namespaceUri with
  | some uri => "Q\x7b" ++ uri ++ "\x7d" ++ n.localPart
  | none => n.localPart

end VirtualTree
