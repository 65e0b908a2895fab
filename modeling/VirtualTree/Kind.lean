/-!
# Kinds of nodes

The seven kinds of nodes a document can hold.  Document types are kept in documents and written out,
but navigation never shows them.
-/

namespace VirtualTree

/-- The kinds of nodes. -/
inductive Kind where
  | document
  | documentType
  | element
  | attribute
  | text
  | comment
  | processingInstruction
deriving DecidableEq, Inhabited

namespace Kind

/-- Elements and documents have child lists. -/
def isParent : Kind → Bool
  | .document | .element => true
  | _ => false

/-- The kinds that stand in child lists and are open to updates. -/
def isChild : Kind → Bool
  | .element | .text | .comment | .processingInstruction => true
  | _ => false

theorem isChild_iff {k : Kind} :
    k.isChild ↔ k ≠ .attribute ∧ k ≠ .document ∧ k ≠ .documentType := by
  cases k <;> decide

/-- The kinds whose nodes have a name. -/
def isNamed : Kind → Bool
  | .element | .attribute | .processingInstruction => true
  | _ => false

/-- The kinds whose nodes have a value. -/
def hasValue : Kind → Bool
  | .attribute | .text | .comment | .processingInstruction => true
  | _ => false

/-- How messages name a kind. -/
def written : Kind → String
  | .document => "Document"
  | .documentType => "DocumentType"
  | .element => "Element"
  | .attribute => "Attribute"
  | .text => "Text"
  | .comment => "Comment"
  | .processingInstruction => "ProcessingInstruction"

end Kind

end VirtualTree
