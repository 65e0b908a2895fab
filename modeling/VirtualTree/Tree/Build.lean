import VirtualTree.Document.Edit

/-!
# Building trees

Two ways to turn a tree into nodes of a document.  `Tree.plant` takes a tree as it is, whatever
stands in its lists.  `Tree.build` makes copies: it goes through the checked operations of the
document, leaves out the document types below a document, and refuses a document type anywhere else.
Both allocate a node, then its attributes, then its children, each with all that is below it.
-/

namespace VirtualTree

namespace Tree

mutual

/-- Adds the nodes of a tree to a document without any check. -/
def plant : Tree → Document → NodeId × Document
  | .node label attributes children, d =>
    let (id, d) := d.alloc label
    (id, plantChildren id children (plantAttributes id attributes d))

/-- Adds trees as further attributes of a node. -/
def plantAttributes (owner : NodeId) : List Tree → Document → Document
  | [], d => d
  | t :: ts, d =>
    let (id, d) := t.plant d
    plantAttributes owner ts (d.appendAttribute owner id)

/-- Adds trees as further children of a node. -/
def plantChildren (parent : NodeId) : List Tree → Document → Document
  | [], d => d
  | t :: ts, d =>
    let (id, d) := t.plant d
    plantChildren parent ts (d.appendChild parent id)

end

mutual

/-- Builds a tree from fresh nodes and gives its topmost node, which has no parent. -/
def build : Tree → Edit NodeId
  | .node label attributes children => do
    if label.kind = .documentType then throw .documentTypeCopy
    let id ← Edit.create label
    buildAttributes id attributes
    buildChildren id (label.kind = .document) children
    return id

/-- Builds trees and sets them as attributes of an element. -/
def buildAttributes (owner : NodeId) : List Tree → Edit Unit
  | [] => pure ()
  | t :: ts => do
    let id ← t.build
    Edit.setAttribute owner id
    buildAttributes owner ts

/-- Builds trees and inserts them as last children of a node, without its document types if they are
to be skipped. -/
def buildChildren (parent : NodeId) (skipTypes : Bool) : List Tree → Edit Unit
  | [] => pure ()
  | t :: ts => do
    unless skipTypes && t.kind = .documentType do
      let id ← t.build
      Edit.insertBefore parent id none
    buildChildren parent skipTypes ts

end

end Tree

/-- Copies a node and everything below it into fresh nodes, the topmost without a parent. -/
def Edit.deepClone (id : NodeId) : Edit NodeId := do
  ((← get).tree id).build

end VirtualTree
