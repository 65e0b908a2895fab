import VirtualTree.Document.Basic

/-!
# Editing a document

The checked operations on a document: fresh nodes, insertion of a child, setting of an attribute,
removal, renaming and change of a value.  An operation either succeeds or leaves the document as it
was and says why.  Nodes are moved, never copied: inserting a node that stands somewhere else takes
it away from there.
-/

namespace VirtualTree

/-- A computation that edits a document and may fail; a failure keeps the edits made before it. -/
abbrev Edit := EStateM Error Document

namespace Document

variable (d : Document)

/-! ## Links between nodes -/

/-- The document after taking a node away from its parent.  Attributes leave the attribute list, all
other nodes the child list. -/
def detach (id : NodeId) : Document :=
  match d.parent? id with
  | none => d
  | some p =>
    let entries := if d.kind id = .attribute then
        d.update p fun r => { r with attributes := r.attributes.filter (· ≠ id) }
      else d.update p fun r => { r with children := r.children.filter (· ≠ id) }
    entries.update id fun r => { r with parent? := none }

/-- The document after writing a child list and making a node point at its owner. -/
def placeChild (parent child : NodeId) (children : List NodeId) : Document :=
  (d.update parent fun r => { r with children := children }).update child
    fun r => { r with parent? := some parent }

/-- The document after adding an entry at the end of a child list. -/
def appendChild (parent child : NodeId) : Document :=
  d.placeChild parent child (d.children parent ++ [child])

/-- The document after adding an entry at the end of an attribute list. -/
def appendAttribute (owner attr : NodeId) : Document :=
  (d.update owner fun r => { r with attributes := r.attributes ++ [attr] }).update attr
    fun r => { r with parent? := some owner }

/-- The attributes of an element that an attribute with the given name displaces. -/
def displaced (owner : NodeId) (name? : Option Name) : List NodeId :=
  (d.attributes owner).filter fun a =>
    match d.name? a, name? with
    | some n, some m => n.SameExpanded m
    | _, _ => false

/-! ## Reasons to refuse an edit -/

/-- Why a call on a node is refused before anything else is looked at. -/
def foreign? (id : NodeId) : Option Error := if d.Has id then none else some (.foreignNode id)

/-- Why a node cannot be inserted as a child, the position apart. -/
def childRefusal? (parent child : NodeId) : Option Error :=
  (d.foreign? parent).or <| (d.foreign? child).or <|
    if ¬ (d.kind parent).isParent then some .childlessParent
    else if d.kind child = .attribute ∨ d.kind child = .document then some .unsuitableChild
    else if child ∈ d.ancestorsOrSelf parent then some .ownSubtree
    else none

/-- Why a node cannot serve as a position among the children of another. -/
def positionRefusal? (parent reference : NodeId) : Option Error :=
  if d.parent? reference ≠ some parent ∨ d.kind reference = .attribute then some .foreignReference
  else none

/-- Why a node cannot be set as an attribute. -/
def attributeRefusal? (owner attr : NodeId) : Option Error :=
  (d.foreign? owner).or <| (d.foreign? attr).or <|
    if d.kind owner ≠ .element then some .attributelessOwner
    else if d.kind attr ≠ .attribute then some .unsuitableAttribute
    else none

end Document

namespace Edit

open Document

/-- Fails for a reason, if there is one. -/
def refuse (reason? : Option Error) : Edit Unit :=
  match reason? with
  | some reason => throw reason
  | none => pure ()

/-- Allocates a fresh node. -/
def create (label : Label) : Edit NodeId := modifyGet fun d => d.alloc label

/-- Inserts a child before a reference node, or after all children if there is none.  Inserting a
node before itself changes nothing. -/
def insertBefore (parent child : NodeId) (reference? : Option NodeId) : Edit Unit := do
  refuse ((← get).childRefusal? parent child)
  match reference? with
  | none =>
    modify (·.detach child)
    modify (·.appendChild parent child)
  | some reference =>
    if reference = child then
      return
    refuse ((← get).positionRefusal? parent reference)
    modify (·.detach child)
    let siblings := (← get).children parent
    if reference ∈ siblings then
      modify (·.placeChild parent child
        (siblings.takeWhile (· ≠ reference) ++ child :: siblings.dropWhile (· ≠ reference)))
    else throw .vanishedReference

/-- Sets an attribute of an element; attributes with the same expanded name make room for it. -/
def setAttribute (owner attr : NodeId) : Edit Unit := do
  refuse ((← get).attributeRefusal? owner attr)
  modify (·.detach attr)
  modify fun d => (d.displaced owner (d.name? attr)).foldl detach d
  modify (·.appendAttribute owner attr)

/-- Takes a node away from its parent; a node without a parent stays as it is. -/
def remove (id : NodeId) : Edit Unit := do
  refuse ((← get).foreign? id)
  modify (·.detach id)

/-- Gives a node another label, or fails if there is none for its kind. -/
def relabel (id : NodeId) (change : Label → Option Label) (fault : Kind → Error) : Edit Unit := do
  let d ← get
  refuse (d.foreign? id)
  match change (d.label id) with
  | some label => modify (·.update id fun r => { r with label := label })
  | none => throw (fault (d.kind id))

/-- Gives a node another name. -/
def rename (id : NodeId) (name : Name) : Edit Unit := relabel id (·.rename? name) .namelessKind

/-- Gives a node another value. -/
def setValue (id : NodeId) (value : String) : Edit Unit :=
  relabel id (·.setValue? value) .valuelessKind

end Edit

end VirtualTree
