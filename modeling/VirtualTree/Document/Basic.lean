import VirtualTree.Error.Basic
import VirtualTree.Tree.Markup

/-!
# Documents

A `Document` holds nodes in the order of their allocation and never forgets one; a node without a
parent is the top of a tree of its own.  Every node has a record of its label, its parent, its
children and its attributes.  This file gives the lookups, the two elementary changes (a new record
and a change of one record), and the tree below a node.
-/

namespace VirtualTree

/-- What a document knows of a node. -/
structure Record where
  /-- The label of the node. -/
  label : Label
  /-- The node whose child or attribute it is. -/
  parent? : Option NodeId
  /-- The children, in order. -/
  children : List NodeId
  /-- The attributes, in order. -/
  attributes : List NodeId
deriving DecidableEq

/-- The record of a fresh node. -/
def Record.fresh (label : Label) : Record := ⟨label, none, [], []⟩

instance : Inhabited Record := ⟨.fresh (.text "")⟩

/-- The nodes of a document, by the order of their allocation. -/
structure Document where
  /-- The records, by the order of allocation. -/
  records : Array Record
deriving DecidableEq

namespace Document

/-- The document without nodes. -/
def empty : Document := ⟨#[]⟩

instance : Inhabited Document := ⟨empty⟩

variable (d : Document)

/-! ## Lookups -/

/-- The number of nodes ever allocated. -/
def size : Nat := d.records.size

/-- The document has the node. -/
def Has (id : NodeId) : Prop := id.index < d.size

instance (id : NodeId) : Decidable (d.Has id) := by
  unfold Has; infer_instance

/-- The record of a node; a node that the document does not have looks like an empty text. -/
def record (id : NodeId) : Record := d.records.getD id.index default

/-- The label of a node. -/
def label (id : NodeId) : Label := (d.record id).label

/-- The kind of a node. -/
def kind (id : NodeId) : Kind := (d.label id).kind

/-- The name a node answers to. -/
def name? (id : NodeId) : Option Name := (d.label id).name?

/-- The value of an attribute or the data of a leaf. -/
def value? (id : NodeId) : Option String := (d.label id).value?

/-- The node whose child or attribute a node is. -/
def parent? (id : NodeId) : Option NodeId := (d.record id).parent?

/-- The children of a node, in order. -/
def children (id : NodeId) : List NodeId := (d.record id).children

/-- The attributes of a node, in order. -/
def attributes (id : NodeId) : List NodeId := (d.record id).attributes

/-- Every node but a document type is shown by navigation. -/
def isVisible (id : NodeId) : Bool := d.kind id ≠ .documentType

/-- The first attribute with the given written name. -/
def attributeWritten? (id : NodeId) (written : String) : Option NodeId :=
  (d.attributes id).find? fun a => (d.name? a).any fun n => n.written = written

/-- The node and the nodes above it, from the node upwards, at most `n` of them. -/
def upward : Nat → NodeId → List NodeId
  | 0, _ => []
  | n + 1, id => id :: match d.parent? id with
    | some p => upward n p
    | none => []

/-- The node and the nodes above it, from the node upwards. -/
def ancestorsOrSelf (id : NodeId) : List NodeId := d.upward d.size id

/-! ## Siblings -/

/-- The entry of a list that follows `x`. -/
def entryAfter (x : NodeId) : List NodeId → Option NodeId
  | a :: b :: rest => if a = x then some b else entryAfter x (b :: rest)
  | _ => none

/-- The entry of a list that `x` follows. -/
def entryBefore (x : NodeId) : List NodeId → Option NodeId
  | a :: b :: rest => if b = x then some a else entryBefore x (b :: rest)
  | _ => none

/-- The children among which a node stands; attributes have no siblings. -/
def siblings (id : NodeId) : List NodeId :=
  if d.kind id = .attribute then [] else
    match d.parent? id with
    | some p => d.children p
    | none => []

/-- The sibling after a node. -/
def nextSibling? (id : NodeId) : Option NodeId := entryAfter id (d.siblings id)

/-- The sibling before a node. -/
def previousSibling? (id : NodeId) : Option NodeId := entryBefore id (d.siblings id)

/-! ## Elementary changes -/

/-- The document with one record changed. -/
def update (id : NodeId) (f : Record → Record) : Document := ⟨d.records.modify id.index f⟩

/-- The document with a fresh node, which has no parent and nothing below it. -/
def alloc (label : Label) : NodeId × Document := (⟨d.size⟩, ⟨d.records.push (.fresh label)⟩)

variable {d}

@[simp] theorem size_update (id : NodeId) (f : Record → Record) : (d.update id f).size = d.size := by
  simp [update, size]

@[simp] theorem record_update (id : NodeId) (f : Record → Record) (i : NodeId) :
    (d.update id f).record i = if i = id ∧ d.Has id then f (d.record i) else d.record i := by
  obtain ⟨i⟩ := i
  obtain ⟨j⟩ := id
  simp only [update, record, Has, size, Array.getD_eq_getD_getElem?, Array.getElem?_modify,
    NodeId.mk.injEq]
  by_cases h : i = j
  · subst h
    by_cases hi : i < d.records.size <;> simp [hi]
  · simp [h, Ne.symm h]

@[simp] theorem size_alloc (label : Label) : (d.alloc label).2.size = d.size + 1 := by
  simp [alloc, size]

theorem record_alloc (label : Label) (i : NodeId) :
    (d.alloc label).2.record i = if i.index = d.size then .fresh label else d.record i := by
  simp only [alloc, record, size, Array.getD_eq_getD_getElem?, Array.getElem?_push]
  split <;> rfl

/-! ## The tree below a node -/

variable (d)

/-- The tree below a node down to the depth `n`. -/
def treeWithin : Nat → NodeId → Tree
  | 0, id => .leaf (d.label id)
  | n + 1, id => .node (d.label id) ((d.attributes id).map (treeWithin n))
      ((d.children id).map (treeWithin n))

/-- The tree below a node.  No path downwards is longer than the document has nodes. -/
def tree (id : NodeId) : Tree := d.treeWithin d.size id

/-- The written form of a node and of everything below it. -/
def toXml (id : NodeId) : String := (d.tree id).toXml

end Document

end VirtualTree
