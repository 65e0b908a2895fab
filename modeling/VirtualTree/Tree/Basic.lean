import VirtualTree.Label

/-!
# Trees

A `Tree` is the shape of a node and of everything below it, with no identity of its own: the label
of the node, the trees of its attributes and the trees of its children, both in order.  Documents
and virtual trees are compared through their trees, and a tree is what is built when a node is
copied.
-/

namespace VirtualTree

/-- The shape of a node and of everything below it. -/
inductive Tree where
  | node (label : Label) (attributes children : List Tree)
deriving Inhabited

namespace Tree

/-- The label of the topmost node. -/
def label : Tree → Label
  | .node label _ _ => label

/-- The trees of the attributes, in order. -/
def attributes : Tree → List Tree
  | .node _ attributes _ => attributes

/-- The trees of the children, in order. -/
def children : Tree → List Tree
  | .node _ _ children => children

/-- The kind of the topmost node. -/
def kind (t : Tree) : Kind := t.label.kind

/-- A tree without attributes and children. -/
def leaf (label : Label) : Tree := .node label [] []

end Tree

end VirtualTree
