import VirtualTree.Forest.Axes

/-!
# What stands below a pointer

The walk of a tree lists its nodes in the order in which their starts are written: a node, then its
attributes, then the walks of its children.  The shown tree has the labels of the same nodes.  Both go
downwards only, by the steps of navigation, and no path downwards is longer than `Forest.levels` says:
below a silhouette stand earlier silhouettes and real nodes, and below a real node at most as many
levels of nodes as the document has nodes.
-/

namespace VirtualTree

namespace Forest

variable (f : Forest)

/-- The nodes one step below a node: its attributes, then its children. -/
def entries (p : Pointer) : List Pointer := f.attributes p ++ f.children p

/-- A bound on the levels below a pointer. -/
def levels (p : Pointer) : Nat :=
  match p.node with
  | .real _ => f.document.size
  | .silhouette id => id.index + 1 + f.document.size

/-- The walk of the tree below a pointer, down to the depth `n`. -/
def walkWithin : Nat → Pointer → List Pointer
  | 0, p => [p]
  | n + 1, p => p :: (f.attributes p ++ (f.children p).flatMap (walkWithin n))

/-- The walk of the tree below a pointer. -/
def walk (p : Pointer) : List Pointer := f.walkWithin (f.levels p) p

/-- The tree that navigation shows below a pointer, down to the depth `n`. -/
def shownWithin : Nat → Pointer → Tree
  | 0, p => .leaf (f.label p.node)
  | n + 1, p => .node (f.label p.node) ((f.attributes p).map (shownWithin n))
      ((f.children p).map (shownWithin n))

/-- The tree that navigation shows below a pointer. -/
def shown (p : Pointer) : Tree := f.shownWithin (f.levels p) p

end Forest

end VirtualTree
