import VirtualTree.Name
import VirtualTree.Text.Quoted

/-!
# Pointers

A node is either real, one of the nodes of a document, or a silhouette, a description of a node that
was never built.  Real nodes can be spliced under silhouettes, and one node can stand in several
places at once, so a `Pointer` names a node together with the place it was reached at: the chain of
graft points from the innermost silhouette it stands under up to the outermost one.  Two pointers
are equal exactly when they denote the same node at the same place.
-/

namespace VirtualTree

/-- A node of a document, by its position in the order of allocation. -/
structure NodeId where
  /-- The position in the order of allocation, from zero. -/
  index : Nat
deriving DecidableEq, Inhabited, Hashable

/-- A silhouette, by its position in the order of allocation. -/
structure SilhouetteId where
  /-- The position in the order of allocation, from zero. -/
  index : Nat
deriving DecidableEq, Inhabited, Hashable

/-- A node of either sort. -/
inductive NodeRef where
  | real (id : NodeId)
  | silhouette (id : SilhouetteId)
deriving DecidableEq, Inhabited

/-- A place under a silhouette: an entry of its child list, or the attribute of a given name. -/
inductive Slot where
  | child (index : Nat)
  | attribute (name : Name)
deriving DecidableEq, Inhabited

/-- How messages show a slot. -/
def Slot.written : Slot → String
  | .child index => "Index(" ++ toString index ++ ")"
  | .attribute name =>
    "Attribute(QName \x7b prefix: " ++ Text.quoteOption name.qualifier ++ ", local: " ++
      Text.quote name.localPart ++ ", ns_uri: " ++ Text.quoteOption name.namespaceUri ++ " \x7d)"

/-- A silhouette and the slot of it that a node fills. -/
structure GraftPoint where
  /-- The silhouette the node stands under. -/
  parent : SilhouetteId
  /-- The slot the node fills. -/
  slot : Slot
deriving DecidableEq, Inhabited

/-- A node and the place it stands at. -/
structure Pointer where
  /-- The node. -/
  node : NodeRef
  /-- The graft points above the node, the innermost first. -/
  graft : List GraftPoint
deriving DecidableEq, Inhabited

namespace Pointer

/-- A node of the document, standing where the document has it. -/
def real (id : NodeId) : Pointer := ⟨.real id, []⟩

/-- A silhouette at the top of a virtual tree. -/
def silhouette (id : SilhouetteId) : Pointer := ⟨.silhouette id, []⟩

/-- The node of the document that a pointer without graft points denotes. -/
def plainNode? (p : Pointer) : Option NodeId :=
  match p.node, p.graft with
  | .real id, [] => some id
  | _, _ => none

end Pointer

end VirtualTree
