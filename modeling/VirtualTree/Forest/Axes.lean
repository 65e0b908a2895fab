import VirtualTree.Forest.Basic

/-!
# Navigation

The steps from one pointer to others: to the children, the attributes, the siblings and the parent.
Steps treat real and virtual nodes alike and never show a document type.  A node below a silhouette
carries the slots it was reached through; a real node below a spliced node carries the graft points
of the spliced node, so that going up leads back under the same silhouette.  A step that leads
nowhere gives `none`; an error means that a pointer does not fit its graft points.
-/

namespace VirtualTree

/-- The two ways along a list of siblings. -/
inductive Direction where
  | next
  | previous
deriving DecidableEq, Inhabited

namespace Document

variable (d : Document)

/-- The neighbour of a node among its siblings. -/
def sibling? : Direction → NodeId → Option NodeId
  | .next, id => d.nextSibling? id
  | .previous, id => d.previousSibling? id

/-- The first visible node on the way along the siblings, looking at most `n` nodes far. -/
def visibleWithin (direction : Direction) : Nat → Option NodeId → Option NodeId
  | n + 1, some id =>
    if d.isVisible id then some id else visibleWithin direction n (d.sibling? direction id)
  | _, _ => none

/-- The first visible node on the way along the siblings, from a given one. -/
def visibleFrom (direction : Direction) (start : Option NodeId) : Option NodeId :=
  d.visibleWithin direction d.size start

end Document

namespace Forest

variable (f : Forest)

/-! ## Slots -/

/-- The entry of a silhouette that a slot names. -/
def entry? (parent : SilhouetteId) : Slot → Option NodeRef
  | .child index => (f.arena.get parent).children[index]?
  | .attribute name => (f.arena.get parent).attributes.find? fun r => f.name? r = some name

/-- The node is the very entry that a graft point names, and not a node below it. -/
def Occupies (r : NodeRef) (g : GraftPoint) : Prop := f.entry? g.parent g.slot = some r

instance (r : NodeRef) (g : GraftPoint) : Decidable (f.Occupies r g) := by
  unfold Occupies; infer_instance

/-- The child entries of a silhouette that navigation shows, each with its position. -/
def visibleEntries (id : SilhouetteId) : List (NodeRef × Nat) :=
  (f.arena.get id).children.zipIdx.filter fun e => f.isVisible e.1

/-- The pointer to a child entry of a silhouette. -/
def entryPointer (parent : SilhouetteId) (graft : List GraftPoint) (e : NodeRef × Nat) : Pointer :=
  ⟨e.1, ⟨parent, .child e.2⟩ :: graft⟩

/-! ## Downwards -/

/-- The children of a node, in order. -/
def children (p : Pointer) : List Pointer :=
  match p.node with
  | .silhouette id => (f.visibleEntries id).map (entryPointer id p.graft)
  | .real id =>
    ((f.document.children id).filter f.document.isVisible).map fun c => ⟨.real c, p.graft⟩

/-- The first child of a node. -/
def firstChild? (p : Pointer) : Option Pointer :=
  match p.node with
  | .silhouette id => (f.visibleEntries id).head?.map (entryPointer id p.graft)
  | .real id =>
    (f.document.visibleFrom .next (f.document.children id).head?).map fun c => ⟨.real c, p.graft⟩

/-- The last child of a node. -/
def lastChild? (p : Pointer) : Option Pointer :=
  match p.node with
  | .silhouette id => (f.visibleEntries id).getLast?.map (entryPointer id p.graft)
  | .real id =>
    (f.document.visibleFrom .previous (f.document.children id).getLast?).map
      fun c => ⟨.real c, p.graft⟩

/-- The attributes of a node, in order. -/
def attributes (p : Pointer) : List Pointer :=
  match p.node with
  | .silhouette id => (f.arena.get id).attributes.filterMap fun r =>
    (f.name? r).map fun name => ⟨r, ⟨id, .attribute name⟩ :: p.graft⟩
  | .real id =>
    if f.document.kind id = .element then
      (f.document.attributes id).map fun a => ⟨.real a, p.graft⟩
    else []

/-- The first attribute with the given written name. -/
def attributeWritten? (p : Pointer) (written : String) : Option Pointer :=
  (f.attributes p).find? fun a => (f.name? a.node).any fun n => n.written = written

/-- The value of the first attribute with the given written name. -/
def attributeValue? (p : Pointer) (written : String) : Option String :=
  match p.node with
  | .real id => (f.document.attributeWritten? id written).bind f.document.value?
  | .silhouette _ => (f.attributeWritten? p written).bind fun a => f.value? a.node

/-! ## Sideways -/

/-- The visible entry of a silhouette that is nearest to a position in a direction. -/
def neighbour? (id : SilhouetteId) (index : Nat) : Direction → Option (NodeRef × Nat)
  | .next => (f.visibleEntries id).find? fun e => index < e.2
  | .previous => ((f.visibleEntries id).filter fun e => e.2 < index).getLast?

/-- The neighbour of a real node among the children of its real parent. -/
def realSibling? (direction : Direction) (graft : List GraftPoint) (id : NodeId) : Option Pointer :=
  if f.document.kind id = .attribute then none
  else (f.document.visibleFrom direction (f.document.sibling? direction id)).map
    fun s => ⟨.real s, graft⟩

/-- The sibling of a node in a direction.  An entry of a silhouette has the neighbouring entries for
siblings; attributes have none. -/
def sibling? (direction : Direction) (p : Pointer) : Except Error (Option Pointer) :=
  match p.graft with
  | [] =>
    match p.node with
    | .real id => .ok (f.realSibling? direction [] id)
    | .silhouette _ => .ok none
  | g :: up =>
    if f.Occupies p.node g then
      match g.slot with
      | .attribute _ => .ok none
      | .child index => .ok ((f.neighbour? g.parent index direction).map (entryPointer g.parent up))
    else
      match p.node with
      | .real id => .ok (f.realSibling? direction (g :: up) id)
      | .silhouette id => .error (.strayedSilhouette id)

/-- The sibling after a node. -/
def nextSibling? (p : Pointer) : Except Error (Option Pointer) := f.sibling? .next p

/-- The sibling before a node. -/
def previousSibling? (p : Pointer) : Except Error (Option Pointer) := f.sibling? .previous p

/-! ## Upwards -/

/-- The parent of a child or the owner of an attribute.  From an entry of a silhouette the step leads
to the silhouette; from a real node below a spliced one it leads to its real parent. -/
def parent? (p : Pointer) : Except Error (Option Pointer) :=
  match p.graft with
  | [] =>
    match p.node with
    | .real id => .ok ((f.document.parent? id).map Pointer.real)
    | .silhouette _ => .ok none
  | g :: up =>
    if f.Occupies p.node g then .ok (some ⟨.silhouette g.parent, up⟩)
    else
      match p.node with
      | .real id => .ok ((f.document.parent? id).map fun q => ⟨.real q, g :: up⟩)
      | .silhouette id => .error (.emptySlot id g.slot g.parent)

end Forest

end VirtualTree
