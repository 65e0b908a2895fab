import VirtualTree.Forest.Axes
import VirtualTree.Tree.Build

/-!
# Building virtual trees

A pointer to a virtual node is turned into a real node by building the whole virtual tree it stands
in and looking up its place there.  A memo keeps the built form of each top, so a tree is built once,
and two pointers into one virtual tree lead into one built tree.  A real node spliced under a
silhouette is copied, and any other real node is itself.
-/

namespace VirtualTree

/-- The built forms of the tops of virtual trees, the latest first. -/
structure Memo where
  /-- A top and the node built for it. -/
  entries : List (SilhouetteId × NodeId)
deriving DecidableEq

namespace Memo

/-- The memo without entries. -/
def empty : Memo := ⟨[]⟩

instance : Inhabited Memo := ⟨empty⟩

/-- The number of virtual trees built so far. -/
def size (m : Memo) : Nat := m.entries.length

/-- The node built for a top. -/
def built? (m : Memo) (top : SilhouetteId) : Option NodeId := m.entries.lookup top

/-- The memo after building a top. -/
def insert (m : Memo) (top : SilhouetteId) (node : NodeId) : Memo := ⟨(top, node) :: m.entries⟩

end Memo

/-- What building works on: the document, the memo, and the nodes already chosen as content of the
update list at hand. -/
structure Construction where
  /-- The document that the nodes are built in. -/
  document : Document
  /-- The built forms of virtual trees. -/
  memo : Memo
  /-- The nodes already chosen as content. -/
  used : List NodeId

/-- A computation that builds nodes and may fail; a failure keeps what was built before it. -/
abbrev Construct := EStateM Error Construction

namespace Construct

/-- An edit of the document. -/
def edit {α : Type} (m : Edit α) : Construct α := fun s =>
  match m s.document with
  | .ok a d => .ok a { s with document := d }
  | .error e d => .error e { s with document := d }

/-- An answer that changes nothing. -/
def ofExcept {α : Type} : Except Error α → Construct α
  | .ok a => pure a
  | .error e => throw e

/-- The nodes that pointers into an arena can denote at this point. -/
def forest (arena : Arena) : Construct Forest := return ⟨(← get).document, arena⟩

end Construct

namespace Forest

variable (f : Forest)

/-- The slot of a graft point in the built tree, where document types are left out. -/
def builtSlot (g : GraftPoint) : Slot :=
  match g.slot with
  | .child index => .child (((f.arena.get g.parent).children.take index).filter f.isVisible).length
  | .attribute name => .attribute name

/-- The top of the virtual tree that a node stands in, and the slots of the built tree that lead from
the top to the node.  Each of at most `n` steps leaves a graft point behind. -/
def descent : Nat → Pointer → Except Error (SilhouetteId × List Slot)
  | _, ⟨.silhouette top, []⟩ => .ok (top, [])
  | _, ⟨.real _, []⟩ => .error .realTop
  | 0, ⟨_, _ :: _⟩ => .error .parentlessGraft
  | n + 1, ⟨node, g :: up⟩ => do
    match ← f.parent? ⟨node, g :: up⟩ with
    | none => throw .parentlessGraft
    | some q =>
      let (top, slots) ← descent n q
      return (top, slots ++ [f.builtSlot g])

end Forest

/-- The node in a slot of a built node. -/
def Document.inSlot? (d : Document) (id : NodeId) : Slot → Option NodeId
  | .child index => ((d.children id).filter d.isVisible)[index]?
  | .attribute name => (d.attributes id).find? fun a => d.name? a = some name

/-- The node that a list of slots leads to. -/
def Document.follow (d : Document) : NodeId → List Slot → Except Error NodeId
  | id, [] => .ok id
  | id, slot :: slots =>
    match d.inSlot? id slot with
    | some next => d.follow next slots
    | none => .error (.unbuiltSlot slot)

namespace Construct

/-- The built form of the top of a virtual tree, built now if it was not built before. -/
def builtTop (arena : Arena) (top : SilhouetteId) : Construct NodeId := do
  match (← get).memo.built? top with
  | some node => return node
  | none =>
    let node ← edit ((← forest arena).tree (.silhouette top)).build
    modify fun s => { s with memo := s.memo.insert top node }
    return node

/-- The real node for a pointer. -/
def materialize (arena : Arena) (p : Pointer) : Construct NodeId := do
  match p.node, p.graft with
  | .real id, [] => return id
  | .real id, _ :: _ => edit (Edit.deepClone id)
  | .silhouette _, graft =>
    let (top, slots) ← ofExcept ((← forest arena).descent graft.length p)
    let node ← builtTop arena top
    ofExcept ((← get).document.follow node slots)

/-- A fresh copy of what a pointer denotes, without a parent and never shared. -/
def deepCopy (arena : Arena) (p : Pointer) : Construct NodeId := do
  edit ((← forest arena).tree p.node).build

end Construct

end VirtualTree
