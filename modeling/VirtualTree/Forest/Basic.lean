import VirtualTree.Arena
import VirtualTree.Document.Basic

/-!
# Forests

A `Forest` is a document together with an arena: all the nodes, real and virtual, that pointers can
denote.  This file gives what can be said of a node wherever it stands: its kind, its name, its value
and the tree below it.
-/

namespace VirtualTree

/-- A document and the silhouettes that stand beside it. -/
structure Forest where
  /-- The real nodes. -/
  document : Document
  /-- The virtual nodes. -/
  arena : Arena

namespace Forest

variable (f : Forest)

/-- The label of a node. -/
def label : NodeRef → Label
  | .real id => f.document.label id
  | .silhouette id => (f.arena.get id).label

/-- The kind of a node. -/
def kind (r : NodeRef) : Kind := (f.label r).kind

/-- The name a node answers to. -/
def name? (r : NodeRef) : Option Name := (f.label r).name?

/-- The value of an attribute or the data of a leaf. -/
def value? (r : NodeRef) : Option String := (f.label r).value?

/-- Every node but a document type is shown by navigation. -/
def isVisible (r : NodeRef) : Bool := f.kind r ≠ .documentType

/-- How messages show a node: by its name, or by its kind if it has no name. -/
def describe (p : Pointer) : String :=
  match f.name? p.node with
  | some name => name.written
  | none => (f.kind p.node).written

/-- The tree that is built for a node: the tree below it, where no silhouette shows a document type
among its children or attributes. -/
def tree (r : NodeRef) : Tree :=
  match r with
  | .real id => f.document.tree id
  | .silhouette id =>
    .node (f.arena.get id).label
      ((f.arena.get id).attributes.attach.filterMap fun r =>
        if f.isVisible r.1 then some (tree r.1) else none)
      ((f.arena.get id).children.attach.filterMap fun r =>
        if f.isVisible r.1 then some (tree r.1) else none)
termination_by match r with
  | .real _ => 0
  | .silhouette id => id.index + 1
decreasing_by
  all_goals
    have mem : r.1 ∈ (f.arena.get id).references := by
      simp only [Silhouette.references, List.mem_append, r.2, or_true, true_or]
    have below : r.1.Below id.index := Arena.below_of_mem_references mem
    revert below
    cases r.1
    · exact fun _ => Nat.zero_lt_succ _
    · exact Nat.succ_lt_succ

theorem tree_real (id : NodeId) : f.tree (.real id) = f.document.tree id := by
  rw [tree]

private theorem filterMap_attach {α β : Type} (l : List α) (p : α → Bool) (g : α → β) :
    (l.attach.filterMap fun x => if p x.1 then some (g x.1) else none) = (l.filter p).map g := by
  rw [← List.filterMap_eq_map, List.filterMap_filter]
  conv => rhs; rw [← List.attach_map_subtype_val l, List.filterMap_map]
  rfl

theorem tree_silhouette (id : SilhouetteId) :
    f.tree (.silhouette id) = .node (f.arena.get id).label
      (((f.arena.get id).attributes.filter f.isVisible).map f.tree)
      (((f.arena.get id).children.filter f.isVisible).map f.tree) := by
  rw [tree, filterMap_attach, filterMap_attach]

end Forest

end VirtualTree
