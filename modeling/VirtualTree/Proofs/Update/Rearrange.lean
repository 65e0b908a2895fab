import VirtualTree.Proofs.Update.Batch

/-!
# One update seen from one list of children

`Update.rearrange` is what an update does to the children of a node.  Only insertions into the node look
at the list as a whole; everything else replaces an entry by a block and leaves the other entries where
they are.  The positions that an update computes, namely its target, the sibling after it, and the first
child that navigation shows, put the block where `rearrange` says.
-/

namespace VirtualTree

open Document

/-- A list with a block in the place of an entry. -/
def expandEntry (x : NodeId) (block l : List NodeId) : List NodeId :=
  l.flatMap fun c => if c = x then block else [c]

/-- A list with a block before the first entry that is shown. -/
def insertShown (shown : NodeId → Bool) (block l : List NodeId) : List NodeId :=
  l.takeWhile (!shown ·) ++ block ++ l.dropWhile (!shown ·)

/-- What an update does to the children of `p`; the replacement of all children apart. -/
def Update.rearrange (shown : NodeId → Bool) (p : NodeId) (u : Update NodeId) (l : List NodeId) :
    List NodeId :=
  match u.action with
  | .insert .into nodes => if p = u.target then l ++ nodes else l
  | .insert .intoAsLast nodes => if p = u.target then l ++ nodes else l
  | .insert .intoAsFirst nodes => if p = u.target then insertShown shown nodes l else l
  | .insert .before nodes => expandEntry u.target (nodes ++ [u.target]) l
  | .insert .after nodes => expandEntry u.target (u.target :: nodes) l
  | .replaceNode nodes => expandEntry u.target nodes l
  | .delete => expandEntry u.target [] l
  | _ => l

section Positions

variable {x : NodeId} {l : List NodeId} (block : List NodeId)

theorem expandEntry_cons (a : NodeId) :
    expandEntry x block (a :: l) = (if a = x then block else [a]) ++ expandEntry x block l :=
  List.flatMap_cons

theorem expandEntry_of_not_mem (h : x ∉ l) : expandEntry x block l = l := by
  induction l with
  | nil => rfl
  | cons a l ih =>
    obtain ⟨ne, h⟩ := not_or.1 (List.mem_cons.not.1 h)
    rw [expandEntry_cons, if_neg (Ne.symm ne), ih h]
    rfl

theorem filter_expandEntry (h : x ∉ block) :
    (expandEntry x (block ++ [x]) l).filter (· ≠ x) = expandEntry x block l := by
  induction l with
  | nil => rfl
  | cons a l ih =>
    have kept : block.filter (· ≠ x) = block :=
      List.filter_eq_self.2 fun c hc => by simpa using fun e : c = x => h (e ▸ hc)
    rw [expandEntry_cons, expandEntry_cons, List.filter_append, ih]
    split_ifs with ha
    · rw [List.filter_append, kept]
      simp
    · simp [ha]

theorem expandEntry_empty : expandEntry x [] l = l.filter (· ≠ x) := by
  induction l with
  | nil => rfl
  | cons a l ih =>
    rw [expandEntry_cons, ih]
    by_cases ha : a = x <;> simp [ha]

theorem insertEntries_before (mem : x ∈ l) (nodup : l.Nodup) :
    insertEntries block (some x) l = expandEntry x (block ++ [x]) l := by
  induction l with
  | nil => cases mem
  | cons a l ih =>
    obtain ⟨fresh, nodup⟩ := List.nodup_cons.1 nodup
    rw [expandEntry_cons]
    by_cases ha : a = x
    · subst ha
      rw [expandEntry_of_not_mem _ fresh]
      simp [insertEntries]
    · have later := ih ((List.mem_cons.1 mem).resolve_left (Ne.symm ha)) nodup
      rw [if_neg ha, ← later]
      simp [insertEntries, ha]

theorem insertEntries_after (mem : x ∈ l) (nodup : l.Nodup) :
    insertEntries block (entryAfter x l) l = expandEntry x (x :: block) l := by
  fun_induction entryAfter x l with
  | case1 b rest =>
    have fresh := (List.nodup_cons.1 nodup).1
    have ne : x ≠ b := fun e => fresh (by rw [e]; exact List.mem_cons_self)
    rw [expandEntry_cons, if_pos rfl, expandEntry_of_not_mem _ fresh]
    simp [insertEntries, ne]
  | case2 a b rest ne ih =>
    obtain ⟨fresh, nodup⟩ := List.nodup_cons.1 nodup
    rw [expandEntry_cons, if_neg ne, ← ih ((List.mem_cons.1 mem).resolve_left (Ne.symm ne)) nodup]
    cases hr : entryAfter x (b :: rest) with
    | none => simp [insertEntries]
    | some r =>
      have : a ≠ r := fun e => fresh (e ▸ mem_of_entryAfter hr)
      simp [insertEntries, this]
  | case3 l single =>
    rcases l with - | ⟨a, - | ⟨b, rest⟩⟩
    · cases mem
    · obtain rfl := List.mem_singleton.1 mem
      simp [insertEntries, expandEntry]
    · exact (single a b rest rfl).elim

theorem insertEntries_shown (shown : NodeId → Bool) :
    insertEntries block (l.find? shown) l = insertShown shown block l := by
  induction l with
  | nil => simp [insertEntries, insertShown]
  | cons a l ih =>
    by_cases ha : shown a
    · simp [insertEntries, insertShown, ha]
    · have later : insertShown shown block (a :: l) = a :: insertShown shown block l := by
        simp [insertShown, ha]
      rw [later, ← ih, List.find?_cons_of_neg ha]
      cases hr : l.find? shown with
      | none => rfl
      | some r =>
        have : a ≠ r := fun e => ha (e ▸ List.find?_some hr)
        simp [insertEntries, this]

end Positions

end VirtualTree
