import VirtualTree.Order.Compare
import VirtualTree.Proofs.Document.Tree
import VirtualTree.Proofs.Forest.Reached

/-!
# Paths

The path to a pointer is the path to its parent and then the pointer (`path_eq`), whatever its graft
points are.  Paths are computed with a bound on the steps upwards; the bound is far enough, since each
step lowers the height of a pointer: it leaves a graft point behind or goes up in the document.
-/

namespace VirtualTree

namespace Forest

variable {f : Forest} (wf : f.document.WellFormed)

/-- A bound on the steps upwards from a pointer. -/
def height (f : Forest) (p : Pointer) : ℕ :=
  p.graft.length + match p.node with
    | .real id => (f.document.ancestorsOrSelf id).length
    | .silhouette _ => 0

theorem height_le (p : Pointer) : f.height p ≤ p.graft.length + f.document.size := by
  obtain ⟨node, graft⟩ := p
  cases node with
  | real id => exact Nat.add_le_add_left (f.document.length_ancestorsOrSelf_le id) _
  | silhouette id => exact Nat.add_le_add_left (Nat.zero_le _) _

/-- A step up leaves a graft point behind, or goes up in the document with the same graft points. -/
theorem cases_of_parent? {p q : Pointer} (h : f.parent? p = .ok (some q)) :
    (∃ g, p.graft = g :: q.graft ∧ q.node = .silhouette g.parent) ∨
      q.graft = p.graft ∧ ∃ c i, p.node = .real c ∧ q.node = .real i ∧
        f.document.parent? c = some i := by
  obtain ⟨node, graft⟩ := p
  cases graft with
  | nil =>
    cases node with
    | real id =>
      obtain ⟨i, hi, rfl⟩ := Option.map_eq_some_iff.1 (Except.ok.inj h)
      exact Or.inr ⟨rfl, id, i, rfl, rfl, hi⟩
    | silhouette id => cases h
  | cons g up =>
    rw [parent?] at h
    dsimp only at h
    split_ifs at h with occupies
    · cases h
      exact Or.inl ⟨g, rfl, rfl⟩
    · cases node with
      | real id =>
        obtain ⟨i, hi, rfl⟩ := Option.map_eq_some_iff.1 (Except.ok.inj h)
        exact Or.inr ⟨rfl, id, i, rfl, rfl, hi⟩
      | silhouette id => cases h

include wf

theorem height_parent? {p q : Pointer} (h : f.parent? p = .ok (some q)) : f.height q < f.height p := by
  obtain ⟨g, graft, node⟩ | ⟨graft, c, i, nodeP, nodeQ, parent⟩ := cases_of_parent? h
  · rw [height, height, node, graft, List.length_cons]
    dsimp only
    omega
  · rw [height, height, nodeP, nodeQ, graft]
    simp only [wf.ancestorsOrSelf_of_parent parent, List.length_cons]
    omega

/-- The step up from a pointer without height leads nowhere. -/
theorem parent?_of_height_eq_zero {p : Pointer} (h : f.height p = 0) : f.parent? p = .ok none := by
  obtain ⟨node, graft⟩ := p
  cases graft with
  | cons g up => simp [height] at h
  | nil =>
    cases node with
    | silhouette id => rfl
    | real id =>
      cases hp : f.document.parent? id with
      | none =>
        show Except.ok ((f.document.parent? id).map Pointer.real) = _
        rw [hp]
        rfl
      | some p => simp [height, wf.ancestorsOrSelf_of_parent hp] at h

/-- Steps beyond the height of a pointer find nothing more. -/
theorem upward_eq {n m : ℕ} {p : Pointer} (hn : f.height p ≤ n) (hm : f.height p ≤ m) :
    f.upward n p = f.upward m p := by
  induction n generalizing m p with
  | zero =>
    have zero := Nat.le_zero.1 hn
    cases m with
    | zero => rfl
    | succ m =>
      rw [upward, upward, parent?_of_height_eq_zero wf zero]
      split_ifs <;> rfl
  | succ n ih =>
    cases m with
    | zero =>
      have zero := Nat.le_zero.1 hm
      rw [upward, upward, parent?_of_height_eq_zero wf zero]
      split_ifs <;> rfl
    | succ m =>
      rw [upward, upward]
      cases hp : f.parent? p with
      | error e => rfl
      | ok q? =>
        cases q? with
        | none => rfl
        | some q =>
          have lower := height_parent? wf hp
          have same := ih (p := q) (m := m) (by omega) (by omega)
          show (if _ then _ else (f.upward n q >>= fun l => _)) =
            if _ then _ else (f.upward m q >>= fun l => _)
          rw [same]

/-- The path to a pointer is the path to its parent, if it has one, and then the pointer. -/
theorem path_eq (p : Pointer) : f.path p =
    if f.kind p.node = .document then .ok [p]
    else match f.parent? p with
      | .error e => .error e
      | .ok none => .ok [p]
      | .ok (some q) => (f.path q).map (· ++ [p]) := by
  have far : f.upward (p.graft.length + f.document.size) p =
      f.upward (p.graft.length + f.document.size + 1) p :=
    upward_eq wf (height_le p) (Nat.le_succ_of_le (height_le p))
  rw [path, far, upward]
  split_ifs with top
  · rfl
  cases hp : f.parent? p with
  | error e => rfl
  | ok q? =>
    cases q? with
    | none => rfl
    | some q =>
      have lower := height_parent? wf hp
      have le := height_le (f := f) p
      have same := upward_eq wf (n := p.graft.length + f.document.size)
        (m := q.graft.length + f.document.size) (p := q) (by omega) (height_le q)
      show Except.map List.reverse (f.upward _ q >>= fun l => _) = (f.path q).map (· ++ [p])
      rw [same, path]
      cases f.upward (q.graft.length + f.document.size) q with
      | error e => rfl
      | ok l => exact congrArg Except.ok List.reverse_cons

end Forest

end VirtualTree
