import VirtualTree.Proofs.Update.Prepared
import VirtualTree.Proofs.Update.Stages

/-!
# Lists without contradictions

What the check for contradictions gives for the prepared updates in the order in which they are carried
out: stages ascend, and no node is replaced twice and no content is replaced twice
(`pairwise_precedes`).
-/

namespace VirtualTree

theorem firstRepeated_eq_none_iff {α : Type} [DecidableEq α] {seen l : List α} :
    firstRepeated seen l = none ↔ l.Nodup ∧ ∀ a ∈ l, a ∉ seen := by
  induction l generalizing seen with
  | nil => simp [firstRepeated]
  | cons a l ih =>
    rw [firstRepeated]
    split_ifs with h
    · simp [h]
    · rw [ih, List.nodup_cons]
      simp only [List.mem_cons, not_or, forall_eq_or_imp, h, not_false_eq_true, true_and]
      constructor
      · rintro ⟨nodup, new⟩
        exact ⟨⟨fun mem => (new a mem).1 rfl, nodup⟩, fun b hb => (new b hb).2⟩
      · rintro ⟨⟨fresh, nodup⟩, new⟩
        exact ⟨nodup, fun b hb => ⟨fun e => fresh (e ▸ hb), new b hb⟩⟩

theorem Forest.nodup_of_compatibility {f : Forest} {updates : List (Update Pointer)}
    (h : f.compatibility updates = .ok ()) :
    (targetsOf .replaceNode updates).Nodup ∧ (targetsOf .replaceElementContent updates).Nodup := by
  cases conflict : f.targetConflict? updates with
  | some c =>
    unfold compatibility at h
    rw [conflict] at h
    cases h
  | none =>
    simp only [targetConflict?, Option.or_eq_none_iff, Option.map_eq_none_iff,
      firstRepeated_eq_none_iff] at conflict
    exact ⟨conflict.2.1.1, conflict.2.2.2.1.1⟩

theorem Pointer.eq_real_of_plainNode? {p : Pointer} {id : NodeId} (h : p.plainNode? = some id) :
    p = .real id := by
  obtain ⟨node, graft⟩ := p
  cases node with
  | real n =>
    cases graft with
    | nil => exact congrArg Pointer.real (Option.some.inj h)
    | cons _ _ => cases h
  | silhouette _ => cases h

namespace Update

theorem Realizes.kind {v : Update NodeId} {u : Update Pointer} (h : v.Realizes u) :
    v.kind = u.kind := by
  rw [Update.kind, h.action, Action.kind_withContent, Update.kind]

/-- The targets of prepared updates are those of the updates. -/
theorem targetsOf_eq_of_realizes {prepared : List (Update NodeId)} {updates : List (Update Pointer)}
    (h : List.Forall₂ Realizes prepared updates) (kind : UpdateKind) :
    targetsOf kind updates =
      ((prepared.filter fun v => v.kind = kind).map Update.target).map Pointer.real := by
  induction h with
  | nil => rfl
  | @cons v u vs us first _ ih =>
    have kinds := first.kind
    unfold targetsOf at ih ⊢
    by_cases hk : u.kind = kind
    · rw [List.filter_cons_of_pos (by simpa using hk),
        List.filter_cons_of_pos (by simpa [kinds] using hk)]
      simp only [List.map_cons, ih, Pointer.eq_real_of_plainNode? first.target]
    · rw [List.filter_cons_of_neg (by simpa using hk),
        List.filter_cons_of_neg (by simpa [kinds] using hk), ih]

/-- `u` may be carried out before `v`. -/
structure Precedes (u v : Update NodeId) : Prop where
  stage_le : u.action.stage ≤ v.action.stage
  /-- Nothing is replaced twice. -/
  target_ne : u.kind = v.kind → u.kind = .replaceNode ∨ u.kind = .replaceElementContent →
    u.target ≠ v.target

/-- In the order of carrying out every update may precede those after it. -/
theorem pairwise_precedes {f : Forest} {updates : List (Update Pointer)}
    {prepared : List (Update NodeId)} (compatible : f.compatibility updates = .ok ())
    (realize : List.Forall₂ Realizes prepared updates) :
    (inStages prepared).Pairwise Precedes := by
  have distinct : ∀ kind, (targetsOf kind updates).Nodup →
      (inStages prepared).Pairwise fun u v => u.kind = kind → v.kind = kind →
        u.target ≠ v.target := by
    intro kind nodup
    rw [targetsOf_eq_of_realizes realize] at nodup
    have nodup := List.Nodup.of_map _ nodup
    have perm := ((inStages_perm prepared).filter fun v => v.kind = kind).map Update.target
    rw [← perm.nodup_iff, List.Nodup, List.pairwise_map, List.pairwise_filter] at nodup
    exact nodup.imp fun h hu hv => h (by simpa using hu) (by simpa using hv)
  obtain ⟨nodes, contents⟩ := Forest.nodup_of_compatibility compatible
  apply ((pairwise_inStages prepared).and ((distinct _ nodes).and (distinct _ contents))).imp
  rintro u v ⟨stage, node, content⟩
  refine ⟨stage, fun same kind => ?_⟩
  rcases kind with kind | kind
  · exact node kind (same ▸ kind)
  · exact content kind (same ▸ kind)

end Update

end VirtualTree
