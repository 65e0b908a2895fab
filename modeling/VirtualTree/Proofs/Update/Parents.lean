import VirtualTree.Proofs.Update.Overtaking

/-!
# Parents after a list of updates

No list moves an old node from one parent to another: the node keeps its parent, or it has none in the
end (`CarriedOut.parent?_eq_or`).  It has none only if it is deleted or replaced, if it belongs to content
that is replaced, or if it is an attribute and another one of its name is set
(`exists_removes_or_overtakes`).
-/

namespace VirtualTree

open Document

/-- The update takes the node away, by itself or with all the content that it belongs to. -/
def Update.Removes (d : Document) (u : Update NodeId) (i : NodeId) : Prop :=
  match u.action with
  | .delete | .replaceNode _ => u.target = i
  | .replaceElementContent _ => i ∈ d.children u.target
  | _ => False

namespace Update

variable {d e : Document} {u : Update NodeId} {i : NodeId}

theorem removes_congr (wf : d.WellFormed) (wf' : e.WellFormed) (parent : e.parent? i = d.parent? i)
    (kind : e.kind i = d.kind i) : u.Removes e i ↔ u.Removes d i := by
  have children : i ∈ e.children u.target ↔ i ∈ d.children u.target := by
    rw [wf.mem_children, wf'.mem_children, parent, kind]
  obtain ⟨target, action⟩ := u
  cases action with
  | replaceElementContent text => exact children
  | delete | replaceNode | insert | insertAttributes | rename | replaceValue | put => exact Iff.rfl

/-- Only attributes lose their place to others. -/
theorem removes_of_detaches (notAttribute : d.kind i ≠ .attribute) (h : u.Detaches d i) :
    u.Removes d i := by
  obtain ⟨target, action⟩ := u
  cases action with
  | insertAttributes nodes => exact absurd h.2.1 notAttribute
  | replaceNode nodes =>
    rcases h with same | ⟨-, o, -, displaced⟩
    · exact same.symm
    · exact absurd displaced.2.1 notAttribute
  | replaceElementContent text => exact h
  | delete => exact h.symm
  | insert | rename | replaceValue | put => exact h.elim

end Update

namespace CarriedOut

variable {base d d' : Document} {done rest : List (Update NodeId)} {i : NodeId}
  (h : CarriedOut base rest done d d') (has : base.Has i)

include h has

theorem parent?_eq_or : d'.parent? i = d.parent? i ∨ d'.parent? i = none := by
  induction h with
  | nil => exact Or.inl rfl
  | cons start _ step _ ih =>
    rcases ih with same | lost
    · rw [same]
      exact step.parent?_eq_or start has
    · exact Or.inr lost

/-- A node that is no attribute loses its parent only when it is taken away. -/
theorem exists_removes (notAttribute : d.kind i ≠ .attribute) (changed : d'.parent? i ≠ d.parent? i) :
    ∃ u ∈ done, u.Removes d i := by
  induction h with
  | nil => exact absurd rfl changed
  | @cons u done d d₁ d' start _ step _ ih =>
    by_cases detached : u.Detaches d i
    · exact ⟨u, List.mem_cons_self, Update.removes_of_detaches notAttribute detached⟩
    · have same := step.parent i (start.has has) (fun hn => (start.content_head hn).1 has) detached
      obtain ⟨v, hv, removes⟩ := ih ((step.kind i).symm ▸ notAttribute) (same.symm ▸ changed)
      exact ⟨v, List.mem_cons_of_mem u hv,
        (Update.removes_congr start.wellFormed step.wellFormed same (step.kind i)).1 removes⟩

/-- A node loses its parent only when it is taken away, or to another attribute of its name. -/
theorem exists_removes_or_overtakes (changed : d'.parent? i ≠ d.parent? i) :
    (∃ u ∈ done, u.Removes d i) ∨ d.kind i = .attribute ∧
      ∃ earlier v between, done = earlier ++ v :: between ∧ v.Overtakes d earlier i := by
  by_cases removed : ∃ u ∈ done, u.Removes d i
  · exact Or.inl removed
  by_cases isAttribute : d.kind i = .attribute
  · have lost := (h.parent?_eq_or has).resolve_left changed
    refine Or.inr ⟨isAttribute, h.exists_overtakes has isAttribute ?_ lost fun u hu target => ?_⟩
    · rw [← Option.ne_none_iff_isSome]
      exact fun parent => changed (lost.trans parent.symm)
    · refine ⟨fun action => removed ⟨u, hu, ?_⟩, fun nodes action => removed ⟨u, hu, ?_⟩⟩
      · rwa [Update.Removes, action]
      · rwa [Update.Removes, action]
  · exact Or.inl (h.exists_removes has isAttribute changed)

end CarriedOut

/-- In terms of the document that the list is for: an old node is never moved, and it loses its parent
to an update that takes it away or to an attribute of its name. -/
theorem Underway.parent?_of_carryOutAll {base d d' : Document} {l : List (Update NodeId)}
    (h : Underway base l d) (grown : base.Extends d) (run : Edit.carryOutAll l d = .ok () d')
    {i : NodeId} (has : base.Has i) (changed : d'.parent? i ≠ base.parent? i) :
    d'.parent? i = none ∧ ((∃ v ∈ l, v.Removes base i) ∨ base.kind i = .attribute ∧
      ∃ earlier v between, l = earlier ++ v :: between ∧ v.Overtakes d earlier i) := by
  rw [← grown.parent?_eq has] at changed
  have carried := h.carriedOut run
  refine ⟨(carried.parent?_eq_or has).resolve_left changed, ?_⟩
  rw [← grown.kind_eq has]
  refine (carried.exists_removes_or_overtakes has changed).imp_left fun ⟨v, hv, removes⟩ => ⟨v, hv, ?_⟩
  exact (Update.removes_congr grown.origin h.wellFormed (grown.parent?_eq has) (grown.kind_eq has)).1
    removes

end VirtualTree
