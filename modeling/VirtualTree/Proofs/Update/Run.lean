import VirtualTree.Proofs.Update.Phases
import VirtualTree.Proofs.Update.Placement
import VirtualTree.Proofs.Update.Step

/-!
# Carrying out a list of updates

After preparation the invariant `Underway` holds for the staged list (`Evaluation.underway`), and so the
list is carried out step by step (`CarriedOut`), to its end or up to the replacement of an attribute
that lost its element (`Underway.carryOutAll`).  What single steps do to parents, names and children
adds up along the list.
-/

namespace VirtualTree

open Document

/-! ## The start -/

section Start

variable {e : Evaluation} {o : Options} {updates : List (Update Pointer)}
  {prepared : List (Update NodeId)} {s : Construction}

/-- What preparation of a whole list gives, if nothing was built before and inserted nodes are
copied. -/
theorem Evaluation.prepareAll_ok (wf : e.document.WellFormed) (memo : e.memo = .empty)
    (copy : o.copyInsertedContent = true)
    (targets : ∀ u ∈ updates, ∀ id, u.target.plainNode? = some id → e.document.Has id)
    (run : e.prepareAll o updates = .ok prepared s) :
    Stock e.document (prepared.flatMap Update.content) s ∧ e.document.Extends s.document ∧
      List.Forall₂ Update.Realizes prepared updates ∧
      ∀ v ∈ prepared, e.document.Has v.target ∧
        v.action.Suits s.document (e.document.kind v.target) ∧
        (v.action.NeedsParent → (e.document.parent? v.target).isSome) := by
  rw [Evaluation.prepareAll, memo] at run
  exact Construct.mapM_prepare_ok copy (Stock.start wf) targets run

/-- After preparation the staged list can be carried out. -/
theorem Evaluation.underway (wf : e.document.WellFormed) (memo : e.memo = .empty)
    (copy : o.copyInsertedContent = true)
    (targets : ∀ u ∈ updates, ∀ id, u.target.plainNode? = some id → e.document.Has id)
    (compatible : e.compatibility updates = .ok ())
    (run : e.prepareAll o updates = .ok prepared s) :
    Underway e.document (inStages prepared) s.document := by
  obtain ⟨stock, grown, realize, suit⟩ := Evaluation.prepareAll_ok wf memo copy targets run
  have perm : ((inStages prepared).flatMap Update.content).Perm (prepared.flatMap Update.content) :=
    (inStages_perm prepared).flatMap_right _
  refine ⟨grown.wellFormed, grown.size_le, fun i p => grown.inside_of_parent, fun v hv => ?_,
    fun v hv => ?_, fun v hv needs _ => ?_, fun n hn => ?_, fun n hn p hp => ?_,
    perm.nodup_iff.2 stock.nodup, Update.pairwise_precedes compatible realize⟩
  · exact (suit v (mem_inStages.1 hv)).1
  · obtain ⟨has, suits, -⟩ := suit v (mem_inStages.1 hv)
    rw [grown.kind_eq has]
    exact suits
  · obtain ⟨has, -, parent⟩ := suit v (mem_inStages.1 hv)
    rw [grown.parent?_eq has]
    exact parent needs
  · obtain ⟨fresh, has, -⟩ := stock.chosen n (perm.mem_iff.1 hn)
    exact ⟨fresh, has⟩
  · exact stock.outside_parent (perm.mem_iff.1 hn) hp

end Start

/-! ## Steps one after the other -/

/-- The updates `done` were carried out one after the other, from `d` to `d'`, and the updates `rest`
can be carried out next. -/
inductive CarriedOut (base : Document) (rest : List (Update NodeId)) :
    List (Update NodeId) → Document → Document → Prop
  | nil {d : Document} : Underway base rest d → CarriedOut base rest [] d d
  | cons {u : Update NodeId} {done : List (Update NodeId)} {d d₁ d' : Document} :
      Underway base (u :: (done ++ rest)) d → Edit.carryOut u d = .ok () d₁ → Stepped u d d₁ →
      CarriedOut base rest done d₁ d' → CarriedOut base rest (u :: done) d d'

/-- In one step a node that was there stays where it was, or loses its parent. -/
theorem Stepped.parent?_eq_or {base d d₁ : Document} {u : Update NodeId} {rest : List (Update NodeId)}
    {i : NodeId} (step : Stepped u d d₁) (start : Underway base (u :: rest) d) (has : base.Has i) :
    d₁.parent? i = d.parent? i ∨ d₁.parent? i = none := by
  have new : i ∉ u.content := fun hn => (start.content_head hn).1 has
  by_cases detached : u.Detaches d i
  · exact Or.inr (step.detached i (start.has has) new detached)
  · exact Or.inl (step.parent i (start.has has) new detached)

/-- A list is carried out to its end, or up to an attribute that is to be replaced and has lost its
element. -/
theorem Underway.carryOutAll {base d : Document} {l : List (Update NodeId)}
    (h : Underway base l d) :
    (∃ d', Edit.carryOutAll l d = .ok () d' ∧ CarriedOut base [] l d d') ∨
      ∃ done x nodes rest d', l = done ++ ⟨x, .replaceNode nodes⟩ :: rest ∧
        CarriedOut base (⟨x, .replaceNode nodes⟩ :: rest) done d d' ∧ d'.kind x = .attribute ∧
        d'.parent? x = none ∧ Edit.carryOutAll l d = .error .lostParent d' := by
  induction l generalizing d with
  | nil => exact Or.inl ⟨d, rfl, .nil h⟩
  | cons u l ih =>
    rw [Edit.carryOutAll_cons]
    rcases h.carryOut with ⟨d₁, run, step⟩ | ⟨⟨nodes, action⟩, kind, parent, run⟩
    · rw [bind_of_ok run]
      rcases ih (h.tail step) with ⟨d', rest, done⟩ | ⟨done, x, nodes, rest, d', rfl, carried, lost⟩
      · exact Or.inl ⟨d', rest, .cons (by rwa [List.append_nil]) run step done⟩
      · exact Or.inr ⟨u :: done, x, nodes, rest, d', rfl, .cons h run step carried, lost⟩
    · obtain ⟨x, action'⟩ := u
      obtain rfl : action' = .replaceNode nodes := action
      exact Or.inr ⟨[], x, nodes, l, d, rfl, .nil h, kind, parent, bind_of_error run⟩

theorem Underway.carriedOut {base d d' : Document} {l : List (Update NodeId)}
    (h : Underway base l d) (run : Edit.carryOutAll l d = .ok () d') : CarriedOut base [] l d d' := by
  rcases h.carryOutAll with ⟨d₁, run₁, carried⟩ | ⟨_, _, _, _, _, _, _, _, _, failed⟩
  · rw [run] at run₁
    cases run₁
    exact carried
  · rw [run] at failed
    cases failed

namespace CarriedOut

variable {base d d' : Document} {done rest : List (Update NodeId)} {i p : NodeId}

theorem size_le (h : CarriedOut base rest done d d') : d.size ≤ d'.size := by
  induction h with
  | nil => exact Nat.le_refl _
  | cons _ _ step _ ih => exact step.size_le.trans ih

theorem kind (h : CarriedOut base rest done d d') (i : NodeId) : d'.kind i = d.kind i := by
  induction h with
  | nil => rfl
  | cons _ _ step _ ih => exact ih.trans (step.kind i)

/-- Only updates of a node change its label. -/
theorem label (h : CarriedOut base rest done d d') (has : d.Has i) (other : ∀ u ∈ done, u.target ≠ i) :
    d'.label i = d.label i := by
  induction h with
  | nil => rfl
  | cons _ _ step _ ih =>
    rw [ih (Nat.lt_of_lt_of_le has step.size_le) fun v hv => other v (List.mem_cons_of_mem _ hv)]
    exact step.label i has (other _ List.mem_cons_self).symm

/-! ## Children -/

/-- Children that are not replaced altogether are rearranged update by update. -/
theorem children (h : CarriedOut base rest done d d') (has : base.Has p)
    (kept : ∀ text, ⟨p, .replaceElementContent text⟩ ∉ done) :
    d'.children p = done.foldl (fun K u => u.rearrange d.isVisible p K) (d.children p) := by
  induction h with
  | nil => rfl
  | @cons u done d d₁ d' start _ step run ih =>
    have visible : d₁.isVisible = d.isVisible := funext fun i => by
      rw [Document.isVisible, step.kind, Document.isVisible]
    have first : d₁.children p = u.rearrange d.isVisible p (d.children p) := by
      apply step.children p (fun n hn => start.absent hn has)
      intro text action e
      apply kept text
      rw [e, ← action]
      exact List.mem_cons_self
    rw [ih fun text mem => kept text (List.mem_cons_of_mem u mem), visible, first, List.foldl_cons]

end CarriedOut

end VirtualTree
