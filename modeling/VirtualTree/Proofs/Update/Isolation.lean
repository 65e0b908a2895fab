import VirtualTree.Proofs.Update.Frame

/-!
# Updates that stay outside

An update whose target and content are outside an earlier document leaves that document untouched when
it is carried out, whether that succeeds or fails halfway (`keeps_carryOut`).  If content is copied and
the memo leads outside, what is prepared has its content outside, so a whole application with targets
outside leaves the document untouched as well (`keeps_applyUpdates`).
-/

namespace VirtualTree

open Document

variable {base : Document}

namespace Edit

/-- No link leads from an earlier document to the outside, so edits outside of it keep it. -/
theorem frame_outside : Frame base.Extends (fun i => ¬ base.Has i) fun i => ¬ base.Has i where
  parent _ h _ _ outside hp := h.outside_parent outside hp
  child _ h _ _ outside hc := h.outside_of_mem_children outside hc
  create := keeps_create
  insertBefore _ _ reference? hp hc := keeps_insertBefore reference? hp hc
  setAttribute _ _ ho ha := keeps_setAttribute ho ha
  remove _ hid := keeps_remove hid
  relabel _ _ _ hid kind := keeps_relabel hid kind

/-- An update outside of a document leaves it untouched. -/
theorem keeps_carryOut {u : Update NodeId} (target : ¬ base.Has u.target)
    (content : ∀ n ∈ u.content, ¬ base.Has n) : Keeps base.Extends (carryOut u) fun _ => True :=
  frame_outside.keeps_carryOut ⟨fun _ => target, fun _ => target, content⟩

end Edit

/-! ## Applications -/

theorem Construct.keeps_applyUpdates {setting : Setting} {updates : List (Update Pointer)}
    (chooses : Chooses setting fun n => ¬ base.Has n)
    (targets : ∀ u ∈ updates, ∀ id, u.target.plainNode? = some id → ¬ base.Has id) :
    Keeps (Construction.Extends base fun n => ¬ base.Has n) (applyUpdates setting updates)
      fun _ => True := by
  unfold applyUpdates
  split_ifs
  · exact keeps_pure trivial
  refine keeps_get_bind fun s hs => (keeps_ofExcept fun _ _ => trivial).bind (fun _ _ => ?_) s hs
  refine (keeps_modify fun s hs => ⟨hs.document, hs.memo⟩).bind fun _ _ => ?_
  have prepare_outside : Keeps (Construction.Extends base fun n => ¬ base.Has n)
      (updates.mapM (prepare setting))
      fun prepared => ∀ v ∈ prepared, ¬ base.Has v.target ∧ ∀ n ∈ v.content, ¬ base.Has n :=
    keeps_mapM fun u hu => (keeps_prepare admits_outside chooses u).mono
      fun v hv => ⟨targets u hu _ hv.1.target, hv.2⟩
  apply prepare_outside.bind
  intro prepared outside
  refine keeps_forM fun v hv => keeps_mapError (keeps_edit_extends ?_) _
  obtain ⟨target, content⟩ := outside v (mem_inStages.1 hv)
  exact Edit.keeps_carryOut target content

/-- The document of an evaluation extends `base`, and the memo leads outside of it. -/
structure Evaluation.Extends (base : Document) (e : Evaluation) : Prop where
  document : base.Extends e.document
  memo : ∀ entry ∈ e.memo.entries, ¬ base.Has entry.2

namespace Evaluate

/-- A construction in an evaluation keeps what it keeps on its own. -/
theorem keeps_construct {α : Type} {m : Construct α} {Q : α → Prop} (o : Options)
    (h : Keeps (Construction.Extends base fun n => ¬ base.Has n) m Q) :
    Keeps (Evaluation.Extends base) (construct m o) Q := by
  intro e he
  have := h ⟨e.document, e.memo, []⟩ ⟨he.document, he.memo⟩
  unfold construct
  split at this
  · rename_i run
    rw [run]
    exact ⟨⟨this.1.document, this.1.memo⟩, this.2⟩
  · rename_i run
    rw [run]
    exact ⟨this.document, this.memo⟩

/-- Materializing a virtual node works on fresh nodes only; a node of the document is itself. -/
theorem keeps_materialize (o : Options) (p : Pointer) :
    Keeps (Evaluation.Extends base) (materialize p o) fun _ => True := by
  refine keeps_get_bind fun e he => keeps_construct (Q := fun _ => True) o ?_ e he
  cases plain : p.plainNode? with
  | none => exact (Construct.keeps_materialize admits_outside e.arena plain).mono fun _ _ => trivial
  | some id =>
    obtain ⟨node, graft⟩ := p
    cases node <;> cases graft <;> cases plain
    exact keeps_pure trivial

theorem keeps_deepCopy (o : Options) (p : Pointer) :
    Keeps (Evaluation.Extends base) (deepCopy p o) fun n => ¬ base.Has n :=
  keeps_get_bind fun e he => keeps_construct o (Construct.keeps_deepCopy e.arena p) e he

/-- An application of updates leaves a document untouched if no target is in it. -/
theorem keeps_applyUpdates {o : Options} {updates : List (Update Pointer)}
    (chooses : o.copyInsertedContent = false → ∀ i, ¬ base.Has i)
    (targets : ∀ u ∈ updates, ∀ id, u.target.plainNode? = some id → ¬ base.Has id) :
    Keeps (Evaluation.Extends base) (applyUpdates updates o) fun _ => True :=
  keeps_get_bind fun e he => keeps_construct o
    (Construct.keeps_applyUpdates (show Construct.Chooses (e.setting o) _ from chooses) targets) e he

end Evaluate

end VirtualTree
