import VirtualTree.Evaluation
import VirtualTree.Proofs.Update.Prepare

/-!
# The phases of an application

An application of updates goes through three phases: the check for contradictions, the preparation of
all updates, and the carrying out of the prepared ones in stages (`applyUpdates_apply`).  Only the
last changes nodes that were there, and only its failures are reported as `failedMidway`.
-/

namespace VirtualTree

namespace Edit

/-- Carries out prepared updates one after the other. -/
def carryOutAll (updates : List (Update NodeId)) : Edit Unit := updates.forM carryOut

theorem carryOutAll_cons (u : Update NodeId) (us : List (Update NodeId)) :
    carryOutAll (u :: us) = (do carryOut u; carryOutAll us) := rfl

end Edit

namespace Construct

theorem forM_carryOut (us : List (Update NodeId)) (s : Construction) :
    (us.forM fun u => mapError .failedMidway (edit (Edit.carryOut u))) s =
      match Edit.carryOutAll us s.document with
      | .ok () d => .ok () { s with document := d }
      | .error e d => .error (.failedMidway e) { s with document := d } := by
  induction us generalizing s with
  | nil => rfl
  | cons u us ih =>
    show (mapError _ (edit (Edit.carryOut u)) >>= fun _ => us.forM _) s = _
    rw [bind_apply, Edit.carryOutAll_cons, bind_apply]
    unfold mapError edit
    cases Edit.carryOut u s.document with
    | ok a d => exact ih { s with document := d }
    | error e d => rfl

end Construct

namespace Evaluation

/-- What an evaluation with the given options prepares updates with. -/
def setting (e : Evaluation) (o : Options) : Setting := ⟨e.arena, o.copyInsertedContent⟩

/-- The preparation of updates in an evaluation. -/
def prepareAll (e : Evaluation) (o : Options) (updates : List (Update Pointer)) :
    EStateM.Result Error Construction (List (Update NodeId)) :=
  updates.mapM (Construct.prepare (e.setting o)) ⟨e.document, e.memo, []⟩

end Evaluation

namespace Evaluate

variable {updates : List (Update Pointer)} {o : Options} {e : Evaluation}

/-- An application of updates, phase by phase. -/
theorem applyUpdates_apply : applyUpdates updates o e =
    match e.compatibility updates with
    | .error err => .error err e
    | .ok () =>
      match e.prepareAll o updates with
      | .error err s => .error err { e with document := s.document, memo := s.memo }
      | .ok prepared s =>
        match Edit.carryOutAll (inStages prepared) s.document with
        | .error cause d => .error (.failedMidway cause) { e with document := d, memo := s.memo }
        | .ok () d => .ok () { e with document := d, memo := s.memo } := by
  have inside : applyUpdates updates o e =
      construct (Construct.applyUpdates (e.setting o) updates) o e := rfl
  rw [inside]
  unfold construct
  cases updates with
  | nil => rfl
  | cons u us =>
    have phases : Construct.applyUpdates (e.setting o) (u :: us) ⟨e.document, e.memo, []⟩ =
        (Construct.ofExcept (e.compatibility (u :: us)) >>= fun _ =>
          (modify fun s => { s with used := [] } : Construct PUnit) >>= fun _ =>
            (u :: us).mapM (Construct.prepare (e.setting o)) >>= fun prepared =>
              (inStages prepared).forM fun u => Construct.mapError .failedMidway
                (Construct.edit (Edit.carryOut u))) ⟨e.document, e.memo, []⟩ := rfl
    rw [phases]
    cases e.compatibility (u :: us) with
    | error err => rfl
    | ok answer =>
      have checked : Construct.ofExcept (.ok answer) ⟨e.document, e.memo, []⟩ =
        .ok answer ⟨e.document, e.memo, []⟩ := rfl
      have cleared : (modify fun s => { s with used := [] } : Construct PUnit)
        ⟨e.document, e.memo, []⟩ = .ok ⟨⟩ ⟨e.document, e.memo, []⟩ := rfl
      rw [bind_of_ok checked, bind_of_ok cleared, bind_apply, ← Evaluation.prepareAll]
      cases e.prepareAll o (u :: us) with
      | error err s => rfl
      | ok prepared s =>
        simp only [Construct.forM_carryOut]
        cases Edit.carryOutAll (inStages prepared) s.document <;> rfl

/-- An application succeeds when all three phases do. -/
theorem applyUpdates_ok {e' : Evaluation} (run : applyUpdates updates o e = .ok () e') :
    e.compatibility updates = .ok () ∧ ∃ prepared s d, e.prepareAll o updates = .ok prepared s ∧
      Edit.carryOutAll (inStages prepared) s.document = .ok () d ∧
      e' = { e with document := d, memo := s.memo } := by
  rw [applyUpdates_apply] at run
  split at run
  · cases run
  · rename_i compatible
    split at run
    · cases run
    · rename_i prepared s prepare
      split at run
      · cases run
      · rename_i d carryOut
        cases run
        exact ⟨compatible, prepared, s, d, prepare, carryOut, rfl⟩

end Evaluate

end VirtualTree
