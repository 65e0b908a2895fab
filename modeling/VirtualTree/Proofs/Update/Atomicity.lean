import VirtualTree.Proofs.Update.Phases

/-!
# Recoverable errors

An application of updates that fails before anything is carried out leaves every node that was there
as it was.  What was built on the way stays in the document, out of reach.  All recoverable errors are
of this sort, whatever the memo holds and whatever the options are.
-/

namespace VirtualTree

open Document

namespace Evaluation

variable {e : Evaluation} {o : Options} {updates : List (Update Pointer)}

/-- Preparing updates leaves the nodes that were there as they were. -/
theorem extends_prepareAll (wf : e.document.WellFormed) :
    e.document.Extends (endState (e.prepareAll o updates)).document := by
  have keeps : Keeps (Construction.Extends e.document fun _ => True)
      (updates.mapM (Construct.prepare (e.setting o))) fun _ => True :=
    (keeps_mapM fun u _ => (Construct.keeps_prepare admits_all (fun _ _ => trivial) u).mono
      fun _ _ => trivial).mono fun _ _ => trivial
  exact (keeps.endState ⟨wf.extends_self, fun _ _ => trivial⟩).document

end Evaluation

namespace Evaluate

variable {e e' : Evaluation} {o : Options} {updates : List (Update Pointer)} {err : Error}

theorem extends_of_applyUpdates_error (wf : e.document.WellFormed)
    (run : applyUpdates updates o e = .error err e') (midway : ∀ cause, err ≠ .failedMidway cause) :
    e.document.Extends e'.document := by
  rw [applyUpdates_apply] at run
  have prepared : e.document.Extends (endState (e.prepareAll o updates)).document :=
    Evaluation.extends_prepareAll wf
  split at run
  · cases run
    exact wf.extends_self
  · split at run
    · rename_i failed
      cases run
      rw [failed] at prepared
      exact prepared
    · split at run
      · cases run
        exact absurd rfl (midway _)
      · cases run

/-- An error that may be handled leaves every node as it was, and no fresh node is reached from it. -/
theorem untouched_of_recoverable_error (wf : e.document.WellFormed)
    (run : applyUpdates updates o e = .error err e') (code : err.standardCode ≠ .int0000) :
    (∀ id, e.document.Has id → e'.document.record id = e.document.record id) ∧
      ∀ x y, e.document.Has x → e'.document.Reaches x y → e.document.Has y := by
  have h : e.document.Extends e'.document := by
    apply extends_of_applyUpdates_error wf run
    intro cause hc
    apply code
    rw [hc]
    exact ErrorCode.ofName_name .int0000
  exact ⟨h.record_eq, fun x y hx reaches => h.inside_of_reaches hx reaches⟩

/-- A text cannot be renamed, and the copy that was made for the insertion before is out of reach. -/
theorem untouched_of_refused_rename :
    let t : Tree := .node (.element (.unqualified "e")) [] [.leaf (.text "t")]
    let e := Evaluation.start (holding t)
    ∃ err e', applyUpdates [⟨.real ⟨0⟩, .insert .into [.real ⟨1⟩]⟩,
        ⟨.real ⟨1⟩, .rename (.unqualified "f")⟩] {} e = .error err e' ∧
      err.standardCode ≠ .int0000 ∧ e.document.size < e'.document.size ∧
      (∀ id, e.document.Has id → e'.document.record id = e.document.record id) ∧
      ∀ x y, e.document.Has x → e'.document.Reaches x y → e.document.Has y := by
  intro t e
  have wf : e.document.WellFormed := wellFormed_holding t
  have code : (Error.refused .rename .renamedNameless).standardCode ≠ .int0000 := by decide
  obtain ⟨e', run, fresh⟩ : ∃ e', applyUpdates [⟨.real ⟨0⟩, .insert .into [.real ⟨1⟩]⟩,
      ⟨.real ⟨1⟩, .rename (.unqualified "f")⟩] {} e = .error (.refused .rename .renamedNameless) e' ∧
      e.document.size < e'.document.size := ⟨_, rfl, by decide⟩
  exact ⟨_, e', run, code, fresh, untouched_of_recoverable_error wf run code⟩

end Evaluate

end VirtualTree
