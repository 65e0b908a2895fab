import VirtualTree.Proofs.Update.Atomicity
import VirtualTree.Proofs.Update.Overtaking

/-!
# Failures midway

An application of updates is meant to fail before the first change or not at all.  The lists for which
it fails midway are those with an overtaken replacement, and no other failure changes a node that was
there.  Such a list passes the check and the preparation: what it inserts displaces an attribute that it
is to replace.
-/

namespace VirtualTree

open Document

/-- The list passes the check and the preparation, and an update of it overtakes the replacement of an
attribute. -/
def Evaluation.Overtaken (e : Evaluation) (o : Options) (updates : List (Update Pointer)) : Prop :=
  e.compatibility updates = .ok () ∧ ∃ prepared s, e.prepareAll o updates = .ok prepared s ∧
    Update.Overtaken s.document (inStages prepared)

namespace Evaluate

variable {e e' : Evaluation} {o : Options} {updates : List (Update Pointer)} {err : Error}

theorem exists_failedMidway_iff (wf : e.document.WellFormed) (memo : e.memo = .empty)
    (copy : o.copyInsertedContent = true)
    (targets : ∀ u ∈ updates, ∀ id, u.target.plainNode? = some id → e.document.Has id) :
    (∃ cause e', applyUpdates updates o e = .error (.failedMidway cause) e') ↔
      e.Overtaken o updates := by
  have exact_cause : ∀ {prepared s}, e.compatibility updates = .ok () →
      e.prepareAll o updates = .ok prepared s →
      ((∃ cause d, Edit.carryOutAll (inStages prepared) s.document = .error cause d) ↔
        Update.Overtaken s.document (inStages prepared)) := by
    intro prepared s compatible prepare
    obtain ⟨-, grown, -, suit⟩ := Evaluation.prepareAll_ok wf memo copy targets prepare
    apply (Evaluation.underway wf memo copy targets compatible prepare).carryOutAll_error_iff
    intro u hu needs
    obtain ⟨has, -, parent⟩ := suit u (mem_inStages.1 hu)
    rw [grown.parent?_eq has]
    exact parent needs
  constructor
  · rintro ⟨cause, e', run⟩
    obtain ⟨compatible, prepared, s, d, prepare, carryOut, -⟩ := failedMidway_iff.1 run
    exact ⟨compatible, prepared, s, prepare, (exact_cause compatible prepare).1 ⟨cause, d, carryOut⟩⟩
  · rintro ⟨compatible, prepared, s, prepare, overtaken⟩
    obtain ⟨cause, d, carryOut⟩ := (exact_cause compatible prepare).2 overtaken
    exact ⟨cause, _, failedMidway_iff.2 ⟨compatible, prepared, s, d, prepare, carryOut, rfl⟩⟩

/-- What fails midway has taken an attribute away from its element. -/
theorem changed_of_failedMidway (wf : e.document.WellFormed) (memo : e.memo = .empty)
    (copy : o.copyInsertedContent = true)
    (targets : ∀ u ∈ updates, ∀ id, u.target.plainNode? = some id → e.document.Has id)
    {cause : Error} (run : applyUpdates updates o e = .error (.failedMidway cause) e') :
    ∃ id, e.document.Has id ∧ e'.document.record id ≠ e.document.record id := by
  obtain ⟨compatible, prepared, s, d, prepare, carryOut, rfl⟩ := failedMidway_iff.1 run
  obtain ⟨-, -, -, suit⟩ := Evaluation.prepareAll_ok wf memo copy targets prepare
  have start := Evaluation.underway wf memo copy targets compatible prepare
  rcases start.carryOutAll with ⟨_, run, -⟩ | ⟨done, x, nodes, rest, d₁, eq, -, -, lost, run⟩
  · rw [carryOut] at run
    cases run
  · rw [carryOut] at run
    cases run
    have mem : ⟨x, .replaceNode nodes⟩ ∈ inStages prepared := by simp [eq]
    obtain ⟨has, -, parent⟩ := suit _ (mem_inStages.1 mem)
    refine ⟨x, has, fun same => ?_⟩
    have attached := parent trivial
    rw [Document.parent?, ← same] at attached
    change (d.parent? x).isSome at attached
    rw [lost] at attached
    cases attached

/-- An application fails midway exactly when a replacement is overtaken, and these are the only failures
that change a node. -/
theorem failedMidway_iff_overtaken (wf : e.document.WellFormed) (memo : e.memo = .empty)
    (copy : o.copyInsertedContent = true)
    (targets : ∀ u ∈ updates, ∀ id, u.target.plainNode? = some id → e.document.Has id) :
    ((∃ cause e', applyUpdates updates o e = .error (.failedMidway cause) e') ↔
      e.Overtaken o updates) ∧
    ∀ err e', applyUpdates updates o e = .error err e' →
      ((∀ id, e.document.Has id → e'.document.record id = e.document.record id) ↔
        ¬ e.Overtaken o updates) := by
  have midway := exists_failedMidway_iff wf memo copy targets
  refine ⟨midway, fun err e' run => ⟨fun untouched overtaken => ?_, fun spared => ?_⟩⟩
  · obtain ⟨cause, e₁, failed⟩ := midway.2 overtaken
    obtain ⟨id, has, changed⟩ := changed_of_failedMidway wf memo copy targets failed
    rw [run] at failed
    cases failed
    exact changed (untouched id has)
  · refine (extends_of_applyUpdates_error wf run fun cause midway' => spared ?_).record_eq
    exact midway.1 ⟨cause, e', by rw [run, midway']⟩

/-- Of two attributes of an element, the first is replaced by one with the name of the second, which is
to be replaced as well. -/
theorem overtaken_by_replacement :
    let t : Tree := .node (.element (.unqualified "e")) [.leaf (.attribute (.unqualified "w") "1"),
      .leaf (.attribute (.unqualified "x") "2"), .leaf (.attribute (.unqualified "y") "3")] []
    let e := Evaluation.start (holding t)
    let updates : List (Update Pointer) := [⟨.real ⟨1⟩, .replaceNode [.real ⟨2⟩]⟩,
      ⟨.real ⟨2⟩, .replaceNode [.real ⟨3⟩]⟩]
    e.Overtaken {} updates ∧ ∃ err e', applyUpdates updates {} e = .error err e' ∧
      ¬ ∀ id, e.document.Has id → e'.document.record id = e.document.record id := by
  intro t e updates
  have wf : e.document.WellFormed := wellFormed_holding t
  have inside : ∀ u ∈ updates, u.target.plainNode?.all fun id => e.document.Has id := by
    decide +kernel
  have answer : (match applyUpdates updates {} e with
    | .error err _ => decide (err = .failedMidway .lostParent)
    | .ok _ _ => false) = true := by decide +kernel
  split at answer
  · rename_i run
    rw [of_decide_eq_true answer] at run
    have copy : ({} : Options).copyInsertedContent = true := rfl
    obtain ⟨midway, changed⟩ := failedMidway_iff_overtaken wf rfl copy
      fun u hu id plain => by simpa [plain] using inside u hu
    have overtaken := midway.1 ⟨_, _, run⟩
    exact ⟨overtaken, _, _, run, fun untouched => (changed _ _ run).1 untouched overtaken⟩
  · cases answer

/-- An element with an attribute gets another one of the same name while the old one is to be replaced:
the element changes, and then the application fails. -/
theorem changed_by_overtaking_insertion :
    let t : Tree := .node (.element (.unqualified "r")) []
      [.node (.element (.unqualified "e")) [.leaf (.attribute (.unqualified "x") "1")] [],
        .node (.element (.unqualified "f")) [.leaf (.attribute (.unqualified "x") "2"),
          .leaf (.attribute (.unqualified "y") "3")] []]
    let e := Evaluation.start (holding t)
    let updates : List (Update Pointer) := [⟨.real ⟨1⟩, .insertAttributes [.real ⟨4⟩]⟩,
      ⟨.real ⟨2⟩, .replaceNode [.real ⟨5⟩]⟩]
    e.document.WellFormed ∧
      (∀ u ∈ updates, ∀ id, u.target.plainNode? = some id → e.document.Has id) ∧
      ∃ e', applyUpdates updates {} e = .error (.failedMidway .lostParent) e' ∧
        (Error.failedMidway .lostParent).standardCode = .int0000 ∧ e.document.Has ⟨2⟩ ∧
        e.document.parent? ⟨2⟩ = some ⟨1⟩ ∧ e'.document.parent? ⟨2⟩ = none ∧
        e'.document.toXml ⟨1⟩ = "<e x=\"2\"/>" := by
  intro t e updates
  have wf : e.document.WellFormed := wellFormed_holding t
  have inside : ∀ u ∈ updates, u.target.plainNode?.all fun id => e.document.Has id := by
    decide +kernel
  have answer : (match applyUpdates updates {} e with
    | .error err e' => decide (err = .failedMidway .lostParent ∧ e'.document.parent? ⟨2⟩ = none ∧
        e'.document.toXml ⟨1⟩ = "<e x=\"2\"/>")
    | .ok _ _ => false) = true := by decide +kernel
  refine ⟨wf, fun u hu id plain => by simpa [plain] using inside u hu, ?_⟩
  split at answer
  · rename_i run
    obtain ⟨midway, changed⟩ := of_decide_eq_true answer
    rw [midway] at run
    exact ⟨_, run, ErrorCode.ofName_name .int0000, by decide +kernel, by decide +kernel, changed⟩
  · cases answer

end Evaluate

end VirtualTree
