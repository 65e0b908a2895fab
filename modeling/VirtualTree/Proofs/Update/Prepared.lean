import VirtualTree.Evaluation
import VirtualTree.Proofs.Update.Content

/-!
# Prepared updates

What is known of a prepared update besides that it realizes the update it was made from: its target and
its content are of kinds that its action works on (`Action.Suits`), and a target that has to have a
parent has one (`Action.NeedsParent`).
-/

namespace VirtualTree

open Document

namespace Action

variable {α : Type}

/-- The action works on a target of the given kind and brings in nodes that it can place. -/
def Suits (d : Document) (target : Kind) : Action NodeId → Prop
  | .delete => True
  | .insert place nodes =>
    (if place = .before ∨ place = .after then target.isChild else target.isParent) ∧
      ∀ n ∈ nodes, (d.kind n).isChild
  | .insertAttributes nodes => target = .element ∧ ∀ n ∈ nodes, d.kind n = .attribute
  | .rename _ => target.isNamed
  | .replaceNode nodes =>
    target = .attribute ∧ (∀ n ∈ nodes, d.kind n = .attribute) ∨
      target.isChild ∧ ∀ n ∈ nodes, (d.kind n).isChild
  | .replaceValue _ => target.hasValue
  | .replaceElementContent _ => target = .element
  | .put _ => False

/-- A content pointer may be turned into a node of the kind.  What is meant for child positions is not
restricted here, as documents are opened for their children first. -/
def Fits : Action α → Kind → Prop
  | .insertAttributes _, k => k = .attribute
  | _, _ => True

theorem Fits.isAttribute {a : Action α} {k : Kind} (h : a.Fits k) (kind : a.kind = .insertAttributes) :
    k = .attribute := by
  cases a with
  | insertAttributes content => exact h
  | insert place content => cases place <;> cases kind
  | delete | rename | replaceNode | replaceValue | replaceElementContent | put => cases kind

/-- The action needs a target with a parent. -/
def NeedsParent : Action α → Prop
  | .insert place _ => place = .before ∨ place = .after
  | .replaceNode _ => True
  | _ => False

theorem Suits.congr {d e : Document} {target : Kind} {a : Action NodeId} (h : a.Suits d target)
    (kind : ∀ n ∈ a.content, e.kind n = d.kind n) : a.Suits e target := by
  cases a with
  | insert place nodes => exact ⟨h.1, fun n hn => by rw [kind n hn]; exact h.2 n hn⟩
  | insertAttributes nodes => exact ⟨h.1, fun n hn => by rw [kind n hn]; exact h.2 n hn⟩
  | replaceNode nodes =>
    refine h.imp (fun h => ⟨h.1, fun n hn => ?_⟩) fun h => ⟨h.1, fun n hn => ?_⟩
    · rw [kind n hn]
      exact h.2 n hn
    · rw [kind n hn]
      exact h.2 n hn
  | delete | rename | replaceValue | replaceElementContent | put => exact h

end Action

namespace Construct

variable {base : Document} {chosen : List NodeId} {s s' : Construction}

theorem mapError_ok {α : Type} {change : Error → Error} {m : Construct α} {a : α}
    (run : mapError change m s = .ok a s') : m s = .ok a s' := by
  unfold mapError at run
  split at run
  · cases run
    assumption
  · cases run

variable {setting : Setting} (copy : setting.copyInserted = true) (h : Stock base chosen s)

include copy h

theorem prepareAction_ok {target : Kind} {hasParent : Bool} {a : Action Pointer}
    {b : Action NodeId} (run : prepareAction setting target hasParent a s = .ok b s') :
    Supplied setting a.Fits a.content b.content s s' ∧ b = a.withContent b.content ∧
      b.Suits s'.document target ∧ (b.NeedsParent → hasParent) := by
  cases a with
  | delete =>
    cases run
    exact ⟨.nil, rfl, trivial, fun needs => needs.elim⟩
  | insert place content =>
    simp only [prepareAction] at run
    split_ifs at run with beside
    · obtain ⟨isChild, run⟩ := require_bind_ok run
      obtain ⟨parent, run⟩ := require_bind_ok run
      obtain ⟨nodes, s₁, made, run⟩ := bind_ok run
      cases run
      obtain ⟨-, -, children⟩ := childContent_ok copy h made
      exact ⟨(childContent_supplied made).mono fun _ _ => trivial, rfl,
        ⟨by rw [if_pos beside]; exact isChild, children⟩, fun _ => parent⟩
    · obtain ⟨isParent, run⟩ := require_bind_ok run
      obtain ⟨nodes, s₁, made, run⟩ := bind_ok run
      cases run
      obtain ⟨-, -, children⟩ := childContent_ok copy h made
      exact ⟨(childContent_supplied made).mono fun _ _ => trivial, rfl,
        ⟨by rw [if_neg beside]; exact isParent, children⟩, fun needs => absurd needs beside⟩
  | insertAttributes content =>
    obtain ⟨isElement, run⟩ := require_bind_ok run
    obtain ⟨nodes, s₁, made, run⟩ := bind_ok run
    cases run
    obtain ⟨-, -, attributes⟩ := attributeContent_ok copy h made
    exact ⟨attributeContent_supplied made, rfl, ⟨by simpa using isElement, attributes⟩,
      fun needs => needs.elim⟩
  | rename name =>
    obtain ⟨isNamed, run⟩ := require_bind_ok run
    cases run
    exact ⟨.nil, rfl, isNamed, fun needs => needs.elim⟩
  | replaceNode replacement =>
    obtain ⟨replaceable, run⟩ := require_bind_ok run
    obtain ⟨parent, run⟩ := require_bind_ok run
    obtain ⟨nodes, s₁, made, run⟩ := bind_ok run
    cases run
    unfold replacementContent at made
    split_ifs at made with isAttribute
    · have made := mapError_ok made
      obtain ⟨-, -, attributes⟩ := attributeContent_ok copy h made
      exact ⟨(attributeContent_supplied made).mono fun _ _ => trivial, rfl,
        Or.inl ⟨isAttribute, attributes⟩, fun _ => parent⟩
    · have made := mapError_ok made
      obtain ⟨-, -, children⟩ := childContent_ok copy h made
      exact ⟨(childContent_supplied made).mono fun _ _ => trivial, rfl,
        Or.inr ⟨by simpa [isAttribute] using replaceable, children⟩, fun _ => parent⟩
  | replaceValue value =>
    obtain ⟨hasValue, run⟩ := require_bind_ok run
    cases run
    exact ⟨.nil, rfl, hasValue, fun needs => needs.elim⟩
  | replaceElementContent text =>
    obtain ⟨isElement, run⟩ := require_bind_ok run
    cases run
    rw [decide_eq_true_eq] at isElement
    exact ⟨.nil, rfl, isElement, fun needs => needs.elim⟩
  | put uri => cases run

/-- A prepared update suits the document, if its target was there at the start. -/
theorem prepare_ok {u : Update Pointer} {v : Update NodeId} (run : prepare setting u s = .ok v s') :
    Supplied setting u.action.Fits u.content v.content s s' ∧ v.Realizes u ∧
      (base.Has v.target → v.action.Suits s'.document (base.kind v.target) ∧
        (v.action.NeedsParent → (base.parent? v.target).isSome)) := by
  obtain ⟨-, run⟩ := require_bind_ok run
  cases plain : u.target.plainNode? with
  | none =>
    rw [plain] at run
    cases run
  | some target =>
    rw [plain] at run
    obtain ⟨_, _, got, run⟩ := bind_ok run
    cases got
    obtain ⟨action, s₁, prepared, run⟩ := bind_ok run
    cases run
    obtain ⟨supplied, realizes, suits, parent⟩ := prepareAction_ok copy h prepared
    refine ⟨supplied, ⟨plain, realizes⟩, fun has => ⟨?_, fun needs => ?_⟩⟩
    · rw [← h.kept.document.kind_eq has]
      exact suits
    · rw [← h.kept.document.parent?_eq has]
      exact parent needs

/-- All updates of a prepared list suit the document, and no node is brought in twice. -/
theorem mapM_prepare_ok {updates : List (Update Pointer)} {prepared : List (Update NodeId)}
    (targets : ∀ u ∈ updates, ∀ id, u.target.plainNode? = some id → base.Has id)
    (run : updates.mapM (prepare setting) s = .ok prepared s') :
    Stock base (chosen ++ prepared.flatMap Update.content) s' ∧ s.document.Extends s'.document ∧
      List.Forall₂ Update.Realizes prepared updates ∧
      ∀ v ∈ prepared, base.Has v.target ∧ v.action.Suits s'.document (base.kind v.target) ∧
        (v.action.NeedsParent → (base.parent? v.target).isSome) := by
  induction updates generalizing chosen s prepared with
  | nil =>
    cases run
    exact ⟨by simpa using h, h.kept.document.wellFormed.extends_self, .nil, fun v hv => by cases hv⟩
  | cons u us ih =>
    rw [List.mapM_cons] at run
    obtain ⟨v, s₁, first, run⟩ := bind_ok run
    obtain ⟨vs, s₂, others, run⟩ := bind_ok run
    cases run
    obtain ⟨supplied, realizes, suits⟩ := prepare_ok copy h first
    obtain ⟨stock, grown, -⟩ := supplied.stock copy h
    obtain ⟨stock', grown', realize, suit⟩ :=
      ih stock (fun w hw => targets w (List.mem_cons_of_mem u hw)) others
    have has := targets u List.mem_cons_self _ realizes.target
    obtain ⟨suits, parent⟩ := suits has
    refine ⟨?_, grown.trans grown', .cons realizes realize, fun w hw => ?_⟩
    · rw [List.flatMap_cons, ← List.append_assoc]
      exact stock'
    · rcases List.mem_cons.1 hw with rfl | hw
      · refine ⟨has, suits.congr fun n hn => grown'.kind_eq ?_, parent⟩
        exact (stock.chosen n (List.mem_append_right _ hn)).2.1
      · exact suit w hw

end Construct

/-- That a node of the document that is named by itself exists can be tested. -/
theorem Pointer.has_of_all {d : Document} {p : Pointer} (h : p.plainNode?.all fun id => d.Has id)
    (id : NodeId) (named : p.plainNode? = some id) : d.Has id := by
  simpa [named] using h

theorem Evaluation.targets_of_all {e : Evaluation} {updates : List (Update Pointer)}
    (h : ∀ u ∈ updates, u.target.plainNode?.all fun id => e.document.Has id) :
    ∀ u ∈ updates, ∀ id, u.target.plainNode? = some id → e.document.Has id :=
  fun u hu => Pointer.has_of_all (h u hu)

end VirtualTree
