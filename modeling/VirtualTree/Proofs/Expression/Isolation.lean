import VirtualTree.Expression.Poll
import VirtualTree.Proofs.Update.Isolation

/-!
# Evaluations that change copies only

A copy expression modifies what it copied, and nothing that was there before.  The invariant of a
cursor is `Cursor.Isolated`: every copy that a clause may modify is outside the earlier document, and
so is everything below it.  One step keeps it (`isolated_advance`), hence polls and evaluations leave
all earlier nodes as they were, provided the functions that they call do.
-/

namespace VirtualTree

open Document

/-- A function leaves a document untouched in every evaluation that extends it. -/
def Body.Harmless (base : Document) (body : Body) : Prop :=
  ∀ scope o, Keeps (Evaluation.Extends base) (body scope o) fun _ => True

mutual

/-- The functions that an expression calls. -/
def Expression.bodies : Expression → List Body
  | .reference _ => []
  | .call _ body => [body]
  | .sequence operands => bodiesAll operands
  | .transform copies modify result => bodiesCopies copies ++ modify.bodies ++ result.bodies

/-- The functions that expressions call. -/
def Expression.bodiesAll : List Expression → List Body
  | [] => []
  | e :: rest => e.bodies ++ bodiesAll rest

/-- The functions that the sources of copies call. -/
def Expression.bodiesCopies : List (ExpandedName × Expression) → List Body
  | [] => []
  | (_, source) :: rest => source.bodies ++ bodiesCopies rest

end

variable {base : Document}

/-- What a clause may modify is outside the document, and the functions it calls are harmless. -/
structure CopyClause.Isolated (base : Document) (c : CopyClause) : Prop where
  created : ∀ n ∈ c.created, ¬ base.Has n
  remaining : ∀ body ∈ Expression.bodiesCopies c.remaining, body.Harmless base
  modify : ∀ body ∈ c.modify.bodies, body.Harmless base
  result : ∀ body ∈ c.result.bodies, body.Harmless base

/-- What a cursor may modify is outside the document, and the functions it calls are harmless. -/
def Cursor.Isolated (base : Document) : Cursor → Prop
  | .finished => True
  | .calling _ body _ => body.Harmless base
  | .referring _ => True
  | .sequencing current rest _ =>
    current.Isolated base ∧ ∀ body ∈ Expression.bodiesAll rest, body.Harmless base
  | .copying _ source _ clause => source.Isolated base ∧ clause.Isolated base
  | .modifying current _ clause => current.Isolated base ∧ clause.Isolated base
  | .returning current _ _ => current.Isolated base

/-! ## Starting -/

theorem Expression.isolated_start {e : Expression} (scope : Scope)
    (h : ∀ body ∈ e.bodies, body.Harmless base) : (e.start scope).Isolated base := by
  fun_induction start scope e with
  | case1 name => trivial
  | case2 pending body => exact h body List.mem_cons_self
  | case3 => trivial
  | case4 e rest ih =>
    simp only [bodies, bodiesAll, List.mem_append] at h
    exact ⟨ih fun body hb => h body (Or.inl hb), fun body hb => h body (Or.inr hb)⟩
  | case5 modify result ih =>
    simp only [bodies, bodiesCopies, List.nil_append, List.mem_append] at h
    refine ⟨ih fun body hb => h body (Or.inl hb), ?_⟩
    exact ⟨by simp, by simp [bodiesCopies], fun body hb => h body (Or.inl hb),
      fun body hb => h body (Or.inr hb)⟩
  | case6 modify result name source rest ih =>
    simp only [bodies, bodiesCopies, List.mem_append] at h
    refine ⟨ih fun body hb => h body (Or.inl (Or.inl (Or.inl hb))), ?_⟩
    exact ⟨by simp, fun body hb => h body (Or.inl (Or.inl (Or.inr hb))),
      fun body hb => h body (Or.inl (Or.inr hb)), fun body hb => h body (Or.inr hb)⟩

/-! ## The steps of a clause -/

namespace CopyClause

variable {c : CopyClause} (h : c.Isolated base)

include h

theorem Isolated.next : c.next.Isolated base := by
  unfold CopyClause.next
  split
  · exact ⟨Expression.isolated_start _ h.modify, h⟩
  · rename_i name source rest remaining
    have hr := h.remaining
    simp only [remaining, Expression.bodiesCopies, List.mem_append] at hr
    exact ⟨Expression.isolated_start _ fun body hb => hr body (Or.inl hb),
      h.created, fun body hb => hr body (Or.inr hb), h.modify, h.result⟩

/-- The copy that is bound is outside. -/
theorem Isolated.keeps_bindCopy (name : ExpandedName) (source : Yield) (o : Options) :
    Keeps (Evaluation.Extends base) (c.bindCopy name source o) (Isolated base) := by
  obtain ⟨items, updates⟩ := source
  match items with
  | [.node p] =>
    apply (Evaluate.keeps_deepCopy o p).bind
    intro copy outside
    apply keeps_pure
    refine ⟨fun n hn => ?_, h.remaining, h.modify, h.result⟩
    rcases List.mem_cons.1 hn with rfl | hn
    · exact outside
    · exact h.created n hn
  | [] | [.atomic _] | .node _ :: _ :: _ | .atomic _ :: _ :: _ => exact keeps_throw _

/-- Everything at or below a copy is outside. -/
theorem Isolated.outside_of_covers {d : Document} (hd : base.Extends d) {p : Pointer}
    (covers : c.Covers d p) {id : NodeId} (hp : p.plainNode? = some id) : ¬ base.Has id := by
  obtain ⟨node, graft⟩ := p
  cases node with
  | silhouette _ => cases covers
  | real n =>
    obtain rfl : n = id := by
      cases graft with
      | nil => exact Option.some.inj hp
      | cons _ _ => cases hp
    obtain ⟨a, above, created⟩ := covers
    exact fun inside =>
      h.created a created (hd.inside_of_atOrAbove inside (atOrAbove_of_mem_upward above))

omit h in
theorem modifyCopies_apply (updates : List (Update Pointer)) (o : Options) (e : Evaluation) :
    c.modifyCopies updates o e = match updates.findSome? (c.updateRefusal? e.toForest) with
      | some err => .error err e
      | none => Evaluate.applyUpdates updates o e := by
  show (match updates.findSome? (c.updateRefusal? e.toForest) with
    | some err => throw err
    | none => Evaluate.applyUpdates updates : Evaluate Unit) o e = _
  cases updates.findSome? (c.updateRefusal? e.toForest) <;> rfl

/-- Updates of copies are made outside, and other updates are not made. -/
theorem Isolated.keeps_modifyCopies {o : Options} (copy : o.copyInsertedContent = true)
    (updates : List (Update Pointer)) :
    Keeps (Evaluation.Extends base) (c.modifyCopies updates o) fun _ => True := by
  intro e he
  rw [modifyCopies_apply]
  cases refusal : updates.findSome? (c.updateRefusal? e.toForest) with
  | some err => exact he
  | none =>
    refine Evaluate.keeps_applyUpdates (by simp [copy]) (fun u hu id hp => ?_) e he
    have allowed := List.findSome?_eq_none_iff.1 refusal u hu
    unfold updateRefusal? at allowed
    split at allowed
    · cases allowed
    · split_ifs at allowed with covers
      exact h.outside_of_covers he.document covers hp

end CopyClause

/-! ## The steps of a cursor -/

namespace Cursor

variable {o : Options} (copy : o.copyInsertedContent = true)

include copy

/-- A step stays outside, whatever it shows. -/
theorem isolated_advance {c : Cursor} {s : Evaluation} (hc : c.Isolated base) (hs : s.Extends base) :
    (c.advance o s).2.1.Isolated base ∧ (c.advance o s).2.2.Extends base := by
  induction c generalizing s with
  | finished => exact ⟨trivial, hs⟩
  | calling pending body scope =>
    cases pending with
    | succ n => exact ⟨hc, hs⟩
    | zero =>
      have called := hc scope o s hs
      simp only [advance]
      split at called
      · rename_i run
        rw [run]
        exact ⟨trivial, called.1⟩
      · rename_i run
        rw [run]
        exact ⟨trivial, called⟩
  | referring value => cases value <;> exact ⟨trivial, hs⟩
  | sequencing current rest scope ih =>
    have step := ih hc.1 hs
    simp only [advance]
    split
    · rename_i run
      rw [run] at step
      cases rest with
      | nil => exact ⟨trivial, step.2⟩
      | cons e rest =>
        have hr := hc.2
        simp only [Expression.bodiesAll, List.mem_append] at hr
        exact ⟨⟨Expression.isolated_start scope fun body hb => hr body (Or.inl hb),
          fun body hb => hr body (Or.inr hb)⟩, step.2⟩
    · rename_i run
      rw [run] at step
      exact ⟨⟨step.1, hc.2⟩, step.2⟩
  | copying name source sofar clause ih =>
    have step := ih hc.1 hs
    simp only [advance]
    split
    · rename_i run
      rw [run] at step
      exact ⟨⟨step.1, hc.2⟩, step.2⟩
    · rename_i s' run
      rw [run] at step
      have bound := hc.2.keeps_bindCopy name sofar o s' step.2
      split at bound
      · rename_i run
        rw [run]
        exact ⟨bound.2.next, bound.1⟩
      · rename_i run
        rw [run]
        exact ⟨trivial, bound⟩
    · rename_i run
      rw [run] at step
      exact ⟨⟨step.1, hc.2⟩, step.2⟩
  | modifying current updates clause ih =>
    have step := ih hc.1 hs
    simp only [advance]
    split
    · rename_i run
      rw [run] at step
      exact ⟨⟨step.1, hc.2⟩, step.2⟩
    · rename_i s' run
      rw [run] at step
      have modified := hc.2.keeps_modifyCopies copy updates s' step.2
      split at modified
      · rename_i run
        rw [run]
        exact ⟨Expression.isolated_start clause.scope hc.2.result, modified.1⟩
      · rename_i run
        rw [run]
        exact ⟨trivial, modified⟩
    · rename_i run
      rw [run] at step
      exact ⟨⟨step.1, hc.2⟩, step.2⟩
  | returning current sofar sourceUpdates ih =>
    have step := ih hc hs
    simp only [advance]
    split
    · rename_i run
      rw [run] at step
      exact step
    · rename_i run
      rw [run] at step
      exact ⟨trivial, step.2⟩
    · rename_i run
      rw [run] at step
      exact step

/-- A poll stays outside, whatever it gives. -/
theorem isolated_poll {c : Cursor} {s : Evaluation} (hc : c.Isolated base) (hs : s.Extends base) :
    (c.poll o s).2.1.Isolated base ∧ (c.poll o s).2.2.Extends base := by
  fun_induction poll o c s with
  | case1 c s c' s' run ih =>
    have step := isolated_advance copy hc hs
    rw [run] at step
    exact ih step.1 step.2
  | case2 c s c' s' run | case3 c s _ c' s' run | case4 c s _ c' s' run | case5 c s c' s' run =>
    have step := isolated_advance copy hc hs
    rw [run] at step
    exact step

theorem extends_polls (n : ℕ) {c : Cursor} {s : Evaluation} (hc : c.Isolated base)
    (hs : s.Extends base) : (c.polls o n s).2.Extends base := by
  induction n generalizing c s with
  | zero => exact hs
  | succ n ih =>
    have step := isolated_poll copy hc hs
    exact ih step.1 step.2

theorem extends_drive {c : Cursor} {waits : ℕ} {sofar : Yield} {s : Evaluation}
    (hc : c.Isolated base) (hs : s.Extends base) :
    (endState (c.drive waits sofar o s)).Extends base := by
  fun_induction drive c waits sofar o s with
  | case1 c waits sofar s c' s' run
  | case2 c waits sofar s e c' s' run
  | case5 c waits sofar s c' s' run =>
    have step := isolated_poll copy hc hs
    rw [run] at step
    exact step.2
  | case3 c waits sofar s chunk c' s' run ih
  | case4 c waits sofar s c' s' run unlimited ih
  | case6 c waits sofar s c' s' run limit limited patient ih =>
    have step := isolated_poll copy hc hs
    rw [run] at step
    exact ih step.1 step.2

end Cursor

/-! ## Evaluations -/

/-- A function that only answers is harmless. -/
theorem Body.harmless_answer (answer : Scope → Yield) :
    Body.Harmless base fun scope => pure (answer scope) :=
  fun _ _ => keeps_pure trivial

namespace Expression

variable {s : Evaluation} {o : Options}

/-- A new evaluation of an expression, and any number of polls of its cursor, leave every node that
was there as it was, if copies are inserted and the functions called leave them so. -/
theorem untouched_by_evaluation (wf : s.document.WellFormed) (memo : s.memo = .empty)
    (copy : o.copyInsertedContent = true) {x : Expression}
    (harmless : ∀ body ∈ x.bodies, body.Harmless s.document) (scope : Scope) :
    ∀ id, s.document.Has id →
      (endState (x.evaluate scope o s)).document.record id = s.document.record id ∧
      ∀ n, ((x.start scope).polls o n s).2.document.record id = s.document.record id := by
  have start : Evaluation.Extends s.document s :=
    ⟨wf.extends_self, by rw [memo]; exact fun entry h => by cases h⟩
  have isolated := isolated_start scope harmless
  intro id has
  constructor
  · exact (Cursor.extends_drive copy isolated start).document.record_eq id has
  · exact fun n => (Cursor.extends_polls copy n isolated start).document.record_eq id has

/-- A copy of an element is renamed, and the element keeps its name. -/
theorem untouched_by_renaming_copy :
    let t : Tree := .node (.element (.unqualified "e")) [] [.leaf (.text "t")]
    let s := Evaluation.start (holding t)
    let copied : ExpandedName := ⟨none, "c"⟩
    let x : Expression := .transform
      [(copied, .call 1 fun _ => pure ⟨[.node (.real ⟨0⟩)], []⟩)]
      (.call 0 fun _ => pure ⟨[], [⟨.real ⟨2⟩, .rename (.unqualified "f")⟩]⟩)
      (.reference copied)
    (endState (x.evaluate .empty {} s)).document.name? ⟨2⟩ = some (.unqualified "f") ∧
    ∀ id, s.document.Has id →
      (endState (x.evaluate .empty {} s)).document.record id = s.document.record id ∧
      ∀ n, ((x.start .empty).polls {} n s).2.document.record id = s.document.record id := by
  intro t s copied x
  have harmless : ∀ body ∈ x.bodies, body.Harmless s.document := by
    intro body hb
    have called : body ∈ [(fun _ => pure ⟨[.node (.real ⟨0⟩)], []⟩ : Body),
      fun _ => pure ⟨[], [⟨.real ⟨2⟩, .rename (.unqualified "f")⟩]⟩] := hb
    simp only [List.mem_cons, List.not_mem_nil, or_false] at called
    rcases called with rfl | rfl <;> exact Body.harmless_answer _
  refine ⟨by decide +kernel, ?_⟩
  exact untouched_by_evaluation (wellFormed_holding t) rfl rfl harmless .empty

end Expression

end VirtualTree
