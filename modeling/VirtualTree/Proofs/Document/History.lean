import VirtualTree.Proofs.Tree.Plant
import VirtualTree.Proofs.Update.Isolation

/-!
# Histories of documents

Whatever is done to a document one call after the other, its links describe a forest
(`Document.forest_of_history`).  A call is a planted tree, a fresh node, one of the checked operations,
a copy, or a call of an evaluation on the document, whatever the memo of that evaluation holds and
whatever its options are; calls that fail halfway are among them.  Every call keeps `WellFormed`, and
in a well formed document a checked operation that fails was refused before it changed anything.
-/

namespace VirtualTree

open Document

/-- A checked operation on nodes of a document. -/
inductive Operation where
  | insertBefore (parent child : NodeId) (reference? : Option NodeId)
  | setAttribute (owner attr : NodeId)
  | remove (id : NodeId)
  | rename (id : NodeId) (name : Name)
  | setValue (id : NodeId) (value : String)

namespace Operation

/-- Carries out a checked operation. -/
def run : Operation → Edit Unit
  | .insertBefore parent child reference? => Edit.insertBefore parent child reference?
  | .setAttribute owner attr => Edit.setAttribute owner attr
  | .remove id => Edit.remove id
  | .rename id name => Edit.rename id name
  | .setValue id value => Edit.setValue id value

end Operation

namespace Document

/-- One call takes the document from one state to another. -/
inductive Change : Document → Document → Prop
  | plant (d : Document) {t : Tree} (plantable : t.Plantable) : Change d (t.plant d).2
  | create (d : Document) (label : Label) : Change d (endState (Edit.create label d))
  | operate (d : Document) (op : Operation) : Change d (endState (op.run d))
  | deepClone (d : Document) (id : NodeId) : Change d (endState (Edit.deepClone id d))
  | applyUpdates (e : Evaluation) (o : Options) (updates : List (Update Pointer)) :
      Change e.document (endState (Evaluate.applyUpdates updates o e)).document
  | materialize (e : Evaluation) (o : Options) (p : Pointer) :
      Change e.document (endState (Evaluate.materialize p o e)).document
  | deepCopy (e : Evaluation) (o : Options) (p : Pointer) :
      Change e.document (endState (Evaluate.deepCopy p o e)).document

/-- The document comes about by calls from the document without nodes. -/
def History (d : Document) : Prop := Relation.ReflTransGen Change .empty d

/-! ## Every call keeps the forest -/

theorem wellFormed_endState {α : Type} {m : Edit α} {Q : α → Prop} {d : Document}
    (h : Keeps empty.Extends m Q) (wf : d.WellFormed) : (endState (m d)).WellFormed :=
  (h.endState (extends_empty_iff.2 wf)).wellFormed

/-- Nothing is known of the memo, and nothing has to be. -/
theorem wellFormed_endState_evaluate {α : Type} {m : EStateM Error Evaluation α} {Q : α → Prop}
    {e : Evaluation} (h : Keeps (Evaluation.Extends empty) m Q) (wf : e.document.WellFormed) :
    (endState (m e)).document.WellFormed :=
  (h.endState ⟨extends_empty_iff.2 wf, fun _ _ => not_has_empty _⟩).document.wellFormed

end Document

theorem Operation.keeps_run (op : Operation) : Keeps empty.Extends op.run fun _ => True := by
  cases op with
  | insertBefore parent child reference? =>
    exact Edit.keeps_insertBefore reference? (not_has_empty _) (not_has_empty _)
  | setAttribute owner attr => exact Edit.keeps_setAttribute (not_has_empty _) (not_has_empty _)
  | remove id => exact Edit.keeps_remove (not_has_empty _)
  | rename id name => exact Edit.keeps_relabel (not_has_empty _) fun _ _ => Label.kind_of_rename?
  | setValue id value => exact Edit.keeps_relabel (not_has_empty _) fun _ _ => Label.kind_of_setValue?

/-- A call keeps the forest, whether it succeeds or fails. -/
theorem Document.WellFormed.change {d d' : Document} (wf : d.WellFormed) (h : Change d d') :
    d'.WellFormed := by
  cases h with
  | plant _ plantable => exact (Extends.plant _ plantable wf.extends_self).1.kept.wellFormed
  | create _ label => exact wf.alloc label
  | operate _ op => exact wellFormed_endState op.keeps_run wf
  | deepClone _ id => exact wellFormed_endState (Edit.keeps_deepClone id) wf
  | applyUpdates e o updates =>
    exact wellFormed_endState_evaluate (Evaluate.keeps_applyUpdates
      (fun _ => not_has_empty) fun _ _ id _ => not_has_empty id) wf
  | materialize e o p => exact wellFormed_endState_evaluate (Evaluate.keeps_materialize o p) wf
  | deepCopy e o p => exact wellFormed_endState_evaluate (Evaluate.keeps_deepCopy o p) wf

theorem Document.History.wellFormed {d : Document} (h : History d) : d.WellFormed := by
  induction h with
  | refl => exact wellFormed_empty
  | tail _ change ih => exact ih.change change

/-! ## Refused operations -/

/-- A computation that succeeds under a condition and is refused otherwise changes nothing when it
fails. -/
theorem Edit.refused_of_error {α : Type} {m : Edit α} {d d' : Document} {e : Error} {ok : Prop}
    (succeeds : ok → ∃ a d₁, m d = .ok a d₁)
    (refused : ¬ ok → ∃ e, e.RefusesEdit ∧ m d = .error e d) (run : m d = .error e d') :
    d' = d ∧ e.RefusesEdit := by
  by_cases h : ok
  · obtain ⟨a, d₁, success⟩ := succeeds h
    rw [success] at run
    cases run
  · obtain ⟨e', refuses, failed⟩ := refused h
    rw [failed] at run
    cases run
    exact ⟨rfl, refuses⟩

theorem Edit.relabel_refused {d d' : Document} {id : NodeId} {change : Label → Option Label}
    {fault : Kind → Error} {e : Error} (fault_refuses : ∀ k, (fault k).RefusesEdit)
    (run : Edit.relabel id change fault d = .error e d') : d' = d ∧ e.RefusesEdit := by
  refine Edit.refused_of_error (fun h : d.Has id ∧ (change (d.label id)).isSome => ?_)
    (fun h => ?_) run
  · obtain ⟨label, hl⟩ := Option.isSome_iff_exists.1 h.2
    exact ⟨_, _, relabel_ok h.1 hl⟩
  · obtain ⟨e', reason, failed⟩ := relabel_error h
    exact ⟨e', reason.elim (fun h => h) fun h => h ▸ fault_refuses _, failed⟩

/-- An operation that fails was refused, and the document is as it was. -/
theorem Operation.refused {d d' : Document} (wf : d.WellFormed) {op : Operation} {e : Error}
    (run : op.run d = .error e d') : d' = d ∧ e.RefusesEdit := by
  cases op with
  | insertBefore parent child reference? =>
    exact Edit.refused_of_error (fun h => ⟨_, _, Edit.insertBefore_ok wf h⟩)
      (fun h => Edit.insertBefore_error wf h) run
  | setAttribute owner attr =>
    exact Edit.refused_of_error (fun h => ⟨_, _, Edit.setAttribute_ok h⟩)
      (fun h => Edit.setAttribute_error h) run
  | remove id =>
    exact Edit.refused_of_error (fun h => ⟨_, _, Edit.remove_ok h⟩) (fun h => Edit.remove_error h) run
  | rename id name =>
    refine Edit.relabel_refused (fun _ => ?_) run
    exact trivial
  | setValue id value =>
    refine Edit.relabel_refused (fun _ => ?_) run
    exact trivial

/-- Whatever is done to a document, it stays a forest, and an operation that fails changes nothing; in
particular the node that gives a position never vanishes on the way. -/
theorem Document.forest_of_history {d : Document} (h : History d) :
    d.WellFormed ∧ ∀ (op : Operation) (e : Error) (d' : Document), op.run d = .error e d' →
      d' = d ∧ e ≠ .vanishedReference := by
  have wf := h.wellFormed
  refine ⟨wf, fun op e d' run => ?_⟩
  obtain ⟨same, refuses⟩ := Operation.refused wf run
  exact ⟨same, fun vanished => by rw [vanished] at refuses; exact refuses⟩

/-- A comment is moved before its sibling, a text is copied to the end by an update, and then the
element is refused as a child of the text. -/
theorem Document.forest_of_moves :
    let t : Tree := .node (.element (.unqualified "e")) [.leaf (.attribute (.unqualified "x") "1")]
      [.leaf (.text "t"), .leaf (.comment "c")]
    let planted := (t.plant .empty).2
    let moved := endState ((Operation.insertBefore ⟨0⟩ ⟨3⟩ (some ⟨2⟩)).run planted)
    let d := (endState (Evaluate.applyUpdates [⟨.real ⟨0⟩, .insert .intoAsLast [.real ⟨2⟩]⟩] {}
      (Evaluation.start moved))).document
    History d ∧ d.children ⟨0⟩ = [⟨3⟩, ⟨2⟩, ⟨4⟩] ∧
      (∃ e, Edit.insertBefore ⟨2⟩ ⟨0⟩ none d = .error e d) ∧
      d.WellFormed ∧ ∀ (op : Operation) (e : Error) (d' : Document), op.run d = .error e d' →
        d' = d ∧ e ≠ .vanishedReference := by
  intro t planted moved d
  have plantable : t.Plantable := by
    refine .node (fun _ => rfl) (fun _ => rfl) (by decide) (by decide) fun s hs => ?_
    simp only [List.cons_append, List.nil_append, List.mem_cons, List.not_mem_nil, or_false] at hs
    rcases hs with rfl | rfl | rfl <;> exact .leaf _
  have start : History planted := .single (.plant _ plantable)
  have next : History moved := start.tail (.operate planted (.insertBefore ⟨0⟩ ⟨3⟩ (some ⟨2⟩)))
  have history : History d := next.tail
    (.applyUpdates (Evaluation.start moved) {} [⟨.real ⟨0⟩, .insert .intoAsLast [.real ⟨2⟩]⟩])
  have forest := forest_of_history history
  have childless : ¬ (d.kind ⟨2⟩).isParent := by decide
  obtain ⟨e, -, refused⟩ := Edit.insertBefore_error forest.1 fun ok => childless ok.isParent
  exact ⟨history, by decide, ⟨e, refused⟩, forest⟩

end VirtualTree
