import VirtualTree.Proofs.Document.Links
import VirtualTree.Proofs.Keeps

/-!
# Runs of edits

When the checked operations succeed, and what the document is afterwards.  An operation that fails
leaves the document as it was.  For the insertion of a child the condition is `Insertable`; the node
that gives the position never vanishes on the way.
-/

namespace VirtualTree

open Document

variable {d : Document}

/-- The error is a reason for refusing an operation before anything changes. -/
def Error.RefusesEdit : Error → Prop
  | .foreignNode _ | .childlessParent | .unsuitableChild | .ownSubtree | .foreignReference
  | .attributelessOwner | .unsuitableAttribute | .namelessKind _ | .valuelessKind _ => True
  | _ => False

namespace Document

theorem foreign?_eq_none_iff {id : NodeId} : d.foreign? id = none ↔ d.Has id := by
  unfold foreign?
  split_ifs with h <;> simp [h]

/-! ## Conditions -/

/-- `child` may become a child of `parent` at the given position. -/
structure Insertable (d : Document) (parent child : NodeId) (reference? : Option NodeId) : Prop where
  hasParent : d.Has parent
  hasChild : d.Has child
  isParent : (d.kind parent).isParent
  notAttribute : d.kind child ≠ .attribute
  notDocument : d.kind child ≠ .document
  /-- The parent does not stand in the tree of the child. -/
  outside : ¬ d.AtOrAbove parent child
  /-- The position is the child itself or a child of the parent. -/
  position : ∀ r, reference? = some r → r = child ∨ d.parent? r = some parent ∧ d.kind r ≠ .attribute

theorem childRefusal?_eq_none_iff (wf : d.WellFormed) {parent child : NodeId} :
    d.childRefusal? parent child = none ↔ d.Insertable parent child none := by
  simp only [childRefusal?, Option.or_eq_none_iff, foreign?_eq_none_iff]
  constructor
  · rintro ⟨hp, hc, h⟩
    split_ifs at h with h₁ h₂ h₃
    rw [wf.mem_ancestorsOrSelf hp] at h₃
    simp only [not_or] at h₁ h₂
    exact ⟨hp, hc, h₁, h₂.1, h₂.2, h₃, by simp⟩
  · intro h
    refine ⟨h.hasParent, h.hasChild, ?_⟩
    rw [if_neg (not_not.2 h.isParent), if_neg (not_or.2 ⟨h.notAttribute, h.notDocument⟩),
      if_neg ((wf.mem_ancestorsOrSelf h.hasParent).not.2 h.outside)]

theorem positionRefusal?_eq_none_iff {parent r : NodeId} :
    d.positionRefusal? parent r = none ↔ d.parent? r = some parent ∧ d.kind r ≠ .attribute := by
  unfold positionRefusal?
  split_ifs with h
  · simp only [false_iff]
    tauto
  · simpa [not_or] using h

/-- `attr` may become an attribute of `owner`. -/
structure Settable (d : Document) (owner attr : NodeId) : Prop where
  hasOwner : d.Has owner
  hasAttr : d.Has attr
  isElement : d.kind owner = .element
  isAttribute : d.kind attr = .attribute

theorem attributeRefusal?_eq_none_iff {owner attr : NodeId} :
    d.attributeRefusal? owner attr = none ↔ d.Settable owner attr := by
  simp only [attributeRefusal?, Option.or_eq_none_iff, foreign?_eq_none_iff]
  constructor
  · rintro ⟨ho, ha, h⟩
    split_ifs at h with h₁ h₂
    exact ⟨ho, ha, not_not.1 h₁, not_not.1 h₂⟩
  · intro h
    exact ⟨h.hasOwner, h.hasAttr, by
      rw [if_neg (not_not.2 h.isElement), if_neg (not_not.2 h.isAttribute)]⟩

/-! ## Reasons -/

theorem refusesEdit_of_foreign? {id : NodeId} {e : Error} (h : d.foreign? id = some e) :
    e.RefusesEdit := by
  unfold foreign? at h
  split_ifs at h
  cases h
  exact trivial

theorem refusesEdit_of_childRefusal? {parent child : NodeId} {e : Error}
    (h : d.childRefusal? parent child = some e) : e.RefusesEdit := by
  rcases Option.or_eq_some_iff.1 h with h | ⟨-, h⟩
  · exact refusesEdit_of_foreign? h
  rcases Option.or_eq_some_iff.1 h with h | ⟨-, h⟩
  · exact refusesEdit_of_foreign? h
  split_ifs at h <;> cases h <;> exact trivial

theorem refusesEdit_of_positionRefusal? {parent reference : NodeId} {e : Error}
    (h : d.positionRefusal? parent reference = some e) : e.RefusesEdit := by
  unfold positionRefusal? at h
  split_ifs at h
  cases h
  exact trivial

theorem refusesEdit_of_attributeRefusal? {owner attr : NodeId} {e : Error}
    (h : d.attributeRefusal? owner attr = some e) : e.RefusesEdit := by
  rcases Option.or_eq_some_iff.1 h with h | ⟨-, h⟩
  · exact refusesEdit_of_foreign? h
  rcases Option.or_eq_some_iff.1 h with h | ⟨-, h⟩
  · exact refusesEdit_of_foreign? h
  split_ifs at h <;> cases h <;> exact trivial

end Document

namespace Edit

theorem refuse_bind_of_none {α : Type} {reason? : Option Error} (h : reason? = none)
    (f : Unit → Edit α) : (refuse reason? >>= f) d = f () d := by
  rw [h]
  rfl

theorem refuse_bind_of_some {α : Type} {reason? : Option Error} {e : Error}
    (h : reason? = some e) (f : Unit → Edit α) : (refuse reason? >>= f) d = .error e d := by
  rw [h]
  rfl

/-! ## Insertion -/

theorem insertBefore_none_ok (wf : d.WellFormed) {parent child : NodeId}
    (h : d.Insertable parent child none) :
    insertBefore parent child none d = .ok () (d.insertChild parent child none) := by
  show (refuse (d.childRefusal? parent child) >>= _) d = _
  rw [refuse_bind_of_none ((childRefusal?_eq_none_iff wf).2 h)]
  rfl

theorem insertBefore_self_ok (wf : d.WellFormed) {parent child : NodeId}
    (h : d.Insertable parent child none) :
    insertBefore parent child (some child) d = .ok () d := by
  show (refuse (d.childRefusal? parent child) >>= _) d = _
  rw [refuse_bind_of_none ((childRefusal?_eq_none_iff wf).2 h)]
  simp only [if_true]
  rfl

theorem insertBefore_some_ok (wf : d.WellFormed) {parent child r : NodeId}
    (h : d.Insertable parent child (some r)) (ne : r ≠ child) :
    insertBefore parent child (some r) d = .ok () (d.insertChild parent child (some r)) := by
  have plain : d.Insertable parent child none := { h with position := by simp }
  have position := (h.position r rfl).resolve_left ne
  have mem : r ∈ (d.detach child).children parent := by
    rw [children_detach child wf, List.mem_filter, wf.mem_children]
    exact ⟨position, by simpa using ne⟩
  show (refuse (d.childRefusal? parent child) >>= _) d = _
  rw [refuse_bind_of_none ((childRefusal?_eq_none_iff wf).2 plain)]
  simp only [if_neg ne]
  show (refuse (d.positionRefusal? parent r) >>= _) d = _
  rw [refuse_bind_of_none (positionRefusal?_eq_none_iff.2 position)]
  show (if r ∈ (d.detach child).children parent then _ else _ : Edit Unit) (d.detach child) = _
  rw [if_pos mem]
  rfl

/-- An insertion succeeds exactly under the condition, and moves the child; before itself it stays. -/
theorem insertBefore_ok (wf : d.WellFormed) {parent child : NodeId} {reference? : Option NodeId}
    (h : d.Insertable parent child reference?) :
    insertBefore parent child reference? d =
      .ok () (if reference? = some child then d else d.insertChild parent child reference?) := by
  cases reference? with
  | none => simpa using insertBefore_none_ok wf h
  | some r =>
    by_cases hr : r = child
    · subst hr
      simpa using insertBefore_self_ok wf { h with position := by simp }
    · simpa [hr] using insertBefore_some_ok wf h hr

/-- An insertion that cannot be made is refused before anything changes. -/
theorem insertBefore_error (wf : d.WellFormed) {parent child : NodeId} {reference? : Option NodeId}
    (h : ¬ d.Insertable parent child reference?) :
    ∃ e, e.RefusesEdit ∧ insertBefore parent child reference? d = .error e d := by
  cases plain : d.childRefusal? parent child with
  | some e =>
    refine ⟨e, refusesEdit_of_childRefusal? plain, ?_⟩
    show (refuse (d.childRefusal? parent child) >>= _) d = _
    exact refuse_bind_of_some plain _
  | none =>
    have insertable := (childRefusal?_eq_none_iff wf).1 plain
    cases reference? with
    | none => exact absurd insertable h
    | some r =>
      have ne : r ≠ child := fun hr => h { insertable with position := by simp [hr] }
      cases position : d.positionRefusal? parent r with
      | none =>
        rw [positionRefusal?_eq_none_iff] at position
        exact absurd { insertable with position := by simpa using Or.inr position } h
      | some e =>
        refine ⟨e, refusesEdit_of_positionRefusal? position, ?_⟩
        show (refuse (d.childRefusal? parent child) >>= _) d = _
        rw [refuse_bind_of_none plain]
        simp only [if_neg ne]
        show (refuse (d.positionRefusal? parent r) >>= _) d = _
        exact refuse_bind_of_some position _

/-- An insertion at the end that succeeds could be made. -/
theorem insertable_of_ok (wf : d.WellFormed) {parent child : NodeId} {d' : Document}
    (run : insertBefore parent child none d = .ok () d') :
    d.Insertable parent child none ∧ d' = d.insertChild parent child none := by
  by_cases ok : d.Insertable parent child none
  · rw [insertBefore_none_ok wf ok] at run
    cases run
    exact ⟨ok, rfl⟩
  · obtain ⟨e, -, failed⟩ := insertBefore_error wf ok
    rw [failed] at run
    cases run

/-! ## The other operations -/

theorem setAttribute_ok {owner attr : NodeId} (h : d.Settable owner attr) :
    setAttribute owner attr d = .ok () (d.putAttribute owner attr) := by
  have name : (d.detach attr).name? attr = d.name? attr := by rw [name?, label_detach, name?]
  show (refuse (d.attributeRefusal? owner attr) >>= _) d = _
  rw [refuse_bind_of_none (attributeRefusal?_eq_none_iff.2 h), putAttribute, overwritten, ← name]
  rfl

theorem setAttribute_error {owner attr : NodeId} (h : ¬ d.Settable owner attr) :
    ∃ e, e.RefusesEdit ∧ setAttribute owner attr d = .error e d := by
  obtain ⟨e, reason⟩ := Option.ne_none_iff_exists'.1 (attributeRefusal?_eq_none_iff.not.2 h)
  exact ⟨e, refusesEdit_of_attributeRefusal? reason, refuse_bind_of_some reason _⟩

theorem settable_of_ok {owner attr : NodeId} {d' : Document}
    (run : setAttribute owner attr d = .ok () d') :
    d.Settable owner attr ∧ d' = d.putAttribute owner attr := by
  by_cases ok : d.Settable owner attr
  · rw [setAttribute_ok ok] at run
    cases run
    exact ⟨ok, rfl⟩
  · obtain ⟨e, -, failed⟩ := setAttribute_error ok
    rw [failed] at run
    cases run

theorem remove_ok {id : NodeId} (h : d.Has id) : remove id d = .ok () (d.detach id) := by
  show (refuse (d.foreign? id) >>= _) d = _
  rw [refuse_bind_of_none (foreign?_eq_none_iff.2 h)]
  rfl

theorem remove_error {id : NodeId} (h : ¬ d.Has id) :
    ∃ e, e.RefusesEdit ∧ remove id d = .error e d := by
  obtain ⟨e, reason⟩ := Option.ne_none_iff_exists'.1 (foreign?_eq_none_iff.not.2 h)
  exact ⟨e, refusesEdit_of_foreign? reason, refuse_bind_of_some reason _⟩

theorem relabel_ok {id : NodeId} {change : Label → Option Label} {fault : Kind → Error}
    (h : d.Has id) {label : Label} (hl : change (d.label id) = some label) :
    relabel id change fault d = .ok () (d.setLabel id label) := by
  show (refuse (d.foreign? id) >>= _) d = _
  rw [refuse_bind_of_none (foreign?_eq_none_iff.2 h)]
  simp only [hl]
  rfl

theorem relabel_error {id : NodeId} {change : Label → Option Label} {fault : Kind → Error}
    (h : ¬ (d.Has id ∧ (change (d.label id)).isSome)) :
    ∃ e, (e.RefusesEdit ∨ e = fault (d.kind id)) ∧ relabel id change fault d = .error e d := by
  by_cases has : d.Has id
  · refine ⟨_, Or.inr rfl, ?_⟩
    show (refuse (d.foreign? id) >>= _) d = _
    rw [refuse_bind_of_none (foreign?_eq_none_iff.2 has)]
    cases hl : change (d.label id) with
    | none => rfl
    | some label => exact absurd ⟨has, by rw [hl]; rfl⟩ h
  · obtain ⟨e, reason⟩ := Option.ne_none_iff_exists'.1 (foreign?_eq_none_iff.not.2 has)
    exact ⟨e, Or.inl (refusesEdit_of_foreign? reason), refuse_bind_of_some reason _⟩

theorem create_ok (label : Label) : create label d = .ok (d.alloc label).1 (d.alloc label).2 := rfl

/-! ## Invariants

An operation keeps what is kept when it succeeds, as it changes nothing when it fails. -/

section Keep

variable {I : Document → Prop}

theorem keeps_insertBefore_of {parent child : NodeId} {reference? : Option NodeId}
    (wf : ∀ d, I d → d.WellFormed) (done : ∀ d, I d → d.Insertable parent child reference? →
      I (d.insertChild parent child reference?)) :
    Keeps I (insertBefore parent child reference?) fun _ => True := by
  intro d h
  by_cases ok : d.Insertable parent child reference?
  · rw [insertBefore_ok (wf d h) ok]
    split_ifs
    · exact ⟨h, trivial⟩
    · exact ⟨done d h ok, trivial⟩
  · obtain ⟨e, -, run⟩ := insertBefore_error (wf d h) ok
    rw [run]
    exact h

theorem keeps_setAttribute_of {owner attr : NodeId}
    (done : ∀ d, I d → d.Settable owner attr → I (d.putAttribute owner attr)) :
    Keeps I (setAttribute owner attr) fun _ => True := by
  intro d h
  by_cases ok : d.Settable owner attr
  · rw [setAttribute_ok ok]
    exact ⟨done d h ok, trivial⟩
  · obtain ⟨e, -, run⟩ := setAttribute_error ok
    rw [run]
    exact h

theorem keeps_remove_of {id : NodeId} (done : ∀ d, I d → I (d.detach id)) :
    Keeps I (remove id) fun _ => True := by
  intro d h
  by_cases has : d.Has id
  · rw [remove_ok has]
    exact ⟨done d h, trivial⟩
  · obtain ⟨e, -, run⟩ := remove_error has
    rw [run]
    exact h

theorem keeps_relabel_of_changed {id : NodeId} {change : Label → Option Label} {fault : Kind → Error}
    (done : ∀ d label, I d → change (d.label id) = some label → I (d.setLabel id label)) :
    Keeps I (relabel id change fault) fun _ => True := by
  intro d h
  by_cases ok : d.Has id ∧ (change (d.label id)).isSome
  · obtain ⟨label, changed⟩ := Option.isSome_iff_exists.1 ok.2
    rw [relabel_ok ok.1 changed]
    exact ⟨done d label h changed, trivial⟩
  · obtain ⟨e, -, run⟩ := relabel_error ok
    rw [run]
    exact h

theorem keeps_relabel_of {id : NodeId} {change : Label → Option Label} {fault : Kind → Error}
    (kind : ∀ l m, change l = some m → m.kind = l.kind)
    (done : ∀ d label, I d → label.kind = d.kind id → I (d.setLabel id label)) :
    Keeps I (relabel id change fault) fun _ => True :=
  keeps_relabel_of_changed fun d label h changed => done d label h (kind _ _ changed)

end Keep

end Edit

end VirtualTree
