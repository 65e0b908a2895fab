import VirtualTree.Proofs.Document.Extends

/-!
# What an insertion does

The records of all nodes after a child was put into a child list: the child points at its parent, the
parent lists it at the position, a former parent lists it no longer, and nothing else is touched
(`ChildPlaced`).  A successful insertion has this effect, unless the child is its own position without
being a child of the parent: then the position is not looked at, and the document stays as it is.
-/

namespace VirtualTree

namespace Document

variable {d d' : Document} {parent child : NodeId} {reference? : Option NodeId}

/-- `d'` is `d` after a child was put into the child list of a parent: at the end, or right before a
reference node, or where it stands if it is the reference node itself. -/
structure ChildPlaced (d d' : Document) (parent child : NodeId) (reference? : Option NodeId) :
    Prop where
  size : d'.size = d.size
  /-- Of the child only the parent changes. -/
  ofChild : d'.record child = { d.record child with parent? := some parent }
  /-- Of the parent only the child list changes. -/
  ofParent : d'.record parent = { d.record parent with children := d'.children parent }
  atEnd : reference? = none →
    d'.children parent = (d.children parent).filter (· ≠ child) ++ [child]
  before : ∀ r, reference? = some r → r ≠ child → ∃ l m,
    (d.children parent).filter (· ≠ child) = l ++ r :: m ∧ d'.children parent = l ++ child :: r :: m
  itself : reference? = some child → d'.children parent = d.children parent
  /-- Another parent that the child had loses exactly the child. -/
  ofFormer : ∀ p, d.parent? child = some p → p ≠ parent →
    d'.record p = { d.record p with children := (d.children p).filter (· ≠ child) }
  ofOther : ∀ i, i ≠ child → i ≠ parent → d.parent? child ≠ some i → d'.record i = d.record i

/-- An entry put before one that is there stands right before it. -/
theorem insertEntry_before {l : List NodeId} {r : NodeId} (h : r ∈ l) (c : NodeId) :
    ∃ a b, l = a ++ r :: b ∧ insertEntry c (some r) l = a ++ c :: r :: b := by
  obtain ⟨a, b, rfl, first⟩ := List.eq_append_cons_of_mem h
  have pass : ∀ x ∈ a, decide (x ≠ r) = true := fun x hx => by
    simpa using fun e : x = r => first (e ▸ hx)
  refine ⟨a, b, rfl, ?_⟩
  rw [insertEntry, List.takeWhile_append_of_pos pass, List.dropWhile_append_of_pos pass]
  simp

/-- Only the list of its parent has a node to lose. -/
theorem WellFormed.filter_children (wf : d.WellFormed) {i c : NodeId} (h : d.parent? c ≠ some i) :
    (d.children i).filter (· ≠ c) = d.children i := by
  refine List.filter_eq_self.2 fun x mem => ?_
  simpa using fun e : x = c => h (e ▸ wf.parent_of_mem_children mem)

theorem Insertable.ne (h : d.Insertable parent child reference?) : parent ≠ child :=
  fun e => h.outside (e ▸ AtOrAbove.refl _)

/-- Moving a child puts it where it belongs. -/
theorem Insertable.childPlaced (wf : d.WellFormed) (h : d.Insertable parent child reference?)
    (elsewhere : reference? ≠ some child) :
    ChildPlaced d (d.insertChild parent child reference?) parent child reference? := by
  have record : ∀ i, (d.insertChild parent child reference?).record i =
      ⟨d.label i, if i = child then some parent else d.parent? i,
        if i = parent then insertEntry child reference? ((d.children parent).filter (· ≠ child))
        else (d.children i).filter (· ≠ child), d.attributes i⟩ := fun i => by
    rw [← label_insertChild reference? i, ← parent?_insertChild reference? h.hasChild,
      ← children_insertChild reference? wf h.hasParent,
      ← attributes_insertChild reference? wf h.notAttribute]
    rfl
  have children : (d.insertChild parent child reference?).children parent =
      insertEntry child reference? ((d.children parent).filter (· ≠ child)) := by
    rw [children_insertChild reference? wf h.hasParent, if_pos rfl]
  have notOwn : d.parent? child ≠ some child := fun e =>
    wf.not_atOrAbove_parent e (AtOrAbove.refl child)
  refine ⟨size_insertChild reference?, ?_, ?_, ?_, ?_, fun e => absurd e elsewhere, ?_, ?_⟩
  · rw [record, if_pos rfl, if_neg h.ne.symm, wf.filter_children notOwn]
    rfl
  · rw [record, if_neg h.ne, if_pos rfl, ← children]
    rfl
  · rintro rfl
    exact children
  · rintro r rfl ne
    have position := (h.position r rfl).resolve_left ne
    rw [children]
    refine insertEntry_before ?_ child
    rw [List.mem_filter, wf.mem_children]
    exact ⟨position, by simpa using ne⟩
  · intro p former ne
    rw [record, if_neg fun e : p = child => notOwn (e ▸ former), if_neg ne]
    rfl
  · intro i notChild notParent notFormer
    rw [record, if_neg notChild, if_neg notParent, wf.filter_children notFormer]
    rfl

/-- A document that stays as it was has a child placed before itself just if it stands there. -/
theorem childPlaced_itself_iff :
    ChildPlaced d d parent child (some child) ↔ d.parent? child = some parent := by
  constructor
  · intro placed
    exact congrArg Record.parent? placed.ofChild
  · intro stands
    refine ⟨rfl, ?_, rfl, nofun, ?_, fun _ => rfl, ?_, fun _ _ _ _ => rfl⟩
    · rw [← stands]
      rfl
    · rintro r ⟨⟩ ne
      exact absurd rfl ne
    · intro p former ne
      exact absurd (Option.some.inj (former.symm.trans stands)) ne

/-- A successful insertion puts the child where it says, except for a child that is its own position
and does not stand under the parent.  The document then stays as it is. -/
theorem childPlaced_insertBefore_iff (wf : d.WellFormed)
    (run : Edit.insertBefore parent child reference? d = .ok () d') :
    (ChildPlaced d d' parent child reference? ↔
      (reference? = some child → d.parent? child = some parent)) ∧
    (reference? = some child → d' = d) := by
  by_cases ok : d.Insertable parent child reference?
  · rw [Edit.insertBefore_ok wf ok] at run
    by_cases itself : reference? = some child
    · subst itself
      rw [if_pos rfl] at run
      cases run
      exact ⟨childPlaced_itself_iff.trans ⟨fun stands _ => stands, fun h => h rfl⟩, fun _ => rfl⟩
    · rw [if_neg itself] at run
      cases run
      exact ⟨⟨fun _ e => absurd e itself, fun _ => ok.childPlaced wf itself⟩,
        fun e => absurd e itself⟩
  · obtain ⟨e, -, failed⟩ := Edit.insertBefore_error wf ok
    rw [failed] at run
    cases run

/-- The first of three children moves before the last. -/
theorem childPlaced_forwards :
    let t : Tree := .node (.element (.unqualified "p")) []
      [.leaf (.element (.unqualified "a")), .leaf (.element (.unqualified "b")),
        .leaf (.element (.unqualified "c"))]
    let d := holding t
    let d' := endState (Edit.insertBefore ⟨0⟩ ⟨1⟩ (some ⟨3⟩) d)
    d.WellFormed ∧ Edit.insertBefore ⟨0⟩ ⟨1⟩ (some ⟨3⟩) d = .ok () d' ∧
      ChildPlaced d d' ⟨0⟩ ⟨1⟩ (some ⟨3⟩) ∧ d'.toXml ⟨0⟩ = "<p><b/><a/><c/></p>" := by
  intro t d d'
  have wf : d.WellFormed := wellFormed_holding t
  have run : Edit.insertBefore ⟨0⟩ ⟨1⟩ (some ⟨3⟩) d = .ok () d' := ok_endState (by decide +kernel)
  exact ⟨wf, run, (childPlaced_insertBefore_iff wf run).1.2 nofun, by decide +kernel⟩

/-- A grandchild that is its own position is not moved, where another one is refused as a position. -/
theorem not_childPlaced_before_itself :
    let t : Tree := .node (.element (.unqualified "p")) [] [.node (.element (.unqualified "q")) []
      [.leaf (.element (.unqualified "a")), .leaf (.element (.unqualified "b"))]]
    let d := holding t
    d.WellFormed ∧ Edit.insertBefore ⟨0⟩ ⟨2⟩ (some ⟨2⟩) d = .ok () d ∧
      ¬ ChildPlaced d d ⟨0⟩ ⟨2⟩ (some ⟨2⟩) ∧ d.parent? ⟨2⟩ = some ⟨1⟩ ∧
      Edit.insertBefore ⟨0⟩ ⟨2⟩ (some ⟨3⟩) d = .error .foreignReference d := by
  intro t d
  have parent : d.parent? ⟨2⟩ = some ⟨1⟩ := by decide +kernel
  refine ⟨wellFormed_holding t, by rfl, fun placed => ?_, parent, by rfl⟩
  exact absurd (parent.symm.trans (childPlaced_itself_iff.1 placed)) (by decide)

end Document

end VirtualTree
