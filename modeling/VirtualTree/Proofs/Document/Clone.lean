import VirtualTree.Proofs.Document.History
import VirtualTree.Proofs.Tree.Build

/-!
# Nodes that can be copied

A node can be copied just if every document type at or below it is a child of it and it is a document
(`WellFormed.copyable_tree_iff`), since only a document leaves out the document types among its children.
So a document type below an element stands in the way of a copy
(`Document.no_copy_of_documentType_in_element`), though navigation shows neither the one nor the other.
-/

namespace VirtualTree

namespace Document

variable {d : Document}

/-- Every document type at or below the node is a child of it, and the node is a document. -/
def TypesOnTop (d : Document) (id : NodeId) : Prop :=
  ∀ c, d.AtOrAbove c id → d.kind c = .documentType → d.parent? c = some id ∧ d.kind id = .document

namespace WellFormed

variable (wf : d.WellFormed)

include wf

/-- Nothing but itself stands at or below a document type. -/
theorem eq_of_atOrAbove_documentType {c k : NodeId} (above : d.AtOrAbove c k)
    (kind : d.kind k = .documentType) : c = k := by
  rcases Relation.ReflTransGen.cases_tail above with eq | ⟨p, -, parent⟩
  · exact eq.symm
  · exact absurd kind (of_decide_eq_true (wf.isVisible_parent parent))

/-- What can be copied has document types on top only. -/
theorem typesOnTop_of_copyable {id : NodeId} (h : (d.tree id).Copyable) : d.TypesOnTop id := by
  intro c above kind
  induction above with
  | refl =>
    rw [wf.tree_eq] at h
    cases h with
    | node visible => exact absurd kind visible
  | @tail k id above parent ih =>
    have notDocument : d.kind k ≠ .document := fun document => by
      rw [wf.parent_of_document k document] at parent
      cases parent
    by_cases skipped : d.kind id = .document ∧ d.kind k = .documentType
    · obtain rfl := wf.eq_of_atOrAbove_documentType above skipped.2
      exact ⟨parent, skipped.1⟩
    · rw [wf.tree_eq] at h
      cases h with
      | node _ _ _ _ _ below =>
        refine absurd (ih (below (d.tree k) ?_)).2 notDocument
        rcases List.mem_append.1 (wf.mem_links.2 parent) with attr | child
        · exact List.mem_append_left _ (List.mem_map_of_mem attr)
        · rw [taken_map_tree wf]
          refine List.mem_append_right _ (List.mem_map_of_mem (List.mem_filter.2 ⟨child, ?_⟩))
          rw [← Bool.decide_and, not_decide_eq_true]
          exact skipped

/-- With document types on top only a node can be copied. -/
theorem copyable_of_typesOnTop {id : NodeId} (h : d.TypesOnTop id) : (d.tree id).Copyable := by
  induction hn : d.room id using Nat.strong_induction_on generalizing id with
  | h n ih =>
    have below {c : NodeId} (parent : d.parent? c = some id)
        (kept : ¬ (d.kind id = .document ∧ d.kind c = .documentType)) : (d.tree c).Copyable := by
      refine ih _ (hn ▸ wf.room_lt parent) (fun x above kind => ?_) rfl
      obtain ⟨parent', document⟩ := h x (above.tail parent) kind
      rcases atOrAbove_iff.1 above with rfl | ⟨p, hp, above⟩
      · exact absurd ⟨document, kind⟩ kept
      · obtain rfl := Option.some.inj (parent'.symm.trans hp)
        exact absurd above (wf.not_atOrAbove_parent parent)
    have visible : d.kind id ≠ .documentType := fun kind =>
      wf.not_atOrAbove_parent (h id (.refl id) kind).1 (.refl id)
    have taken {c : NodeId} (hc : c ∈ (d.children id).filter fun c =>
        !(decide ((d.label id).kind = .document) && d.kind c = .documentType)) :
        c ∈ d.children id ∧ ¬ (d.kind id = .document ∧ d.kind c = .documentType) := by
      obtain ⟨mem, kept⟩ := List.mem_filter.1 hc
      rw [← Bool.decide_and, not_decide_eq_true] at kept
      exact ⟨mem, kept⟩
    rw [wf.tree_eq]
    refine .node visible (fun some => ?_) ?_ (List.forall_mem_map.2 fun a ha => ?_) ?_ ?_
    · obtain ⟨a, ha⟩ := List.exists_mem_of_ne_nil _ (mt List.map_eq_nil_iff.2 some)
      exact wf.isElement a id (wf.parent_of_mem_attributes ha) (wf.kind_of_mem_attributes ha)
    · rw [taken_map_tree wf]
      intro some
      obtain ⟨c, hc⟩ := List.exists_mem_of_ne_nil _ (mt List.map_eq_nil_iff.2 some)
      have mem := (taken hc).1
      exact wf.isParent c id (wf.parent_of_mem_children mem) (wf.kind_of_mem_children mem)
    · rw [kind_tree wf]
      exact wf.kind_of_mem_attributes ha
    · rw [taken_map_tree wf]
      refine List.forall_mem_map.2 fun c hc => ?_
      have mem := (taken hc).1
      rw [kind_tree wf]
      refine ⟨wf.kind_of_mem_children mem, fun document => ?_⟩
      have parent := wf.parent_of_mem_children mem
      rw [wf.parent_of_document c document] at parent
      cases parent
    · rw [taken_map_tree wf]
      refine List.forall_mem_append.2 ⟨List.forall_mem_map.2 fun a ha => ?_,
        List.forall_mem_map.2 fun c hc => ?_⟩
      · refine below (wf.parent_of_mem_attributes ha) fun hidden => ?_
        rw [wf.kind_of_mem_attributes ha] at hidden
        cases hidden.2
      · exact below (wf.parent_of_mem_children (taken hc).1) (taken hc).2

/-- A node can be copied just if it has document types on top only. -/
theorem copyable_tree_iff {id : NodeId} : (d.tree id).Copyable ↔ d.TypesOnTop id :=
  ⟨wf.typesOnTop_of_copyable, wf.copyable_of_typesOnTop⟩

/-- What stands in a tree that can be built as it is is visible. -/
theorem isVisible_of_faithful {id i : NodeId} (h : (d.tree id).Faithful) (below : d.AtOrAbove i id) :
    d.isVisible i := by
  induction below with
  | refl =>
    refine decide_eq_true ?_
    rw [← kind_tree wf]
    exact h.visible
  | tail _ parent ih => exact ih (h.of_mem_links wf _ (wf.mem_links.2 parent))

end WellFormed

/-- Whatever was done to a document, a node can be copied just if every document type at or below it is a
child of it and it is a document.  The copy has the same nodes but for these document types and, of the
attributes of a node with one expanded name, all but the last. -/
theorem deepClone_succeeds_iff (h : History d) (id : NodeId) :
    ((∃ n d', Edit.deepClone id d = .ok n d') ↔ d.TypesOnTop id) ∧
      ∀ n d', Edit.deepClone id d = .ok n d' → d'.tree n = (d.tree id).copied ∧
        ∀ i, d'.AtOrAbove i n → d'.isVisible i := by
  have wf := h.wellFormed
  refine ⟨⟨?_, fun types => ?_⟩, fun n d' run => ?_⟩
  · rintro ⟨n, d', run⟩
    exact wf.copyable_tree_iff.1 (Tree.copyableIfBuilt _ d n d' wf run)
  · obtain ⟨n, d', run, -⟩ := (wf.copyable_tree_iff.2 types).buildsCopy d wf
    exact ⟨n, d', run⟩
  · have copyable := Tree.copyableIfBuilt _ d n d' wf run
    have tree : d'.tree n = (d.tree id).copied := copyable.tree_of_build wf run
    have wf' := ((Edit.keeps_deepClone id).ok wf.extends_self run).1.wellFormed
    exact ⟨tree, fun i => wf'.isVisible_of_faithful (tree ▸ copyable.faithful)⟩

/-- A document is copied without the document type that it has as a child. -/
theorem deepClone_of_document :
    let t : Tree := .node .document [] [.leaf (.documentType "r"),
      .node (.element (.unqualified "r")) [] [.leaf (.text "hi")]]
    let d := (t.plant .empty).2
    let d' := endState (Edit.deepClone ⟨0⟩ d)
    History d ∧ d.toXml ⟨0⟩ = "<!DOCTYPE r><r>hi</r>" ∧ d.TypesOnTop ⟨0⟩ ∧
      Edit.deepClone ⟨0⟩ d = .ok ⟨4⟩ d' ∧ d'.toXml ⟨4⟩ = "<r>hi</r>" ∧
      d'.tree ⟨4⟩ = t.copied ∧ ∀ i, d'.AtOrAbove i ⟨4⟩ → d'.isVisible i := by
  intro t d d'
  have plantable : t.Plantable := by
    refine .node nofun (fun _ => rfl) nofun (by decide) (List.forall_mem_cons.2 ⟨.leaf _,
      List.forall_mem_singleton.2 ?_⟩)
    exact .node nofun (fun _ => rfl) nofun (by decide) (List.forall_mem_singleton.2 (.leaf _))
  have history : History d := .single (.plant _ plantable)
  have run : Edit.deepClone ⟨0⟩ d = .ok ⟨4⟩ d' := ok_of_answer? (by decide +kernel)
  obtain ⟨succeeds, copy⟩ := deepClone_succeeds_iff history ⟨0⟩
  obtain ⟨tree, visible⟩ := copy ⟨4⟩ d' run
  exact ⟨history, by decide +kernel, succeeds.1 ⟨_, _, run⟩, run, by decide +kernel, tree, visible⟩

/-- An element cannot be copied if a document type stands below it, though navigation shows the element
and hides the document type. -/
theorem no_copy_of_documentType_in_element :
    let t : Tree := .node (.element (.unqualified "e")) [] [.leaf (.documentType "d")]
    let d := (t.plant .empty).2
    let f : Forest := ⟨d, .empty⟩
    History d ∧ d.isVisible ⟨0⟩ ∧ f.children (.real ⟨0⟩) = [] ∧
      ∃ d', Edit.deepClone ⟨0⟩ d = .error .documentTypeCopy d' := by
  intro t d f
  have plantable : t.Plantable :=
    .node nofun (fun _ => rfl) nofun (by decide) (List.forall_mem_singleton.2 (.leaf _))
  exact ⟨.single (.plant _ plantable), by decide, rfl, _, rfl⟩

end Document

end VirtualTree
