import VirtualTree.Evaluation
import VirtualTree.Proofs.Materialization.Buildable
import VirtualTree.Proofs.Tree.Plant

/-!
# Copies

In a forest with `DistinctNames` no element, real or virtual, has two attributes of one expanded name.
Nothing else is asked of silhouettes, so there may be virtual trees that cannot be copied.  But what can
be copied is copied as navigation shows it (`DistinctNames.shown_eq_copied`), so a copy that succeeds is a
new tree that shows the same, and no copy changes what was there
(`Evaluate.deepCopy_faithful`).
-/

namespace VirtualTree

open Document

/-- What holds of the nodes of the document, and of a silhouette if it holds of all its entries, holds
of all nodes. -/
theorem Arena.induction_on_references {a : Arena} {P : NodeRef → Prop} (real : ∀ n, P (.real n))
    (silhouette : ∀ id, (∀ r ∈ (a.get id).references, P r) → P (.silhouette id)) (r : NodeRef) :
    P r := by
  cases r with
  | real n => exact real n
  | silhouette id =>
    induction hk : id.index using Nat.strong_induction_on generalizing id with
    | h k ih =>
      refine silhouette id fun r hr => ?_
      cases r with
      | real n => exact real n
      | silhouette s => exact ih s.index (hk ▸ lt_of_mem_references hr) s rfl

/-- Of the children of a document those are copied that are visible. -/
theorem Document.taken_children_of_document {d : Document} (wf : d.WellFormed) (id : NodeId) :
    Tree.taken true ((d.children id).map d.tree) = ((d.children id).filter d.isVisible).map d.tree := by
  rw [taken_map_tree wf]
  refine congrArg _ (List.filter_congr fun c _ => ?_)
  rw [isVisible, Bool.true_and, decide_not]

namespace Forest

/-- No element, real or virtual, has two attributes of one expanded name. -/
structure DistinctNames (f : Forest) : Prop where
  document : f.document.WellFormed
  distinct : f.document.DistinctAttributes
  names : ∀ id, ((f.arena.get id).attributes.filter fun r => f.kind r = .attribute).Pairwise
    fun r r' => ∀ n ∈ f.name? r, ∀ m ∈ f.name? r', ¬ n.SameExpanded m

variable {f : Forest} {r : NodeRef} {p : Pointer}

/-- What is asked of silhouettes can be tested. -/
theorem DistinctNames.of_silhouettes (document : f.document.WellFormed)
    (distinct : f.document.DistinctAttributes)
    (h : ∀ s ∈ f.arena.silhouettes, (s.attributes.filter fun r => f.kind r = .attribute).Pairwise
      fun r r' => ∀ n ∈ f.name? r, ∀ m ∈ f.name? r', ¬ n.SameExpanded m) : f.DistinctNames :=
  ⟨document, distinct, fun id => f.arena.get_of_silhouettes id h .nil⟩

namespace DistinctNames

variable (h : f.DistinctNames)

include h

/-- What can be copied, documents of the host apart, can be built as it is. -/
theorem faithful (copyable : (f.tree r).Copyable)
    (virtual : ∀ id, r = .real id → f.kind r ≠ .document) : (f.tree r).Faithful := by
  induction r using Arena.induction_on_references (a := f.arena) with
  | real id =>
    have tree := Document.tree_settled h.document (virtual id rfl)
    rw [settled_eq_self h.document h.distinct] at tree
    rw [tree_real] at copyable ⊢
    rw [tree]
    exact copyable.faithful
  | silhouette id ih =>
    rw [tree_silhouette] at copyable ⊢
    cases copyable with
    | node visible isElement isParent isAttribute isChild below =>
      rw [taken_children h.document] at isParent isChild below
      rw [List.forall_mem_map] at isAttribute isChild
      have shown : (f.arena.get id).attributes.filter f.isVisible =
          (f.arena.get id).attributes.filter fun r => f.kind r = .attribute := by
        refine List.filter_congr fun r hr => decide_eq_decide.2 ⟨fun visible => ?_, fun kind => ?_⟩
        · have kind := isAttribute r (List.mem_filter.2 ⟨hr, decide_eq_true visible⟩)
          rwa [Tree.kind, label_tree h.document] at kind
        · rw [kind]
          decide
      have apart : (((f.arena.get id).attributes.filter f.isVisible).map f.tree).Pairwise Tree.Apart := by
        rw [shown]
        refine List.pairwise_map.2 ((h.names id).imp fun {r r'} apart => ?_)
        rwa [Tree.Apart, label_tree h.document, label_tree h.document]
      have entry {r : NodeRef} (mem : r ∈ (f.arena.get id).references) (copyable : (f.tree r).Copyable)
          (notDocument : (f.tree r).kind ≠ .document) : (f.tree r).Faithful :=
        ih r mem copyable fun _ _ => by rwa [kind, ← label_tree h.document]
      rw [List.forall_mem_append, List.forall_mem_map, List.forall_mem_map] at below
      refine .node visible isElement isParent (List.forall_mem_map.2 isAttribute)
        (List.forall_mem_map.2 isChild) apart (List.forall_mem_append.2
          ⟨List.forall_mem_map.2 fun r hr => ?_, List.forall_mem_map.2 fun r hr => ?_⟩)
      · refine entry (List.mem_append_left _ (List.mem_of_mem_filter hr)) (below.1 r hr) ?_
        rw [isAttribute r hr]
        decide
      · exact entry (List.mem_append_right _ (List.mem_of_mem_filter hr)) (below.2 r hr) (isChild r hr).2

/-- What is no document of the host is shown as its copy. -/
theorem shown_eq_copied_of_settled (copyable : (f.tree p.node).Copyable)
    (virtual : ∀ id, p.node = .real id → f.kind p.node ≠ .document) :
    f.shown p = (f.tree p.node).copied := by
  have faithful := h.faithful copyable virtual
  rw [shown_eq_tree h.document faithful, faithful.copied_eq]

/-- Of a document of the host a copy leaves out the document types, as navigation does. -/
theorem shown_eq_copied_of_document {id : NodeId} {graft : List GraftPoint}
    (document : f.document.kind id = .document) (copyable : (f.document.tree id).Copyable) :
    f.shown ⟨.real id, graft⟩ = (f.document.tree id).copied := by
  have wf := h.document
  rw [wf.tree_eq] at copyable
  rw [shown_eq wf, wf.tree_eq, Tree.copied_node, attributes_real wf]
  cases copyable with
  | node _ isElement _ _ isChild below =>
    rw [show (f.document.label id).kind = .document from document] at isElement isChild below ⊢
    have none : f.document.attributes id = [] := by
      by_contra some
      cases isElement (mt List.map_eq_nil_iff.1 some)
    rw [decide_eq_true rfl, taken_children_of_document wf] at isChild below ⊢
    rw [List.forall_mem_map] at isChild
    rw [List.forall_mem_append] at below
    rw [none]
    show Tree.node _ [] ((((f.document.children id).filter _).map _).map f.shown) =
      Tree.node _ [] ((((f.document.children id).filter _).map f.document.tree).map Tree.copied)
    rw [List.map_map, List.map_map]
    refine congrArg (Tree.node _ []) (List.map_congr_left fun c hc => ?_)
    have copy := h.shown_eq_copied_of_settled (p := ⟨.real c, graft⟩)
      (tree_real f c ▸ below.2 _ (List.mem_map_of_mem hc))
      fun _ _ => by rw [kind, label, ← Document.label_tree wf]; exact (isChild c hc).2
    rwa [tree_real] at copy

/-- What can be copied is shown as the copy. -/
theorem shown_eq_copied (copyable : (f.tree p.node).Copyable) : f.shown p = (f.tree p.node).copied := by
  by_cases virtual : ∀ id, p.node = .real id → f.kind p.node ≠ .document
  · exact h.shown_eq_copied_of_settled copyable virtual
  · simp only [not_forall, not_not] at virtual
    obtain ⟨id, real, document⟩ := virtual
    obtain ⟨node, graft⟩ := p
    obtain rfl : node = .real id := real
    rw [tree_real] at copyable ⊢
    exact h.shown_eq_copied_of_document document copyable

end DistinctNames

/-- The node is a copy of what the pointer denotes: it has no parent, it and all below it are new, and
it shows what navigation shows at the pointer. -/
structure IsCopy (f : Forest) (p : Pointer) (d : Document) (n : NodeId) : Prop where
  top : d.Top n
  fresh : ∀ i, d.AtOrAbove i n → d.Has i ∧ ¬ f.document.Has i
  tree : d.tree n = f.shown p

/-- What is built for a pointer is a copy. -/
theorem DistinctNames.isCopy_of_build (h : f.DistinctNames) {d : Document} {n : NodeId}
    (run : (f.tree p.node).build f.document = .ok n d) : f.IsCopy p d n := by
  have wf := h.document
  obtain ⟨grown, outside⟩ := (Tree.keeps_build _).ok wf.extends_self run
  have top := Tree.top_of_build wf run
  have copyable := Tree.copyableIfBuilt _ f.document n d wf run
  exact {
    top := top
    fresh := fun i below =>
      ⟨has_of_below top.has below, fun inside => outside (grown.inside_of_atOrAbove inside below)⟩
    tree := (copyable.tree_of_build wf run).trans (h.shown_eq_copied copyable).symm }

end Forest

namespace Evaluate

/-- A copy is built in the document, and nothing else changes. -/
theorem deepCopy_apply (p : Pointer) (o : Options) (e : Evaluation) :
    deepCopy p o e = match (e.tree p.node).build e.document with
      | .ok n d => .ok n { e with document := d }
      | .error err d => .error err { e with document := d } := by
  have copy : Construct.deepCopy e.arena p ⟨e.document, e.memo, []⟩ =
      Construct.edit (e.tree p.node).build ⟨e.document, e.memo, []⟩ := rfl
  show construct (Construct.deepCopy e.arena p) o e = _
  rw [construct, copy, Construct.edit]
  cases (e.tree p.node).build e.document <;> rfl

theorem deepCopy_ok {p : Pointer} {o : Options} {e e' : Evaluation} {n : NodeId}
    (run : deepCopy p o e = .ok n e') :
    ∃ d, (e.tree p.node).build e.document = .ok n d ∧ e' = { e with document := d } := by
  rw [deepCopy_apply] at run
  cases built : (e.tree p.node).build e.document with
  | ok n d =>
    rw [built] at run
    cases run
    exact ⟨d, rfl, rfl⟩
  | error err d =>
    rw [built] at run
    cases run

/-- In a forest with different names for attributes, a copy succeeds just if the tree to be built can be
copied, and then it is one that shows what navigation shows; so it is for `Edit.deepClone`, which copies
nodes of the document.  Whether a copy succeeds or fails, the nodes that were there are as they were, and
nothing is changed but the document. -/
theorem deepCopy_faithful {e : Evaluation} (h : e.DistinctNames) (o : Options) (p : Pointer) :
    ((∃ n e', deepCopy p o e = .ok n e') ↔ (e.tree p.node).Copyable) ∧
      (∀ n e', deepCopy p o e = .ok n e' → e.IsCopy p e'.document n) ∧
      (∀ id n d, p.node = .real id → Edit.deepClone id e.document = .ok n d → e.IsCopy p d n) ∧
      (∃ d, endState (deepCopy p o e) = { e with document := d } ∧
        ∀ i, e.document.Has i → d.record i = e.document.record i) ∧
      ∀ id i, e.document.Has i →
        (endState (Edit.deepClone id e.document)).record i = e.document.record i := by
  have wf := h.document
  have untouched (t : Tree) := ((Tree.keeps_build t).endState wf.extends_self).record_eq
  refine ⟨⟨?_, fun copyable => ?_⟩, fun n e' run => ?_, fun id n d real run => ?_, ?_,
    fun id => untouched (e.document.tree id)⟩
  · rintro ⟨n, e', run⟩
    obtain ⟨d, built, -⟩ := deepCopy_ok run
    exact Tree.copyableIfBuilt _ _ _ _ wf built
  · obtain ⟨n, d, built, -⟩ := copyable.buildsCopy e.document wf
    exact ⟨n, { e with document := d }, by rw [deepCopy_apply, built]⟩
  · obtain ⟨d, built, rfl⟩ := deepCopy_ok run
    exact h.isCopy_of_build built
  · refine h.isCopy_of_build ?_
    rw [real, Forest.tree_real]
    exact run
  · refine ⟨endState ((e.tree p.node).build e.document), ?_, untouched _⟩
    rw [deepCopy_apply]
    cases (e.tree p.node).build e.document <;> rfl

/-- A virtual node in a slot is copied, with an attribute and a document type of the document in its own
slots, a spliced element and a virtual text; the element is copied by itself as well. -/
theorem deepCopy_of_mixed_tree :
    let t : Tree := .node .document [] [.leaf (.documentType "a"),
      .node (.element (.unqualified "a")) [.leaf (.attribute (.unqualified "x") "1")]
        [.leaf (.text "t")]]
    let v := Arena.empty.alloc (.text "v") (by decide)
    let b := v.2.alloc (.element (.unqualified "b") [.real ⟨3⟩] [.real ⟨1⟩, .real ⟨2⟩, .silhouette v.1])
      (by decide)
    let r := b.2.alloc (.element (.unqualified "r") [] [.silhouette b.1]) (by decide)
    let e : Evaluation := { Evaluation.start (t.plant .empty).2 with arena := r.2 }
    let p : Pointer := ⟨.silhouette b.1, [⟨r.1, .child 0⟩]⟩
    let e' := endState (deepCopy p {} e)
    let d := endState (Edit.deepClone ⟨2⟩ e.document)
    e.DistinctNames ∧ deepCopy p {} e = .ok ⟨5⟩ e' ∧ e.IsCopy p e'.document ⟨5⟩ ∧
      e'.document.toXml ⟨5⟩ = "<b x=\"1\"><a x=\"1\">t</a>v</b>" ∧
      Edit.deepClone ⟨2⟩ e.document = .ok ⟨5⟩ d ∧ e.IsCopy (.real ⟨2⟩) d ⟨5⟩ ∧
      d.toXml ⟨5⟩ = "<a x=\"1\">t</a>" ∧
      ∃ d, e' = { e with document := d } ∧
        ∀ i, e.document.Has i → d.record i = e.document.record i := by
  intro t v b r e p e' d
  have plantable : t.Plantable := by
    refine .node nofun (fun _ => rfl) nofun (by decide) (List.forall_mem_cons.2 ⟨.leaf _,
      List.forall_mem_singleton.2 ?_⟩)
    exact .node (fun _ => rfl) (fun _ => rfl) (by decide) (by decide)
      (List.forall_mem_cons.2 ⟨.leaf _, List.forall_mem_singleton.2 (.leaf _)⟩)
  have wf : e.document.WellFormed :=
    (Extends.plant t plantable wellFormed_empty.extends_self).1.kept.wellFormed
  have distinct : e.DistinctNames :=
    .of_silhouettes wf (.of_nodes (by decide +kernel)) (by decide +kernel)
  have run : deepCopy p {} e = .ok ⟨5⟩ e' := ok_of_answer? (by decide +kernel)
  have run' : Edit.deepClone ⟨2⟩ e.document = .ok ⟨5⟩ d := ok_of_answer? (by decide +kernel)
  obtain ⟨-, copy, -, rest, -⟩ := deepCopy_faithful distinct {} p
  obtain ⟨-, -, clone, -⟩ := deepCopy_faithful distinct {} (.real ⟨2⟩)
  exact ⟨distinct, run, copy ⟨5⟩ e' run, by decide +kernel, run', clone ⟨2⟩ ⟨5⟩ d rfl run',
    by decide +kernel, rest⟩

end Evaluate

end VirtualTree
