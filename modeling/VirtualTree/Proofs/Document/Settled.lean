import VirtualTree.Proofs.Tree.Build

/-!
# Documents that are copied as they are

A copy of an element keeps the last one of the attributes with one expanded name.  Taking the others away
everywhere settles a document: it has the same labels and children, and the tree below a node is that of
the copies of the node (`tree_settled`).  A document where no node has two attributes of one expanded name
is settled already (`settled_eq_self`), so what can be copied from it is faithful.
-/

namespace VirtualTree

/-- A sublist of a list without repetitions is what the list has in common with it. -/
theorem filter_mem_of_sublist {α : Type} [DecidableEq α] {s l : List α} (h : s.Sublist l)
    (nodup : l.Nodup) : l.filter (· ∈ s) = s := by
  have all : s.filter (· ∈ s) = s := List.filter_eq_self.2 fun _ ha => decide_eq_true ha
  have inside : s.Sublist (l.filter (· ∈ s)) := by
    have kept := h.filter (· ∈ s)
    rwa [all] at kept
  have only : l.filter (· ∈ s) ⊆ s := fun a ha => of_decide_eq_true (List.mem_filter.1 ha).2
  exact (inside.eq_of_length_le ((nodup.filter _).subperm only).length_le).symm

namespace Document

variable {d : Document}

/-- The attributes that copies of a node have. -/
def keptAttributes (d : Document) (p : NodeId) : List NodeId :=
  (d.attributes p).pwFilter fun a b => (d.tree a).copied.Apart (d.tree b).copied

/-- The attributes that copies of their owners do not have. -/
def lostAttributes (d : Document) : List NodeId :=
  (List.range d.size).flatMap fun i => (d.attributes ⟨i⟩).filter (· ∉ d.keptAttributes ⟨i⟩)

/-- The document without the attributes that copies do not have. -/
def settled (d : Document) : Document := d.lostAttributes.foldl detach d

@[simp] theorem label_settled (id : NodeId) : d.settled.label id = d.label id :=
  label_foldl_detach id _

theorem WellFormed.settled (wf : d.WellFormed) : d.settled.WellFormed := wf.foldl_detach _

theorem mem_lostAttributes (wf : d.WellFormed) {p a : NodeId} (ha : a ∈ d.attributes p) :
    a ∈ d.lostAttributes ↔ a ∉ d.keptAttributes p := by
  have parent := wf.parent_of_mem_attributes ha
  simp only [lostAttributes, List.mem_flatMap, List.mem_range, List.mem_filter, decide_eq_true_eq]
  constructor
  · rintro ⟨i, -, mem, lost⟩
    obtain rfl := Option.some.inj (parent.symm.trans (wf.parent_of_mem_attributes mem))
    exact lost
  · exact fun lost => ⟨p.index, wf.has_parent a p parent, ha, lost⟩

theorem attributes_settled (wf : d.WellFormed) (p : NodeId) :
    d.settled.attributes p = d.keptAttributes p := by
  have stays : ∀ a ∈ d.attributes p, a ∉ d.lostAttributes ↔ a ∈ d.keptAttributes p := fun a ha =>
    (not_congr (mem_lostAttributes wf ha)).trans not_not
  rw [settled, attributes_foldl_detach _ wf, List.filter_congr fun a ha => decide_eq_decide.2 (stays a ha)]
  exact filter_mem_of_sublist (List.pwFilter_sublist _) (wf.nodup_attributes p)

theorem children_settled (wf : d.WellFormed) (p : NodeId) : d.settled.children p = d.children p := by
  rw [settled, children_foldl_detach _ wf]
  refine List.filter_eq_self.2 fun c hc => decide_eq_true fun lost => ?_
  obtain ⟨i, -, mem⟩ := List.mem_flatMap.1 lost
  exact wf.kind_of_mem_children hc (wf.kind_of_mem_attributes (List.mem_of_mem_filter mem))

/-- In the settled document stand the trees of the copies. -/
theorem tree_settled (wf : d.WellFormed) {id : NodeId} (notDocument : d.kind id ≠ .document) :
    d.settled.tree id = (d.tree id).copied := by
  induction hn : d.room id using Nat.strong_induction_on generalizing id with
  | h n ih =>
    have below : ∀ c ∈ d.links id, d.settled.tree c = (d.tree c).copied := fun c hc => by
      have parent := wf.mem_links.1 hc
      refine ih _ (hn ▸ wf.room_lt parent) (fun kind => ?_) rfl
      rw [wf.parent_of_document c kind] at parent
      cases parent
    have plain : decide ((d.label id).kind = .document) = false := decide_eq_false notDocument
    have kept : d.keptAttributes id ⊆ d.attributes id := List.pwFilter_subset _
    rw [wf.settled.tree_eq, wf.tree_eq, Tree.copied_node, plain, Tree.taken_false, List.map_map,
      List.map_map, List.pwFilter_map, label_settled, attributes_settled wf, children_settled wf]
    congr 1
    · exact List.map_congr_left fun a ha => below a (List.mem_append_left _ (kept ha))
    · exact List.map_congr_left fun c hc => below c (List.mem_append_right _ hc)

/-- A document without two attributes of one expanded name on a node is settled. -/
theorem settled_eq_self (wf : d.WellFormed) (distinct : d.DistinctAttributes) : d.settled = d := by
  have none : d.lostAttributes = [] := List.eq_nil_iff_forall_not_mem.2 fun a lost => by
    obtain ⟨i, -, mem⟩ := List.mem_flatMap.1 lost
    have apart : (d.attributes ⟨i⟩).Pairwise fun a b => (d.tree a).copied.Apart (d.tree b).copied := by
      refine (distinct ⟨i⟩).imp fun {a b} apart => ?_
      rw [Tree.Apart, Tree.label_copied, Tree.label_copied, label_tree wf, label_tree wf]
      exact apart
    rw [keptAttributes, List.pwFilter_eq_self.2 apart] at mem
    exact of_decide_eq_true (List.mem_filter.1 mem).2 (List.mem_of_mem_filter mem)
  rw [settled, none, List.foldl_nil]

end Document

end VirtualTree
