import VirtualTree.Proofs.Forest.Reached
import VirtualTree.Proofs.Tree.Build

/-!
# Trees that navigation shows

The shown tree is the label of a node with the shown trees of its attributes and children (`shown_eq`).
Where the tree to be built can be built as it is, it is the shown one (`shown_eq_tree`): navigation and
building leave out the same entries of silhouettes.
-/

namespace VirtualTree

open Document

namespace Forest

variable {f : Forest}

/-- The shown tree is the label of a node with the shown trees of its attributes and children. -/
theorem shown_eq (wf : f.document.WellFormed) (p : Pointer) : f.shown p =
    .node (f.label p.node) ((f.attributes p).map f.shown) ((f.children p).map f.shown) :=
  unfold_levels wf f.shownWithin
    (fun p g => .node (f.label p.node) ((f.attributes p).map g) ((f.children p).map g))
    (fun p g attributes children => by rw [attributes, children]; rfl) (fun _ _ => rfl)
    (fun p g g' attributes children => by
      rw [List.map_congr_left attributes, List.map_congr_left children]) p

/-! ## The tree to be built -/

theorem label_tree (wf : f.document.WellFormed) (r : NodeRef) : (f.tree r).label = f.label r := by
  cases r with
  | real id =>
    rw [tree_real]
    exact Document.label_tree wf id
  | silhouette id =>
    rw [tree_silhouette]
    rfl

theorem map_fst_visibleEntries (id : SilhouetteId) :
    (f.visibleEntries id).map Prod.fst = (f.arena.get id).children.filter f.isVisible := by
  conv => rhs; rw [← List.zipIdx_map_fst 0 (f.arena.get id).children, List.filter_map]
  rfl

/-- Nodes that are no elements have no attributes. -/
theorem attributes_real (wf : f.document.WellFormed) (id : NodeId) (graft : List GraftPoint) :
    f.attributes ⟨.real id, graft⟩ = (f.document.attributes id).map fun a => ⟨.real a, graft⟩ := by
  show (if f.document.kind id = .element then _ else _) = _
  split_ifs with element
  · rfl
  · have none : f.document.attributes id = [] := List.eq_nil_iff_forall_not_mem.2 fun a ha =>
      element (wf.isElement a id (wf.parent_of_mem_attributes ha) (wf.kind_of_mem_attributes ha))
    rw [none]
    rfl

/-- A node that can be built as it is has only children that are shown. -/
theorem children_real (wf : f.document.WellFormed) {id : NodeId} (h : (f.document.tree id).Faithful)
    (graft : List GraftPoint) :
    f.children ⟨.real id, graft⟩ = (f.document.children id).map fun c => ⟨.real c, graft⟩ := by
  have visible : (f.document.children id).filter f.document.isVisible = f.document.children id := by
    refine List.filter_eq_self.2 fun c hc => decide_eq_true ?_
    rw [← kind_tree wf]
    exact (h.of_mem_links wf c (List.mem_append_right _ hc)).visible
  rw [children]
  show ((f.document.children id).filter f.document.isVisible).map _ = _
  rw [visible]

/-- The tree of a silhouette can be built as it is; then the parts of it can. -/
theorem faithful_silhouette {id : SilhouetteId} (h : (f.tree (.silhouette id)).Faithful) :
    (∀ r ∈ (f.arena.get id).attributes.filter f.isVisible, (f.tree r).kind = .attribute) ∧
    (((f.arena.get id).attributes.filter f.isVisible).map f.tree).Pairwise Tree.Apart ∧
    ∀ r ∈ (f.arena.get id).references, f.isVisible r → (f.tree r).Faithful := by
  rw [tree_silhouette] at h
  cases h with
  | node visible isElement isParent isAttribute isChild apart below =>
    refine ⟨List.forall_mem_map.1 isAttribute, apart, fun r mem visible => ?_⟩
    rcases List.mem_append.1 mem with mem | mem
    · exact below _ (List.mem_append_left _ (List.mem_map_of_mem (List.mem_filter.2 ⟨mem, visible⟩)))
    · exact below _ (List.mem_append_right _ (List.mem_map_of_mem (List.mem_filter.2 ⟨mem, visible⟩)))

/-- Attributes of a faithful silhouette have names, but for document types, which have none. -/
theorem name?_attribute (wf : f.document.WellFormed) {id : SilhouetteId}
    (h : (f.tree (.silhouette id)).Faithful) {r : NodeRef} (mem : r ∈ (f.arena.get id).attributes) :
    f.isVisible r ∧ f.kind r = .attribute ∧ (∃ n, f.name? r = some n) ∨
      ¬ f.isVisible r ∧ f.name? r = none := by
  by_cases visible : f.isVisible r
  · have kind := (faithful_silhouette h).1 r (List.mem_filter.2 ⟨mem, visible⟩)
    rw [Tree.kind, label_tree wf] at kind
    refine Or.inl ⟨visible, kind, Option.isSome_iff_exists.1 ?_⟩
    rw [name?, Label.isSome_name?]
    exact congrArg Kind.isNamed kind
  · refine Or.inr ⟨visible, name?_of_documentType ?_⟩
    simpa [isVisible] using visible

/-- The entries of a faithful silhouette that navigation shows are faithful. -/
theorem faithful_of_mem_entries (wf : f.document.WellFormed) {id : SilhouetteId}
    (h : (f.tree (.silhouette id)).Faithful) {graft : List GraftPoint} {p : Pointer}
    (mem : p ∈ f.entries ⟨.silhouette id, graft⟩) : (f.tree p.node).Faithful := by
  refine (faithful_silhouette h).2.2 _ (node_mem_references mem) ?_
  rcases List.mem_append.1 mem with mem | mem
  · obtain ⟨r, hr, name, named, rfl⟩ := mem_attributes_silhouette.1 mem
    rcases name?_attribute wf h hr with ⟨visible, -⟩ | ⟨-, nameless⟩
    · exact visible
    · rw [named] at nameless
      cases nameless
  · obtain ⟨r, i, ⟨-, visible⟩, rfl⟩ := mem_children_silhouette.1 mem
    exact visible

theorem map_attributes (wf : f.document.WellFormed) {id : SilhouetteId}
    (h : (f.tree (.silhouette id)).Faithful) (graft : List GraftPoint) {β : Type} (g : NodeRef → β) :
    (f.attributes ⟨.silhouette id, graft⟩).map (fun p => g p.node) =
      ((f.arena.get id).attributes.filter f.isVisible).map g := by
  rw [attributes, List.map_filterMap, ← List.filterMap_eq_map, List.filterMap_filter]
  refine List.filterMap_congr fun r hr => ?_
  rcases name?_attribute wf h hr with ⟨visible, -, name, named⟩ | ⟨hidden, named⟩
  · rw [named, if_pos visible]
    rfl
  · rw [named, if_neg hidden]
    rfl

theorem map_children (id : SilhouetteId) (graft : List GraftPoint) {β : Type} (g : NodeRef → β) :
    (f.children ⟨.silhouette id, graft⟩).map (fun p => g p.node) =
      ((f.arena.get id).children.filter f.isVisible).map g := by
  rw [← map_fst_visibleEntries, List.map_map, children, List.map_map]
  rfl

/-- The attributes of a faithful silhouette have different names. -/
theorem nodup_names (wf : f.document.WellFormed) {id : SilhouetteId}
    (h : (f.tree (.silhouette id)).Faithful) :
    ((f.arena.get id).attributes.filterMap f.name?).Nodup := by
  have visible : (f.arena.get id).attributes.filterMap f.name? =
      ((f.arena.get id).attributes.filter f.isVisible).filterMap f.name? := by
    rw [List.filterMap_filter]
    refine List.filterMap_congr fun r hr => ?_
    rcases name?_attribute wf h hr with ⟨visible, -⟩ | ⟨hidden, named⟩
    · rw [if_pos visible]
    · rw [if_neg hidden, named]
  rw [visible]
  exact Tree.nodup_names (fun r _ => congrArg Label.name? (label_tree wf r)) (faithful_silhouette h).2.1

/-- Where the tree to be built can be built as it is, it is the tree that navigation shows. -/
theorem shown_eq_tree (wf : f.document.WellFormed) {p : Pointer} (h : (f.tree p.node).Faithful) :
    f.shown p = f.tree p.node := by
  induction hn : f.room p using Nat.strong_induction_on generalizing p with
  | h n ih =>
    have entry {c : Pointer} (mem : c ∈ f.entries p) (hc : (f.tree c.node).Faithful) :
        f.shown c = f.tree c.node := ih _ (hn ▸ room_lt_of_mem_entries wf mem) hc rfl
    obtain ⟨node, graft⟩ := p
    cases node with
    | real id =>
      rw [tree_real] at h
      have below := h.of_mem_links wf
      have same {c : NodeId} (link : c ∈ f.document.links id)
          (mem : ⟨.real c, graft⟩ ∈ f.entries ⟨.real id, graft⟩) :
          f.shown ⟨.real c, graft⟩ = f.document.tree c := by
        rw [← tree_real]
        exact entry mem (by rw [tree_real]; exact below c link)
      rw [shown_eq wf, tree_real, wf.tree_eq]
      congr 1
      · rw [attributes_real wf, List.map_map]
        refine List.map_congr_left fun a ha => same (List.mem_append_left _ ha) ?_
        rw [entries, attributes_real wf]
        exact List.mem_append_left _ (List.mem_map_of_mem ha)
      · have visible := children_real wf h graft
        rw [visible, List.map_map]
        refine List.map_congr_left fun c hc => same (List.mem_append_right _ hc) ?_
        rw [entries, visible]
        exact List.mem_append_right _ (List.mem_map_of_mem hc)
    | silhouette id =>
      have same {c : Pointer} (mem : c ∈ f.entries ⟨.silhouette id, graft⟩) :
          f.shown c = f.tree c.node := entry mem (faithful_of_mem_entries wf h mem)
      rw [shown_eq wf, tree_silhouette, ← map_attributes wf h graft, ← map_children id graft]
      congr 1
      · exact List.map_congr_left fun c hc => same (List.mem_append_left _ hc)
      · exact List.map_congr_left fun c hc => same (List.mem_append_right _ hc)

end Forest

end VirtualTree
