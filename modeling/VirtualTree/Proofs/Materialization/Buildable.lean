import VirtualTree.Proofs.Document.Settled
import VirtualTree.Proofs.Forest.Shown

/-!
# Buildable trees

A virtual tree is `Buildable` when its attribute slots hold attributes of different expanded names, its
child slots hold neither attributes nor documents, and the real nodes in them can be copied; document
types may stand among the children, as they are left out.  Then the tree can be built
(`Buildable.copyable`), and it stays the same while the document and the arena grow
(`Buildable.tree_eq`).  On the settled document it is built as it is (`Buildable.tree_settled`), and on a
document that is settled so it is as well (`Buildable.faithful`).
-/

namespace VirtualTree

open Document

namespace Silhouette

theorem kind_of_attributes {s : Silhouette} (h : s.attributes ≠ []) : s.label.kind = .element := by
  cases s with
  | element => rfl
  | document | «attribute» | text | comment | processingInstruction => exact absurd rfl h

theorem isParent_of_children {s : Silhouette} (h : s.children ≠ []) : s.label.kind.isParent := by
  cases s with
  | document | element => rfl
  | «attribute» | text | comment | processingInstruction => exact absurd rfl h

end Silhouette

/-- An arena with the silhouettes of another, which are as they were, and maybe others. -/
structure Arena.Extends (a b : Arena) : Prop where
  size_le : a.size ≤ b.size
  get_eq : ∀ id : SilhouetteId, id.index < a.size → b.get id = a.get id

theorem Arena.Extends.refl (a : Arena) : a.Extends a := ⟨Nat.le_refl _, fun _ _ => rfl⟩

theorem Arena.Extends.trans {a b c : Arena} (h : a.Extends b) (h' : b.Extends c) : a.Extends c where
  size_le := h.size_le.trans h'.size_le
  get_eq id has := by rw [h'.get_eq id (has.trans_le h.size_le), h.get_eq id has]

/-- Adding a silhouette leaves the others alone. -/
theorem Arena.extends_alloc (a : Arena) (s : Silhouette) (h : ∀ r ∈ s.references, r.Below a.size) :
    a.Extends (a.alloc s h).2 where
  size_le := by rw [size_alloc]; exact Nat.le_succ _
  get_eq id has := by rw [get_alloc, if_neg has.ne]

/-- Only what is in an arena refers to anything. -/
theorem Arena.lt_size_of_mem_references {a : Arena} {id : SilhouetteId} {r : NodeRef}
    (mem : r ∈ (a.get id).references) : id.index < a.size := by
  by_contra outside
  rw [Arena.get, Array.getD_eq_getD_getElem?,
    Array.getElem?_eq_none (Nat.le_of_not_lt outside)] at mem
  cases mem

namespace Forest

/-- The node exists, and the tree of it can be built. -/
inductive Buildable (f : Forest) : NodeRef → Prop
  | real (id : NodeId) (has : f.document.Has id)
    (copies : ∃ n d, Edit.deepClone id f.document = .ok n d) : Buildable f (.real id)
  | silhouette (id : SilhouetteId) (has : id.index < f.arena.size)
    (isAttribute : ∀ r ∈ (f.arena.get id).attributes, f.kind r = .attribute)
    (distinct : (f.arena.get id).attributes.Pairwise fun r r' =>
      ∀ n ∈ f.name? r, ∀ m ∈ f.name? r', ¬ n.SameExpanded m)
    (attributes : ∀ r ∈ (f.arena.get id).attributes, f.Buildable r)
    (isChild : ∀ r ∈ (f.arena.get id).children, f.kind r ≠ .attribute ∧ f.kind r ≠ .document)
    (children : ∀ r ∈ (f.arena.get id).children, f.isVisible r → f.Buildable r) :
    Buildable f (.silhouette id)

/-- A later forest, with the nodes and silhouettes of an earlier one and maybe others. -/
structure Grows (f g : Forest) : Prop where
  document : f.document.Extends g.document
  arena : f.arena.Extends g.arena

variable {f g : Forest} {r : NodeRef}

theorem Grows.refl (wf : f.document.WellFormed) : f.Grows f := ⟨wf.extends_self, .refl _⟩

/-- A node that navigation hides exists, as nodes that do not exist look like texts. -/
theorem has_of_hidden {r : NodeRef} (h : ¬ f.isVisible r) :
    ∃ id, r = .real id ∧ f.document.Has id := by
  have kind : f.kind r = .documentType := by simpa [isVisible] using h
  cases r with
  | silhouette id => exact absurd kind (kind_silhouette_ne id)
  | real id =>
    refine ⟨id, rfl, Decidable.by_contra fun absent => ?_⟩
    rw [Forest.kind, label, Document.label, record_of_not_has absent] at kind
    cases kind

/-- The virtual nodes on the settled document. -/
def settled (f : Forest) : Forest := ⟨f.document.settled, f.arena⟩

theorem label_settled (r : NodeRef) : f.settled.label r = f.label r := by
  cases r with
  | real id => exact Document.label_settled id
  | silhouette id => rfl

/-! ## Silhouettes that are the same in two forests -/

/-- The silhouette is the same in both forests, and so are the labels of its entries. -/
structure Alike (f g : Forest) (id : SilhouetteId) : Prop where
  get : g.arena.get id = f.arena.get id
  label : ∀ r ∈ (f.arena.get id).references, g.label r = f.label r

theorem alike_settled (f : Forest) (id : SilhouetteId) : f.Alike f.settled id :=
  ⟨rfl, fun r _ => label_settled r⟩

namespace Alike

variable {id : SilhouetteId} {graft : List GraftPoint} (h : f.Alike g id)

include h

theorem attributes_eq :
    g.attributes ⟨.silhouette id, graft⟩ = f.attributes ⟨.silhouette id, graft⟩ := by
  rw [Forest.attributes, Forest.attributes]
  dsimp only
  rw [h.get]
  refine List.filterMap_congr fun r hr => ?_
  rw [name?, h.label r (List.mem_append_left _ hr), name?]

theorem visibleEntries_eq : g.visibleEntries id = f.visibleEntries id := by
  rw [visibleEntries, visibleEntries, h.get]
  refine List.filter_congr fun e he => ?_
  have mem := List.fst_mem_of_mem_zipIdx he
  rw [isVisible, isVisible, kind, h.label e.1 (List.mem_append_right _ mem), kind]

theorem children_eq :
    g.children ⟨.silhouette id, graft⟩ = f.children ⟨.silhouette id, graft⟩ := by
  show (g.visibleEntries id).map _ = (f.visibleEntries id).map _
  rw [h.visibleEntries_eq]

theorem entries_eq : g.entries ⟨.silhouette id, graft⟩ = f.entries ⟨.silhouette id, graft⟩ := by
  rw [entries, h.attributes_eq, h.children_eq, entries]

end Alike

/-! ## What can be built -/

/-- Attributes are shown. -/
theorem visible_attributes {id : SilhouetteId}
    (isAttribute : ∀ r ∈ (f.arena.get id).attributes, f.kind r = .attribute) :
    (f.arena.get id).attributes.filter f.isVisible = (f.arena.get id).attributes :=
  List.filter_eq_self.2 fun r hr => by
    rw [isVisible, isAttribute r hr]
    rfl

/-- Among what is shown are no document types to skip. -/
theorem taken_children (wf : f.document.WellFormed) (id : SilhouetteId) (skipTypes : Bool) :
    Tree.taken skipTypes (((f.arena.get id).children.filter f.isVisible).map f.tree) =
      ((f.arena.get id).children.filter f.isVisible).map f.tree := by
  refine Tree.taken_eq_self (List.forall_mem_map.2 fun r hr => ?_) _
  rw [Tree.kind, label_tree wf]
  exact of_decide_eq_true (List.mem_filter.1 hr).2

namespace Buildable

theorem label_eq (h : f.Buildable r) (grows : f.Grows g) : g.label r = f.label r := by
  cases h with
  | real id has => exact grows.document.label_eq has
  | silhouette id has => rw [label, label, grows.arena.get_eq id has]

/-- What navigation hides has the same label too. -/
theorem label_eq_of_visible (h : f.isVisible r → f.Buildable r) (grows : f.Grows g) :
    g.label r = f.label r := by
  by_cases visible : f.isVisible r
  · exact (h visible).label_eq grows
  · obtain ⟨id, rfl, has⟩ := has_of_hidden visible
    exact grows.document.label_eq has

theorem isVisible_eq (h : f.isVisible r → f.Buildable r) (grows : f.Grows g) :
    g.isVisible r = f.isVisible r := by
  rw [isVisible, isVisible, kind, label_eq_of_visible h grows, kind]

/-- Growth changes nothing in a tree that can be built. -/
theorem tree_eq (h : f.Buildable r) (grows : f.Grows g) : g.tree r = f.tree r := by
  induction h with
  | real id has => rw [tree_real, tree_real, grows.document.tree_eq has]
  | silhouette id has _ _ attributes _ children sameAttributes sameChildren =>
    have same {l : List NodeRef} (buildable : ∀ r ∈ l, f.isVisible r → f.Buildable r)
        (trees : ∀ r ∈ l, f.isVisible r → g.tree r = f.tree r) :
        (l.filter g.isVisible).map g.tree = (l.filter f.isVisible).map f.tree := by
      rw [List.filter_congr fun r hr => isVisible_eq (buildable r hr) grows]
      exact List.map_congr_left fun r hr =>
        trees r (List.mem_of_mem_filter hr) (List.of_mem_filter hr)
    rw [tree_silhouette, tree_silhouette, grows.arena.get_eq id has, same children sameChildren,
      same (fun r hr _ => attributes r hr) fun r hr _ => sameAttributes r hr]

/-- What can be built can be copied. -/
theorem copyable (wf : f.document.WellFormed) (h : f.Buildable r) : (f.tree r).Copyable := by
  induction h with
  | real id has copies =>
    obtain ⟨n, d, run⟩ := copies
    rw [tree_real]
    exact Tree.copyableIfBuilt _ f.document n d wf run
  | silhouette id has isAttribute apart attributes isChild children copyAttributes copyChildren =>
    rw [tree_silhouette, visible_attributes isAttribute]
    refine .node (kind_silhouette_ne (f := f) id) (fun some => ?_) (fun some => ?_)
      (List.forall_mem_map.2 fun r hr => ?_) ?_ ?_
    · refine Silhouette.kind_of_attributes fun none => some ?_
      rw [none]
      rfl
    · refine Silhouette.isParent_of_children fun none => some ?_
      rw [none]
      rfl
    · rw [Tree.kind, label_tree wf]
      exact isAttribute r hr
    · rw [taken_children wf]
      refine List.forall_mem_map.2 fun r hr => ?_
      rw [Tree.kind, label_tree wf]
      exact isChild r (List.mem_of_mem_filter hr)
    · rw [taken_children wf]
      refine List.forall_mem_append.2 ⟨List.forall_mem_map.2 copyAttributes, List.forall_mem_map.2
        fun r hr => ?_⟩
      obtain ⟨mem, visible⟩ := List.mem_filter.1 hr
      exact copyChildren r mem visible

/-- On the settled document stands the copy of the tree, documents of the host apart. -/
theorem tree_settled (wf : f.document.WellFormed) (h : f.Buildable r)
    (virtual : ∀ id, r = .real id → f.kind r ≠ .document) : f.settled.tree r = (f.tree r).copied := by
  induction h with
  | real id has copies =>
    rw [tree_real, tree_real]
    exact Document.tree_settled wf (virtual id rfl)
  | silhouette id has isAttribute apart attributes isChild children ofAttributes ofChildren =>
    have copies : (((f.arena.get id).attributes.map f.tree).map Tree.copied).Pairwise Tree.Apart := by
      refine List.pairwise_map.2 (List.pairwise_map.2 (apart.imp fun {r r'} apart => ?_))
      rwa [Tree.Apart, Tree.label_copied, Tree.label_copied, label_tree wf, label_tree wf]
    have isAttribute' : ∀ r ∈ (f.arena.get id).attributes, f.settled.kind r = .attribute := fun r hr =>
      (congrArg Label.kind (label_settled r)).trans (isAttribute r hr)
    have children' : (f.arena.get id).children.filter f.settled.isVisible =
        (f.arena.get id).children.filter f.isVisible :=
      List.filter_congr fun r _ => by rw [isVisible, isVisible, kind, label_settled, kind]
    rw [tree_silhouette, tree_silhouette, visible_attributes isAttribute, Tree.copied_node,
      taken_children wf, List.pwFilter_eq_self.2 copies, List.map_map, List.map_map]
    show Tree.node _ (((f.arena.get id).attributes.filter f.settled.isVisible).map _)
      (((f.arena.get id).children.filter f.settled.isVisible).map _) = _
    rw [show (f.arena.get id).attributes.filter f.settled.isVisible = _ from
      visible_attributes isAttribute', children']
    congr 1
    · refine List.map_congr_left fun r hr => ofAttributes r hr fun _ _ => ?_
      rw [isAttribute r hr]
      decide
    · refine List.map_congr_left fun r hr => ?_
      obtain ⟨mem, visible⟩ := List.mem_filter.1 hr
      exact ofChildren r mem visible fun _ _ => (isChild r mem).2

/-- What can be built, documents of the host apart, can be built as it is. -/
theorem faithful (wf : f.document.WellFormed) (distinct : f.document.DistinctAttributes)
    (h : f.Buildable r) (virtual : ∀ id, r = .real id → f.kind r ≠ .document) :
    (f.tree r).Faithful := by
  have settled : f.settled = f := by rw [Forest.settled, settled_eq_self wf distinct]
  have tree := h.tree_settled wf virtual
  rw [settled] at tree
  rw [tree]
  exact (h.copyable wf).faithful

variable {id : SilhouetteId} {graft : List GraftPoint}

/-- Growth leaves a silhouette that can be built alone. -/
theorem alike (h : f.Buildable (.silhouette id)) (grows : f.Grows g) : f.Alike g id := by
  cases h with
  | silhouette _ has _ _ attributes _ children =>
    exact ⟨grows.arena.get_eq id has, List.forall_mem_append.2
      ⟨fun r hr => (attributes r hr).label_eq grows, fun r hr =>
        label_eq_of_visible (children r hr) grows⟩⟩

/-- Growth changes no step from a silhouette that can be built. -/
theorem attributes_eq (h : f.Buildable (.silhouette id)) (grows : f.Grows g) :
    g.attributes ⟨.silhouette id, graft⟩ = f.attributes ⟨.silhouette id, graft⟩ :=
  (h.alike grows).attributes_eq

theorem children_eq (h : f.Buildable (.silhouette id)) (grows : f.Grows g) :
    g.children ⟨.silhouette id, graft⟩ = f.children ⟨.silhouette id, graft⟩ :=
  (h.alike grows).children_eq

theorem of_mem_entries (h : f.Buildable (.silhouette id)) {p : Pointer}
    (mem : p ∈ f.entries ⟨.silhouette id, graft⟩) : f.Buildable p.node := by
  cases h with
  | silhouette _ _ _ _ attributes _ children =>
    rcases List.mem_append.1 mem with mem | mem
    · obtain ⟨r, hr, -, -, rfl⟩ := mem_attributes_silhouette.1 mem
      exact attributes r hr
    · obtain ⟨r, i, ⟨found, visible⟩, rfl⟩ := mem_children_silhouette.1 mem
      exact children r (List.mem_of_getElem? found) visible

end Buildable

end Forest

end VirtualTree
