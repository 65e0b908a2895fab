import VirtualTree.Proofs.Forest.Axes
import VirtualTree.Proofs.Materialization.Copied
import VirtualTree.Proofs.Materialization.Order

/-!
# Regular forests

In a `Regular` forest no element, real or virtual, has two attributes of one expanded name, and the
real nodes in silhouettes are nodes of the document.  So what is copied with success is copied as
navigation shows it (`Regular.distinctNames`), and while the document grows, no virtual tree changes
(`Regular.tree_virtual`), nor do the steps in it (`Regular.agrees`).
-/

namespace VirtualTree

open Document

/-- If the reference is to a real node, that is a node of the document. -/
def NodeRef.Resolves (d : Document) : NodeRef → Prop
  | .real n => d.Has n
  | .silhouette _ => True

instance (d : Document) : (r : NodeRef) → Decidable (r.Resolves d)
  | .real n => inferInstanceAs (Decidable (d.Has n))
  | .silhouette _ => .isTrue trivial

namespace Forest

/-- No element has two attributes of one expanded name, and the real nodes in silhouettes exist. -/
structure Regular (f : Forest) : Prop where
  document : f.document.WellFormed
  distinct : f.document.DistinctAttributes
  names : ∀ id, (f.arena.get id).attributes.Pairwise fun r r' =>
    ∀ n ∈ f.name? r, ∀ m ∈ f.name? r', ¬ n.SameExpanded m
  closed : ∀ id, ∀ r ∈ (f.arena.get id).references, r.Resolves f.document

variable {f : Forest} {r : NodeRef} {p : Pointer}

/-- What a regular forest asks of its silhouettes can be tested. -/
theorem Regular.of_silhouettes (document : f.document.WellFormed)
    (distinct : f.document.DistinctAttributes)
    (h : ∀ s ∈ f.arena.silhouettes, (s.attributes.Pairwise fun r r' =>
      ∀ n ∈ f.name? r, ∀ m ∈ f.name? r', ¬ n.SameExpanded m) ∧
        ∀ r ∈ s.references, r.Resolves f.document) : f.Regular := by
  have fits (id : SilhouetteId) := f.arena.get_of_silhouettes id h ⟨.nil, List.forall_mem_nil _⟩
  exact ⟨document, distinct, fun id => (fits id).1, fun id => (fits id).2⟩

/-! ## Steps -/

/-- A virtual node that is reached stands below a silhouette in no slot. -/
theorem Reached.exists_below (h : f.Reached p) (virtual : ∃ id, p.node = .silhouette id) :
    ∃ top, f.Below top p := by
  induction h with
  | silhouette id => exact ⟨id, f.below_top id⟩
  | real id =>
    obtain ⟨_, eq⟩ := virtual
    cases eq
  | entry _ mem ih =>
    obtain ⟨id, eq⟩ := virtual
    obtain ⟨above, graft, rfl, -⟩ := exists_above mem eq
    obtain ⟨top, below⟩ := ih ⟨above, rfl⟩
    exact ⟨top, below.entry mem ⟨id, eq⟩⟩

/-- The way up from a virtual node leads to the silhouette that the steps to it started from. -/
theorem Below.exists_descent (nav : f.Navigable) {top : SilhouetteId} (h : f.Below top p) :
    ∃ slots, f.descent p.graft.length p = .ok (top, slots) := by
  obtain ⟨steps, id, virtual⟩ := h
  induction steps generalizing id with
  | refl => exact ⟨[], rfl⟩
  | @tail q p _ mem ih =>
    obtain ⟨above, graft, rfl, slot, place⟩ := exists_above mem virtual
    obtain ⟨slots, descent⟩ := ih above rfl
    have parent := parent?_of_mem_silhouette (nav.names above) mem
    obtain ⟨node, graft'⟩ := p
    obtain rfl : graft' = ⟨above, slot⟩ :: graft := place
    refine ⟨slots ++ [f.builtSlot ⟨above, slot⟩], ?_⟩
    rw [List.length_cons, Forest.descent, parent]
    show (f.descent graft.length _ >>= _) = _
    rw [descent]
    rfl

namespace Regular

variable (h : f.Regular)

include h

theorem distinctNames : f.DistinctNames where
  document := h.document
  distinct := h.distinct
  names id := (h.names id).filter _

theorem navigable : f.Navigable where
  document := h.document
  names id := nodup_names_of_apart (h.names id)

/-- What is reached exists, if a node of the document that is named by itself does. -/
theorem resolves (reached : f.Reached p) (named : ∀ id, p.plainNode? = some id → f.document.Has id) :
    p.node.Resolves f.document := by
  cases reached with
  | silhouette id => trivial
  | real id => exact named id rfl
  | @entry q _ _ mem =>
    obtain ⟨node, graft⟩ := q
    cases node with
    | real id =>
      obtain ⟨c, ⟨parent, -⟩, rfl⟩ := (mem_entries_real h.document).1 mem
      exact has_of_parent parent
    | silhouette id =>
      refine h.closed id p.node ?_
      rcases List.mem_append.1 mem with attr | child
      · obtain ⟨r, hr, -, -, rfl⟩ := mem_attributes_silhouette.1 attr
        exact List.mem_append_left _ hr
      · obtain ⟨r, i, ⟨hr, -⟩, rfl⟩ := mem_children_silhouette.1 child
        exact List.mem_append_right _ (List.mem_of_getElem? hr)

section Growth

variable {d : Document} (grown : f.document.Extends d)

include grown

theorem alike (id : SilhouetteId) : f.Alike ⟨d, f.arena⟩ id := by
  refine ⟨rfl, fun r hr => ?_⟩
  cases r with
  | real n => exact grown.label_eq (h.closed id _ hr)
  | silhouette s => rfl

theorem agrees (top : SilhouetteId) : f.Agrees ⟨d, f.arena⟩ top := fun id _ _ => h.alike grown id

theorem navigable_of_grown : (⟨d, f.arena⟩ : Forest).Navigable where
  document := grown.wellFormed
  names id := (h.alike grown id).names_eq ▸ h.navigable.names id

/-- While the document grows, the trees of nodes that exist stay the same. -/
theorem tree_eq (resolves : r.Resolves f.document) :
    (⟨d, f.arena⟩ : Forest).tree r = f.tree r := by
  induction r using Arena.induction_on_references (a := f.arena) with
  | real n =>
    rw [tree_real, tree_real]
    exact grown.tree_eq resolves
  | silhouette id ih =>
    have alike := h.alike grown id
    have same {l : List NodeRef} (sub : l ⊆ (f.arena.get id).references) :
        (l.filter (⟨d, f.arena⟩ : Forest).isVisible).map (⟨d, f.arena⟩ : Forest).tree =
          (l.filter f.isVisible).map f.tree := by
      rw [List.filter_congr fun r hr => show _ = f.isVisible r by
        rw [isVisible, kind, alike.label r (sub hr), isVisible, kind]]
      refine List.map_congr_left fun r hr => ?_
      have mem := sub (List.mem_of_mem_filter hr)
      exact ih r mem (h.closed id r mem)
    rw [tree_silhouette, tree_silhouette, same (List.subset_append_right _ _)]
    exact congrArg (Tree.node _ · _) (same (List.subset_append_left _ _))

theorem tree_virtual (id : SilhouetteId) :
    (⟨d, f.arena⟩ : Forest).tree (.silhouette id) = f.tree (.silhouette id) :=
  h.tree_eq grown trivial

end Growth

end Regular

end Forest

end VirtualTree
