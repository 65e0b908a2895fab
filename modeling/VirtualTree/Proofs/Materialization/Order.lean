import VirtualTree.Proofs.Materialization.Navigation
import VirtualTree.Proofs.Order.Image
import VirtualTree.Proofs.Tree.Plant

/-!
# Materialization and document order

The nodes for virtual nodes stand in the order of the virtual nodes (`materialize_preserves_order`).  The
virtual nodes of a tree have two images: themselves, after the tree is built, as the forest agrees with the
earlier one below the top of the tree (`Agrees.image`); and the nodes that are found for them
(`image_of_located`).  The host may have elements with two attributes of one expanded name.  A copy loses
one of them, so the built tree is not the one that navigation shows, but that on the settled host, where
the virtual nodes are the same.
-/

namespace VirtualTree

open Document

namespace Forest

variable {f g : Forest} {top id : SilhouetteId} {graft : List GraftPoint} {q p : Pointer}

/-! ## Trees that are the same in two forests -/

namespace Alike

variable (h : f.Alike g id)

include h

theorem names_eq : (g.arena.get id).attributes.filterMap g.name? =
    (f.arena.get id).attributes.filterMap f.name? := by
  rw [h.get]
  refine List.filterMap_congr fun r hr => ?_
  rw [name?, h.label r (List.mem_append_left _ hr), name?]

theorem builtSlot_eq (slot : Slot) : g.builtSlot ⟨id, slot⟩ = f.builtSlot ⟨id, slot⟩ := by
  cases slot with
  | «attribute» name => rfl
  | child index =>
    have shown : ((f.arena.get id).children.take index).filter g.isVisible =
        ((f.arena.get id).children.take index).filter f.isVisible :=
      List.filter_congr fun r hr => by
        rw [isVisible, isVisible, kind, h.label r (List.mem_append_right _ (List.mem_of_mem_take hr)), kind]
    show Slot.child (((g.arena.get id).children.take index).filter g.isVisible).length = _
    rw [h.get, shown]
    rfl

end Alike

/-- The silhouettes below a top are the same in both forests. -/
def Agrees (f g : Forest) (top : SilhouetteId) : Prop :=
  ∀ id graft, f.Below top ⟨.silhouette id, graft⟩ → f.Alike g id

theorem agrees_settled (f : Forest) (top : SilhouetteId) : f.Agrees f.settled top := fun id _ _ =>
  f.alike_settled id

theorem nodup_names_of_apart {l : List NodeRef} (h : l.Pairwise fun r r' =>
    ∀ n ∈ f.name? r, ∀ m ∈ f.name? r', ¬ n.SameExpanded m) : (l.filterMap f.name?).Nodup := by
  refine List.pairwise_filterMap.2 (h.imp fun apart n hn m hm eq => apart n hn m hm ?_)
  rw [eq]
  exact ⟨rfl, rfl⟩

namespace Buildable

theorem nodup_names (h : f.Buildable (.silhouette id)) :
    ((f.arena.get id).attributes.filterMap f.name?).Nodup := by
  cases h with
  | silhouette _ _ _ distinct => exact nodup_names_of_apart distinct

theorem kind_of_mem_entries (h : f.Buildable (.silhouette id))
    (mem : p ∈ f.entries ⟨.silhouette id, graft⟩) : f.kind p.node ≠ .document := by
  cases h with
  | silhouette _ _ isAttribute _ _ isChild =>
    rcases List.mem_append.1 mem with mem | mem
    · obtain ⟨r, hr, -, -, rfl⟩ := mem_attributes_silhouette.1 mem
      rw [isAttribute r hr]
      decide
    · obtain ⟨r, i, ⟨found, -⟩, rfl⟩ := mem_children_silhouette.1 mem
      exact (isChild r (List.mem_of_getElem? found)).2

/-- All virtual nodes of a tree that can be built can be built. -/
theorem of_below (wf : f.document.WellFormed) (h : f.Buildable (.silhouette top)) (hp : f.Below top p) :
    f.Buildable p.node := by
  obtain ⟨steps, id, virtual⟩ := hp
  exact h.of_stepsTo (.refl wf) steps virtual

theorem agrees (wf : f.document.WellFormed) (h : f.Buildable (.silhouette top)) (grows : f.Grows g) :
    f.Agrees g top := fun _ _ hp => (h.of_below wf hp).alike grows

end Buildable

namespace Agrees

variable (agrees : f.Agrees g top)

include agrees

theorem label_eq (hp : f.Below top p) : g.label p.node = f.label p.node := by
  obtain ⟨node, graft⟩ := p
  obtain ⟨id, rfl⟩ : ∃ id, node = .silhouette id := hp.virtual
  rw [label, label, (agrees id graft hp).get]

theorem entries_eq (hq : f.Below top q) : g.entries q = f.entries q := by
  obtain ⟨node, graft⟩ := q
  obtain ⟨id, rfl⟩ : ∃ id, node = .silhouette id := hq.virtual
  exact (agrees id graft hq).entries_eq

theorem below (hp : f.Below top p) : g.Below top p := by
  refine ⟨?_, hp.virtual⟩
  obtain ⟨steps, id, virtual⟩ := hp
  induction steps generalizing id with
  | refl => exact .refl
  | tail steps mem ih =>
    obtain ⟨above, graft, rfl, -⟩ := exists_above mem virtual
    refine .tail (ih above rfl) ?_
    rwa [agrees.entries_eq ⟨steps, above, rfl⟩]

variable (wf : f.document.WellFormed) (buildable : f.Buildable (.silhouette top))

include wf buildable

/-- The step up leads to the same node in both forests. -/
theorem parent?_eq (hq : f.Below top q) (mem : p ∈ f.entries q) : g.parent? p = .ok (some q) := by
  obtain ⟨node, graft⟩ := q
  obtain ⟨id, rfl⟩ : ∃ id, node = .silhouette id := hq.virtual
  have alike := agrees id graft hq
  refine parent?_of_mem_silhouette ?_ (alike.entries_eq ▸ mem)
  rw [alike.names_eq]
  exact (buildable.of_below wf hq).nodup_names

/-- The same slots lead down to a node in both forests. -/
theorem descent_eq (hp : f.Below top p) :
    g.descent p.graft.length p = f.descent p.graft.length p := by
  obtain ⟨steps, id, virtual⟩ := hp
  induction steps generalizing id with
  | refl => rfl
  | @tail q p steps mem ih =>
    obtain ⟨above, graft, rfl, slot, place⟩ := exists_above mem virtual
    have hq : f.Below top ⟨.silhouette above, graft⟩ := ⟨steps, above, rfl⟩
    have same : f.Agrees f top := buildable.agrees wf (.refl wf)
    have parent := same.parent?_eq wf buildable hq mem
    have parent' := agrees.parent?_eq wf buildable hq mem
    obtain ⟨node, graft'⟩ := p
    obtain rfl : graft' = ⟨above, slot⟩ :: graft := place
    rw [List.length_cons, descent, descent, parent, parent']
    show (g.descent graft.length _ >>= _) = (f.descent graft.length _ >>= _)
    rw [show g.descent graft.length _ = f.descent graft.length _ from ih above rfl,
      (agrees above graft hq).builtSlot_eq]

/-- Below the top the other forest shows the virtual nodes themselves. -/
theorem image (wf' : g.document.WellFormed) : f.Image top g fun p => p where
  document := wf'
  inj _ _ _ _ eq := eq
  label _ hp := agrees.label_eq hp
  root := rfl
  kind q p hq mem _ := by
    obtain ⟨node, graft⟩ := q
    obtain ⟨id, rfl⟩ : ∃ id, node = .silhouette id := hq.virtual
    exact (buildable.of_below wf hq).kind_of_mem_entries mem
  parent q p hq mem _ := agrees.parent?_eq wf buildable hq mem
  entry q p hq mem _ := by
    rw [agrees.entries_eq hq]
    exact ⟨mem, rfl⟩

end Agrees

/-! ## The built nodes -/

theorem entries_real (wf : f.document.WellFormed) {id : NodeId} (h : (f.document.tree id).Faithful)
    (graft : List GraftPoint) :
    f.entries ⟨.real id, graft⟩ = (f.document.links id).map fun n => ⟨.real n, graft⟩ := by
  rw [entries, attributes_real wf, children_real wf h, links, List.map_append]

/-- An entry has the same position below the built node. -/
theorem Joined.links {d : Document} {m n : NodeId} (h : f.Joined d q m p n)
    (attributes : (d.attributes m).length = (f.attributes q).length) {i : ℕ}
    (hi : (f.entries q)[i]? = some p) : (d.links m)[i]? = some n := by
  rw [entries, List.getElem?_append] at hi
  rw [Document.links, List.getElem?_append, attributes]
  split_ifs at hi ⊢
  · exact h.attributes i hi
  · exact h.children _ hi

/-- What is found in the built tree is an image. -/
theorem image_of_located {d : Document} {t : NodeId} (wf : f.document.WellFormed)
    (buildable : f.Buildable (.silhouette top)) (wf' : d.WellFormed) (isTop : d.parent? t = none)
    (root : f.settled.Located d top t (.silhouette top) t) {node : Pointer → NodeId}
    (found : ∀ p, f.Below top p → f.settled.Located d top t p (node p)) (arena : Arena) :
    f.Image top ⟨d, arena⟩ fun p => .real (node p) := by
  have agrees := f.agrees_settled top
  have same : f.Image top f fun p => p :=
    (buildable.agrees wf (.refl wf)).image wf buildable wf
  have joined {q p : Pointer} (hq : f.Below top q) (mem : p ∈ f.entries q) (hp : f.Below top p) :
      f.settled.Joined d q (node q) p (node p) := by
    obtain ⟨id, virtual⟩ := hp.virtual
    have mem' : p ∈ f.settled.entries q := by rwa [agrees.entries_eq hq]
    obtain ⟨m, located, joined⟩ :=
      Located.joined wf.settled wf' root (agrees.below hq).steps mem' virtual (found p hp)
    exact located.unique (found q hq) ▸ joined
  refine ⟨wf', fun p q hp hq eq => ?_, fun p hp => ?_, ?_, same.kind, fun q p hq mem hp => ?_,
    fun q p hq mem hp => ?_⟩
  · obtain ⟨id, virtual⟩ := hp.virtual
    obtain ⟨id', virtual'⟩ := hq.virtual
    have there : node p = node q := NodeRef.real.inj (congrArg Pointer.node eq)
    exact Located.inj wf.settled wf' isTop isTop (fun _ => rfl) root root (agrees.below hp).steps
      (agrees.below hq).steps virtual virtual' (found p hp) (there ▸ found q hq)
  · show d.label (node p) = _
    rw [Tree.label_of_tree wf' (found p hp).tree, label_tree wf.settled, label_settled]
  · show Except.ok ((d.parent? _).map Pointer.real) = _
    rw [(found _ (f.below_top top)).unique root, isTop]
    rfl
  · show Except.ok ((d.parent? _).map Pointer.real) = _
    rw [(joined hq mem hp).parent]
    rfl
  · have located := found q hq
    obtain ⟨node', graft⟩ := q
    obtain ⟨id, rfl⟩ : ∃ id, node' = .silhouette id := hq.virtual
    have mem' := mem
    rw [← agrees.entries_eq hq] at mem' ⊢
    have lengths := congrArg List.length
      (attributeTrees_eq wf' located.faithful located.tree graft wf.settled)
    rw [attributeTrees, List.length_map, List.length_map] at lengths
    have place := (joined hq mem hp).links lengths (List.getElem?_idxOf mem')
    have entries : (⟨d, arena⟩ : Forest).entries (.real (node ⟨.silhouette id, graft⟩)) = _ :=
      entries_real wf' (located.tree ▸ located.faithful) []
    have listed : ((⟨d, arena⟩ : Forest).entries (.real (node ⟨.silhouette id, graft⟩)))[
        (f.settled.entries ⟨.silhouette id, graft⟩).idxOf p]? = some (.real (node p)) := by
      rw [entries, List.getElem?_map, place]
      rfl
    have nodup : ((⟨d, arena⟩ : Forest).entries (.real (node ⟨.silhouette id, graft⟩))).Nodup := by
      rw [entries]
      exact (wf'.nodup_links _).map fun a b eq => NodeRef.real.inj (congrArg Pointer.node eq)
    obtain ⟨bound, there⟩ := List.getElem?_eq_some_iff.1 listed
    refine ⟨List.mem_of_getElem? listed, ?_⟩
    have position := nodup.idxOf_getElem _ bound
    rwa [there] at position

end Forest

namespace Evaluate

open Forest

variable {e : Evaluation} {top : SilhouetteId}

/-- A tree that can be built and was not built yet is built on the settled document as it is. -/
theorem exists_builtTop (wf : e.document.WellFormed) (buildable : e.Buildable (.silhouette top))
    (new : e.memo.built? top = none) : ∃ t d,
      Construct.builtTop e.arena top ⟨e.document, e.memo, []⟩ = .ok t ⟨d, e.memo.insert top t, []⟩ ∧
      e.document.Extends d ∧ d.parent? t = none ∧
      e.settled.Located d top t (.silhouette top) t := by
  have copyable := buildable.copyable wf
  obtain ⟨t, d, run, tree⟩ := copyable.buildsCopy e.document wf
  rw [← buildable.tree_settled wf fun _ => nofun] at tree
  have faithful := copyable.faithful
  rw [← buildable.tree_settled wf fun _ => nofun] at faithful
  refine ⟨t, d, ?_, ((Tree.keeps_build _).ok wf.extends_self run).1, (Tree.top_of_build wf run).parent,
    .here faithful tree⟩
  have found : ((⟨e.document, e.arena⟩ : Forest).tree (.silhouette top)).build e.document = .ok t d := run
  rw [Construct.builtTop_of_new new, found]

/-- Materialization preserves document order.  Let a virtual tree that can be built, and was not built
yet, stand on a well-formed document.  Then any two virtual nodes of the tree are ordered before the tree
is built as they are afterwards, and as the nodes are that are given for them, by their places and as
members of a sequence.  No comparison looks at the order of unrelated trees or changes it. -/
theorem materialize_preserves_order (o : Options) (wf : e.document.WellFormed)
    (buildable : e.Buildable (.silhouette top)) (new : e.memo.built? top = none) :
    ∃ (built : Evaluation) (node : Pointer → NodeId),
      (∀ p, e.Below top p → materialize p o e = .ok (node p) built ∧
        materialize p o built = .ok (node p) built) ∧
      ∀ p q, e.Below top p → e.Below top q →
        (∃ order, ∀ t, e.comparePositions p q t = .ok order t ∧
          built.comparePositions p q t = .ok order t ∧
          built.comparePositions (.real (node p)) (.real (node q)) t = .ok order t) ∧
        ∃ order, ∀ t, e.compare p q t = .ok order t ∧ built.compare p q t = .ok order t ∧
          built.compare (.real (node p)) (.real (node q)) t = .ok order t := by
  obtain ⟨t, d, run, grown, isTop, root⟩ := exists_builtTop wf buildable new
  have wf' := grown.wellFormed
  have settled := e.agrees_settled top
  have place (p : Pointer) : ∃ n, e.Below top p → e.settled.Located d top t p n := by
    by_cases hp : e.Below top p
    · obtain ⟨id, virtual⟩ := hp.virtual
      obtain ⟨n, found⟩ := Located.exists_located wf.settled wf' root (settled.below hp).steps virtual
      exact ⟨n, fun _ => found⟩
    · exact ⟨t, fun h => absurd h hp⟩
  choose node found using place
  let built : Evaluation := { e with document := d, memo := e.memo.insert top t }
  have agrees : e.Agrees built.toForest top := buildable.agrees wf ⟨grown, .refl _⟩
  have before : e.Image top e.toForest fun p => p :=
    (buildable.agrees wf (.refl wf)).image wf buildable wf
  have after : e.Image top built.toForest fun p => p := agrees.image wf buildable wf'
  have nodes : e.Image top built.toForest fun p => .real (node p) :=
    image_of_located wf buildable wf' isTop root found e.arena
  refine ⟨built, node, fun p hp => ?_, fun p q hp hq => ⟨?_, ?_⟩⟩
  · obtain ⟨id, virtual⟩ := hp.virtual
    obtain ⟨⟨slots, descent, follow⟩, -⟩ := found p hp
    rw [settled.descent_eq wf buildable hp] at descent
    have descent' := (agrees.descent_eq wf buildable hp).trans descent
    have remembered : built.memo.built? top = some t := by
      rw [Memo.built?_insert, if_pos rfl]
    constructor
    · show construct (.materialize e.arena p) o e = _
      rw [construct, Construct.materialize_of_way virtual run descent follow]
    · show construct (.materialize e.arena p) o built = _
      rw [construct, Construct.materialize_of_way virtual (Construct.builtTop_of_built remembered) descent'
        follow]
  · obtain ⟨order, same⟩ := exists_comparePositions hp hq
    exact ⟨order, fun t => ⟨same _ _ t before, same _ _ t after, same _ _ t nodes⟩⟩
  · obtain ⟨order, same⟩ := exists_compare hp hq
    exact ⟨order, fun t => ⟨same _ _ t before, same _ _ t after, same _ _ t nodes⟩⟩

/-- Two attributes of a silhouette that stands beside a document type and a copied element with two
attributes of one name: by their places the first one comes first, and by their names the second one. -/
theorem order_of_attributes_beside_clash :
    let a : Tree := .node (.element (.unqualified "a"))
      [.leaf (.attribute (.unqualified "x") "1"), .leaf (.attribute (.unqualified "x") "2")] []
    let d := ((a.plant .empty).2.alloc (.documentType "a")).2
    let z := Arena.empty.alloc (.attribute (.unqualified "z") "3") (by decide)
    let y := z.2.alloc (.attribute (.unqualified "y") "4") (by decide)
    let b := y.2.alloc (.element (.unqualified "b") [.silhouette z.1, .silhouette y.1] [.real ⟨0⟩])
      (by decide)
    let s := b.2.alloc (.element (.unqualified "s") [] [.real ⟨3⟩, .real ⟨0⟩, .silhouette b.1])
      (by decide)
    let e : Evaluation := { Evaluation.start d with arena := s.2 }
    let p : Pointer := ⟨.silhouette z.1, [⟨b.1, .attribute (.unqualified "z")⟩, ⟨s.1, .child 2⟩]⟩
    let q : Pointer := ⟨.silhouette y.1, [⟨b.1, .attribute (.unqualified "y")⟩, ⟨s.1, .child 2⟩]⟩
    e.document.WellFormed ∧ ¬ e.document.DistinctAttributes ∧ e.Buildable (.silhouette s.1) ∧
      e.memo.built? s.1 = none ∧ ∃ n m built, materialize p {} e = .ok n built ∧
        materialize q {} built = .ok m built ∧
        built.comparePositions (.real n) (.real m) .empty = .ok .lt .empty ∧
        built.compare (.real n) (.real m) .empty = .ok .gt .empty := by
  intro a d z y b s e p q
  have plantable : a.Plantable :=
    .node (fun _ => rfl) nofun (List.forall_mem_cons.2 ⟨rfl, List.forall_mem_singleton.2 rfl⟩) nofun
      (List.forall_mem_cons.2 ⟨.leaf _, List.forall_mem_singleton.2 (.leaf _)⟩)
  have wf : e.document.WellFormed :=
    (Document.Extends.plant a plantable wellFormed_empty.extends_self).1.kept.wellFormed.alloc _
  have clash : ¬ e.document.DistinctAttributes := fun distinct =>
    absurd (distinct ⟨0⟩) (by decide +kernel)
  have leaf (id : SilhouetteId) (has : id.index < e.arena.size)
      (none : (e.arena.get id).attributes = [] ∧ (e.arena.get id).children = []) :
      e.Buildable (.silhouette id) := by
    refine .silhouette id has ?_ ?_ ?_ ?_ ?_ <;> simp [none.1, none.2]
  have copied : e.Buildable (.real ⟨0⟩) := .real _ (by decide +kernel) (exists_of_succeeds (by decide +kernel))
  have buildableB : e.Buildable (.silhouette b.1) := by
    refine .silhouette _ (by decide) (by decide +kernel) (by decide +kernel) ?_ (by decide +kernel) ?_
    · exact List.forall_mem_cons.2 ⟨leaf z.1 (by decide) ⟨rfl, rfl⟩,
        List.forall_mem_singleton.2 (leaf y.1 (by decide) ⟨rfl, rfl⟩)⟩
    · exact List.forall_mem_singleton.2 fun _ => copied
  have buildable : e.Buildable (.silhouette s.1) := by
    refine .silhouette _ (by decide) (by decide +kernel) (by decide +kernel) nofun (by decide +kernel) ?_
    exact List.forall_mem_cons.2 ⟨fun visible => absurd visible (by decide +kernel),
      List.forall_mem_cons.2 ⟨fun _ => copied, List.forall_mem_singleton.2 fun _ => buildableB⟩⟩
  have belowB : e.Below s.1 ⟨.silhouette b.1, [⟨s.1, .child 2⟩]⟩ :=
    (e.below_top s.1).entry (by decide +kernel) ⟨_, rfl⟩
  have belowP : e.Below s.1 p := belowB.entry (by decide +kernel) ⟨_, rfl⟩
  have belowQ : e.Below s.1 q := belowB.entry (by decide +kernel) ⟨_, rfl⟩
  obtain ⟨built, node, calls, same⟩ := materialize_preserves_order {} wf buildable rfl
  obtain ⟨⟨places, positions⟩, order, compared⟩ := same p q belowP belowQ
  obtain ⟨before, -, after⟩ := positions .empty
  obtain ⟨before', -, after'⟩ := compared .empty
  have first : answer? (e.comparePositions p q .empty) = some .lt := by decide +kernel
  have second : answer? (e.compare p q .empty) = some .gt := by decide +kernel
  rw [before] at first
  rw [before'] at second
  obtain rfl := Option.some.inj first
  obtain rfl := Option.some.inj second
  exact ⟨wf, clash, buildable, rfl, node p, node q, built, (calls p belowP).1, (calls q belowQ).2, after,
    after'⟩

end Evaluate

end VirtualTree
