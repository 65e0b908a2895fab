import VirtualTree.Proofs.Materialization.Located
import VirtualTree.Proofs.Materialization.Session

/-!
# Materialization and navigation

Materializing commutes with the steps of navigation: the node for a child, an attribute or the parent of
a virtual node is the child, the attribute or the parent of the node for it, and the tree below the node
is the tree that navigation shows (`materialize_commutes`).  A tree is built at the first call for a
node of it, and later calls find the nodes that were built.
-/

namespace VirtualTree

open Document

namespace Forest

variable {b f g : Forest} {d d' : Document} {top : SilhouetteId} {q p : Pointer}

/-- A virtual node stands below one other only, and the steps to it lead through that one. -/
theorem StepsTo.of_mem_entries (steps : f.StepsTo (.silhouette top) p) (mem : p ∈ f.entries q)
    {id : SilhouetteId} (virtual : p.node = .silhouette id) : f.StepsTo (.silhouette top) q := by
  obtain ⟨above, graft, rfl, slot, place⟩ := exists_above mem virtual
  cases steps with
  | refl => cases place
  | tail steps mem' =>
    obtain ⟨above', graft', rfl, slot', place'⟩ := exists_above mem' virtual
    obtain ⟨same, rfl⟩ := List.cons.inj (place.symm.trans place')
    obtain ⟨rfl, -⟩ := GraftPoint.mk.inj same
    exact steps

/-- Steps from a silhouette that could be built early on are the same later. -/
theorem Buildable.entries_eq {id : SilhouetteId} (h : b.Buildable (.silhouette id))
    (grows : b.Grows f) (grows' : b.Grows g) (graft : List GraftPoint) :
    f.attributes ⟨.silhouette id, graft⟩ = g.attributes ⟨.silhouette id, graft⟩ ∧
      f.children ⟨.silhouette id, graft⟩ = g.children ⟨.silhouette id, graft⟩ :=
  ⟨(h.attributes_eq grows).trans (h.attributes_eq grows').symm,
    (h.children_eq grows).trans (h.children_eq grows').symm⟩

theorem Buildable.of_stepsTo (h : b.Buildable (.silhouette top)) (grows : b.Grows f)
    (steps : f.StepsTo (.silhouette top) p) {id : SilhouetteId} (virtual : p.node = .silhouette id) :
    b.Buildable p.node := by
  induction steps generalizing id with
  | refl => exact h
  | @tail q p _ mem ih =>
    obtain ⟨above, graft, rfl, -⟩ := exists_above mem virtual
    have buildable := ih rfl
    have earlier : p ∈ b.entries ⟨.silhouette above, graft⟩ := by
      rwa [entries, ← buildable.attributes_eq grows, ← buildable.children_eq grows]
    exact buildable.of_mem_entries earlier

/-- Steps to virtual nodes of a tree that could be built early on are possible later. -/
theorem StepsTo.later (buildable : b.Buildable (.silhouette top)) (grows : b.Grows f)
    (grows' : b.Grows g) (steps : f.StepsTo (.silhouette top) p) {id : SilhouetteId}
    (virtual : p.node = .silhouette id) : g.StepsTo (.silhouette top) p := by
  induction steps generalizing id with
  | refl => exact .refl
  | @tail q p steps mem ih =>
    obtain ⟨above, graft, rfl, -⟩ := exists_above mem virtual
    refine .tail (ih rfl) ?_
    have same := buildable.of_stepsTo grows steps rfl
    obtain ⟨attributes, children⟩ := same.entries_eq grows grows' graft
    rwa [entries, ← attributes, ← children]

/-- An entry has the same node later, as long as it stands in the same place. -/
theorem Joined.later {m n n' : NodeId} (h : f.Joined d q m p n) (h' : g.Joined d' q m p n')
    (grown : d.Extends d') (mem : p ∈ f.entries q) (attributes : f.attributes q = g.attributes q)
    (children : f.children q = g.children q) : n' = n := by
  have has := grown.origin.has_parent n m h.parent
  rcases List.mem_append.1 mem with mem | mem
  · obtain ⟨i, hi⟩ := List.getElem?_of_mem mem
    have late := h'.attributes i (attributes ▸ hi)
    rw [grown.attributes_eq has, h.attributes i hi] at late
    exact (Option.some.inj late).symm
  · obtain ⟨i, hi⟩ := List.getElem?_of_mem mem
    have late := h'.children i (children ▸ hi)
    rw [grown.children_eq has, h.children i hi] at late
    exact (Option.some.inj late).symm

/-- What was found in a built tree is found there later. -/
theorem Located.later (buildable : b.Buildable (.silhouette top)) (grows : b.Grows f)
    (grows' : b.Grows g) (grown : d.Extends d') {t n : NodeId} (h : f.Located d top t p n)
    (root : f.Located d top t (.silhouette top) t) (root' : g.Located d' top t (.silhouette top) t)
    (steps : f.StepsTo (.silhouette top) p) {id : SilhouetteId}
    (virtual : p.node = .silhouette id) : g.Located d' top t p n := by
  induction steps generalizing n id with
  | refl =>
    obtain rfl := h.unique root
    exact root'
  | @tail q p steps mem ih =>
    obtain ⟨m, located, joined⟩ := Located.joined grows.document.wellFormed grown.origin root steps
      mem virtual h
    obtain ⟨above, graft, rfl, -⟩ := exists_above mem virtual
    have located' := ih located rfl
    have same := buildable.of_stepsTo grows steps rfl
    obtain ⟨attributes, children⟩ := same.entries_eq grows grows' graft
    have mem' : p ∈ g.entries ⟨.silhouette above, graft⟩ := by
      rwa [entries, ← attributes, ← children]
    obtain ⟨n', found, joined'⟩ := located'.step grows'.document.wellFormed grown.wellFormed mem'
    obtain rfl := joined.later joined' grown mem attributes children
    exact found

/-- A virtual node is an entry of its parent and of no other node. -/
theorem Located.parent?_iff (wf : f.document.WellFormed) (wf' : d.WellFormed) {t : NodeId}
    (root : f.Located d top t (.silhouette top) t) (steps : f.StepsTo (.silhouette top) p)
    {id : SilhouetteId} (virtual : p.node = .silhouette id) :
    f.parent? p = .ok (some q) ↔ p ∈ f.entries q := by
  have parent {q : Pointer} (mem : p ∈ f.entries q) : f.parent? p = .ok (some q) := by
    obtain ⟨above, graft, rfl, -⟩ := exists_above mem virtual
    obtain ⟨m, located⟩ := exists_located wf wf' root (steps.of_mem_entries mem virtual) rfl
    exact parent?_of_mem_silhouette (nodup_names wf located.faithful) mem
  refine ⟨fun up => ?_, parent⟩
  cases steps with
  | refl => cases up
  | tail _ mem =>
    obtain rfl := Option.some.inj (Except.ok.inj ((parent mem).symm.trans up))
    exact mem

end Forest

namespace Construct

/-- The node for a virtual node stands where the slots that lead to it from the top lead to from the
built top. -/
theorem materialize_of_way {arena : Arena} {s s' : Construction} {top : SilhouetteId} {t n : NodeId}
    {p : Pointer} {id : SilhouetteId} (virtual : p.node = .silhouette id)
    (run : builtTop arena top s = .ok t s') {slots : List Slot}
    (descent : (⟨s.document, arena⟩ : Forest).descent p.graft.length p = .ok (top, slots))
    (follow : s'.document.follow t slots = .ok n) : materialize arena p s = .ok n s' := by
  obtain ⟨node, graft⟩ := p
  obtain rfl : node = .silhouette id := virtual
  show (ofExcept ((⟨s.document, arena⟩ : Forest).descent graft.length ⟨.silhouette id, graft⟩) >>=
    fun way => builtTop arena way.1 >>= fun node => get >>= fun s =>
      ofExcept (s.document.follow node way.2)) s = _
  rw [descent]
  refine (bind_of_ok (a := (top, slots)) rfl).trans ((bind_of_ok run).trans ?_)
  show ofExcept (s'.document.follow t slots) s' = _
  rw [follow]
  rfl

theorem materialize_of_located {arena : Arena} {s s' : Construction} {top : SilhouetteId} {t n : NodeId}
    {p : Pointer} {id : SilhouetteId} (virtual : p.node = .silhouette id)
    (run : builtTop arena top s = .ok t s')
    (h : (⟨s.document, arena⟩ : Forest).Located s'.document top t p n) :
    materialize arena p s = .ok n s' := by
  obtain ⟨⟨slots, descent, follow⟩, -⟩ := h
  exact materialize_of_way virtual run descent follow

end Construct

namespace Evaluation

variable {base e : Evaluation} {top : SilhouetteId}

/-- The top of a tree that was ready is built, if it was not before. -/
theorem Since.exists_built (since : base.Since e) (ready : base.Ready top) :
    ∃ t s, Construct.builtTop e.arena top ⟨e.document, e.memo, []⟩ = .ok t s ∧
      s.memo.built? top = some t ∧
      (e.memo.built? top = none → s.memo = e.memo.insert top t) ∧
      (e.memo.built? top ≠ none → s = ⟨e.document, e.memo, []⟩) := by
  cases built : e.memo.built? top with
  | some t =>
    refine ⟨t, _, Construct.builtTop_of_built built, built, fun new => ?_, fun _ => rfl⟩
    cases new
  | none =>
    obtain ⟨t, d, run, -⟩ := Construct.build_ready since.arena since.construction ready
    have built' : Construct.builtTop e.arena top ⟨e.document, e.memo, []⟩ =
        .ok t ⟨d, e.memo.insert top t, []⟩ := by
      rw [Construct.builtTop_of_new built, run]
    refine ⟨t, _, built', ?_, fun _ => rfl, fun h => absurd rfl h⟩
    rw [Memo.built?_insert, if_pos rfl]

/-- The evaluation has the tree of a top that was ready, built from the node `t`. -/
structure Holds (base e : Evaluation) (top : SilhouetteId) (t : NodeId) : Prop where
  since : base.Since e
  ready : base.Ready top
  built : e.memo.built? top = some t

namespace Holds

variable {e' built built' : Evaluation} {t n : NodeId} {p : Pointer} {id : SilhouetteId}

theorem isTop (h : base.Holds built top t) : built.document.Top t :=
  (h.since.construction.built top t h.ready h.built).1

/-- The built top has the tree of the virtual top, at any time. -/
theorem root (h : base.Holds built top t) (since : base.Since e) :
    e.toForest.Located built.document top t (.silhouette top) t := by
  have same := h.ready.buildable.tree_eq since.grows
  have tree := (h.since.construction.built top t h.ready h.built).2
  exact .here (same ▸ h.ready.faithful) (tree.trans same.symm)

theorem run (h : base.Holds built top t) (run : built.Run built') : base.Holds built' top t where
  since := h.since.run run
  ready := h.ready
  built := (since_of_run h.since.construction.document.wellFormed run).construction.kept top t h.built

/-- The node that was found for a virtual node of a built tree is found for it at any later time. -/
theorem later (h : base.Holds built top t) (run : built.Run built') (since : base.Since e)
    (since' : base.Since e') (steps : e.StepsTo (.silhouette top) p)
    (virtual : p.node = .silhouette id)
    (found : e.toForest.Located built.document top t p n) :
    e'.toForest.Located built'.document top t p n :=
  found.later h.ready.buildable since.grows since'.grows
    (since_of_run h.since.construction.document.wellFormed run).construction.document
    (h.root since) ((h.run run).root since') steps virtual

end Holds

end Evaluation

namespace Evaluate

open Evaluation Forest

variable {base e : Evaluation} {top : SilhouetteId} {t n : NodeId} {p : Pointer} {id : SilhouetteId}

/-- A call for a virtual node finds it from the top. -/
theorem materialize_of_located {s : Construction} (virtual : p.node = .silhouette id)
    (run : Construct.builtTop e.arena top ⟨e.document, e.memo, []⟩ = .ok t s)
    (h : e.toForest.Located s.document top t p n) (o : Options) :
    materialize p o e = .ok n { e with document := s.document, memo := s.memo } := by
  show construct (.materialize e.arena p) o e = _
  rw [construct, Construct.materialize_of_located virtual run h]

/-- A call for a virtual node of a built tree changes nothing. -/
theorem materialize_of_holds (h : base.Holds e top t) (virtual : p.node = .silhouette id)
    (found : e.toForest.Located e.document top t p n) (o : Options) :
    materialize p o e = .ok n e :=
  materialize_of_located virtual (Construct.builtTop_of_built h.built) found o

/-- The first call for a node of a tree that was ready builds the tree, and all its nodes are found. -/
theorem exists_holds (since : base.Since e) (ready : base.Ready top) (o : Options) :
    ∃ t built, base.Holds built top t ∧ e.Run built ∧
      (∀ p id n, p.node = .silhouette id → e.toForest.Located built.document top t p n →
        materialize p o e = .ok n built) ∧
      (e.memo.built? top = none → built.memo = e.memo.insert top t) ∧
      (e.memo.built? top ≠ none → built = e) := by
  obtain ⟨t, s, run, remembered, first, again⟩ := since.exists_built ready
  have kept := (((Construct.lasts_since since.arena).keeps_builtTop _).ok since.construction run).1
  have holds : base.Holds { e with document := s.document, memo := s.memo } top t :=
    ⟨⟨kept.unused, since.arena⟩, ready, remembered⟩
  refine ⟨t, _, holds, .single ?_, fun p id n virtual found => ?_, first, fun built => ?_⟩
  · have step := Call.materialize e o (.silhouette top)
    rwa [materialize_of_located rfl run (holds.root since)] at step
  · exact materialize_of_located virtual run found o
  · rw [again built]

/-- No other virtual node, of this tree or of another that was ready, has the node found for one. -/
theorem eq_of_materialize {last : Evaluation} {top' : SilhouetteId} {p' : Pointer} {id' : SilhouetteId}
    (h : base.Holds e top t) (ready : base.Ready top') (steps : e.StepsTo (.silhouette top) p)
    (virtual : p.node = .silhouette id) (found : e.toForest.Located e.document top t p n)
    (steps' : e.StepsTo (.silhouette top') p') (virtual' : p'.node = .silhouette id') {o : Options}
    (run : materialize p' o e = .ok n last) : p' = p := by
  obtain ⟨t', built, holds', call, answer, -⟩ := exists_holds h.since ready o
  have holds := h.run call
  have wf := h.since.construction.document.wellFormed
  have wf' := holds.since.construction.document.wellFormed
  have root := holds.root h.since
  have root' := holds'.root h.since
  have place := h.later call h.since h.since steps virtual found
  obtain ⟨n', place'⟩ := Located.exists_located wf wf' root' steps' virtual'
  rw [answer p' id' n' virtual' place'] at run
  cases run
  have apart (eq : t' = t) : top' = top :=
    holds.since.construction.apart top' top t ready h.ready (eq ▸ holds'.built) holds.built
  exact Located.inj wf wf' holds'.isTop.parent holds.isTop.parent apart root' root steps' steps virtual'
    virtual place' place

/-- The node for a virtual node stands where navigation shows the virtual node. -/
structure Commutes (o : Options) (e built : Evaluation) (node : Pointer → NodeId) (p : Pointer) :
    Prop where
  /-- Asking for the node succeeds. -/
  call : materialize p o e = .ok (node p) built
  /-- The tree below it is the one that navigation shows. -/
  tree : built.document.tree (node p) = e.shown p
  /-- The node for the parent is its parent. -/
  parent : ∀ q, e.parent? p = .ok (some q) → materialize q o e = .ok (node q) built ∧
    built.document.parent? (node p) = some (node q)
  /-- As a child, it has the same place among the children of its parent. -/
  childAt : ∀ q (i : ℕ), (e.children q)[i]? = some p → e.parent? p = .ok (some q) ∧
    (built.document.children (node q))[i]? = some (node p)
  /-- As an attribute, it has the same place among the attributes of its owner. -/
  attributeAt : ∀ q (i : ℕ), (e.attributes q)[i]? = some p → e.parent? p = .ok (some q) ∧
    (built.document.attributes (node q))[i]? = some (node p)

/-- What is found below a built top stands where navigation shows it. -/
theorem commutes_of_located {built : Evaluation} {node : Pointer → NodeId} {o : Options}
    (since : base.Since e) (h : base.Holds built top t)
    (answer : ∀ p id n, p.node = .silhouette id → e.toForest.Located built.document top t p n →
      materialize p o e = .ok n built)
    (found : ∀ p id, e.StepsTo (.silhouette top) p → p.node = .silhouette id →
      e.toForest.Located built.document top t p (node p))
    (steps : e.StepsTo (.silhouette top) p) (virtual : p.node = .silhouette id) :
    Commutes o e built node p := by
  have wf := since.construction.document.wellFormed
  have wf' := h.since.construction.document.wellFormed
  have root := h.root since
  have here := found p id steps virtual
  have up {q : Pointer} : e.parent? p = .ok (some q) ↔ p ∈ e.entries q :=
    Located.parent?_iff wf wf' root steps virtual
  have joined {q : Pointer} (mem : p ∈ e.entries q) : materialize q o e = .ok (node q) built ∧
      e.Joined built.document q (node q) p (node p) := by
    have steps := steps.of_mem_entries mem virtual
    obtain ⟨above, graft, rfl, -⟩ := exists_above mem virtual
    have there := found _ above steps rfl
    obtain ⟨m, located, joined⟩ := Located.joined wf wf' root steps mem virtual here
    exact ⟨answer _ above _ rfl there, located.unique there ▸ joined⟩
  refine ⟨answer p id _ virtual here, here.tree.trans (shown_eq_tree wf here.faithful).symm,
    fun q parent => ?_, fun q i hi => ?_, fun q i hi => ?_⟩
  · obtain ⟨call, joined⟩ := joined (up.1 parent)
    exact ⟨call, joined.parent⟩
  · have mem : p ∈ e.entries q := List.mem_append_right _ (List.mem_of_getElem? hi)
    exact ⟨up.2 mem, (joined mem).2.children i hi⟩
  · have mem : p ∈ e.entries q := List.mem_append_left _ (List.mem_of_getElem? hi)
    exact ⟨up.2 mem, (joined mem).2.attributes i hi⟩

/-- Materialization commutes with navigation.  Let a virtual tree that can be built, and was not built
yet, stand on a well-formed document without two attributes of one expanded name on a node, and let any
nodes be materialized.  Then every virtual node of the tree has a node, which stands where navigation
shows the virtual node; later calls give the same node, change nothing, and give it for no other virtual
node of this or another such tree.  The first call for the tree builds it and remembers its top, and no
call after it builds anything. -/
theorem materialize_commutes (o : Options) (wf : base.document.WellFormed)
    (distinct : base.document.DistinctAttributes) (buildable : base.Buildable (.silhouette top))
    (new : base.memo.built? top = none) (run : base.Run e) :
    ∃ (built : Evaluation) (node : Pointer → NodeId),
      (∀ p id, e.StepsTo (.silhouette top) p → p.node = .silhouette id →
        Commutes o e built node p ∧
        ∀ later, built.Run later → materialize p o later = .ok (node p) later ∧
          ∀ top' p' id' last, base.Buildable (.silhouette top') → base.memo.built? top' = none →
            e.StepsTo (.silhouette top') p' → p'.node = .silhouette id' →
            materialize p' o later = .ok (node p) last → p' = p) ∧
      (∀ p, e.shown p = .node (e.label p.node) ((e.attributes p).map e.shown)
        ((e.children p).map e.shown)) ∧
      (e.memo.built? top = none → built.memo = e.memo.insert top (node (.silhouette top))) ∧
      (e.memo.built? top ≠ none → built = e) := by
  have ready {top : SilhouetteId} (buildable : base.Buildable (.silhouette top))
      (new : base.memo.built? top = none) : base.Ready top :=
    ⟨buildable, buildable.faithful wf distinct fun _ => nofun, new⟩
  have since := since_of_run wf run
  obtain ⟨t, built, holds, -, answer, first, again⟩ := exists_holds since (ready buildable new) o
  have root := holds.root since
  have place (p : Pointer) : ∃ n, ∀ id, e.StepsTo (.silhouette top) p → p.node = .silhouette id →
      e.toForest.Located built.document top t p n := by
    by_cases reached : e.StepsTo (.silhouette top) p ∧ ∃ id, p.node = .silhouette id
    · obtain ⟨steps, id, virtual⟩ := reached
      obtain ⟨n, found⟩ := Located.exists_located since.construction.document.wellFormed
        holds.since.construction.document.wellFormed root steps virtual
      exact ⟨n, fun _ _ _ => found⟩
    · exact ⟨t, fun id steps virtual => absurd ⟨steps, id, virtual⟩ reached⟩
  choose node found using place
  have same : node (.silhouette top) = t := (found _ top .refl rfl).unique root
  refine ⟨built, node, fun p id steps virtual => ⟨commutes_of_located since holds answer found steps
    virtual, fun later run' => ?_⟩, shown_eq since.construction.document.wellFormed, by rwa [same],
    again⟩
  have holds' := holds.run run'
  have here := holds.later run' since holds'.since steps virtual (found p id steps virtual)
  refine ⟨materialize_of_holds holds' virtual here o,
    fun top' p' id' last buildable' new' steps' virtual' call' => ?_⟩
  have later := steps.later buildable since.grows holds'.since.grows virtual
  have later' := steps'.later buildable' since.grows holds'.since.grows virtual'
  exact eq_of_materialize holds' (ready buildable' new') later virtual here later' virtual' call'

/-- A silhouette that stands twice below another, beside a copied attribute and a document type, and that
was built on its own before, is built anew in both places; in between a silhouette is added. -/
theorem materialize_commutes_of_shared_silhouette :
    let a : Tree := .node (.element (.unqualified "a")) [.leaf (.attribute (.unqualified "x") "1")] []
    let d := ((holding a).alloc (.documentType "a")).2
    let y := Arena.empty.alloc (.attribute (.unqualified "y") "2") (by decide)
    let b := y.2.alloc (.element (.unqualified "b") [.silhouette y.1] []) (by decide)
    let s := b.2.alloc (.element (.unqualified "s") [.silhouette y.1, .real ⟨1⟩]
      [.real ⟨2⟩, .silhouette b.1, .real ⟨0⟩, .silhouette b.1]) (by decide)
    let base : Evaluation := { Evaluation.start d with arena := s.2 }
    let before := endState (materialize (.silhouette b.1) {} base)
    let e : Evaluation := { before with arena := (before.arena.alloc (.text "t") nofun).2 }
    let top := Pointer.silhouette s.1
    let place := fun i => (⟨.silhouette b.1, [⟨s.1, .child i⟩]⟩ : Pointer)
    base.document.WellFormed ∧ base.document.DistinctAttributes ∧
      base.Buildable (.silhouette s.1) ∧ base.memo.built? s.1 = none ∧ base.Run e ∧
      ∃ n n' m built, materialize (place 3) {} e = .ok n built ∧
        materialize (place 1) {} built = .ok n' built ∧ materialize top {} e = .ok m built ∧
        built.document.tree n = e.shown (place 3) ∧ built.document.parent? n = some m ∧
        (built.document.children m)[2]? = some n ∧ n' ≠ n ∧
        ∀ last, materialize (.silhouette b.1) {} built ≠ .ok n last := by
  intro a d y b s base before e top place
  have wf : base.document.WellFormed := (wellFormed_holding a).alloc _
  have distinct : base.document.DistinctAttributes := .of_nodes (by decide +kernel)
  have buildableY : base.Buildable (.silhouette y.1) :=
    .silhouette _ (by decide) (by decide +kernel) (by decide +kernel) nofun (by decide +kernel) nofun
  have buildableB : base.Buildable (.silhouette b.1) := by
    refine .silhouette _ (by decide) (by decide +kernel) (by decide +kernel) ?_ (by decide +kernel) nofun
    exact List.forall_mem_singleton.2 buildableY
  have buildable : base.Buildable (.silhouette s.1) := by
    refine .silhouette _ (by decide) (by decide +kernel) (by decide +kernel) ?_ (by decide +kernel) ?_
    · exact List.forall_mem_cons.2 ⟨buildableY, List.forall_mem_singleton.2
        (.real _ (by decide +kernel) ⟨_, _, rfl⟩)⟩
    · exact List.forall_mem_cons.2 ⟨fun visible => absurd visible (by decide +kernel),
        List.forall_mem_cons.2 ⟨fun _ => buildableB, List.forall_mem_cons.2
          ⟨fun _ => .real _ (by decide +kernel) ⟨_, _, rfl⟩,
            List.forall_mem_singleton.2 fun _ => buildableB⟩⟩⟩
  have run : base.Run e := .tail (.single (.materialize base {} (.silhouette b.1))) (.alloc _ _ _)
  have steps (i : ℕ) (mem : place i ∈ e.entries top) : e.StepsTo top (place i) := .tail .refl mem
  obtain ⟨built, node, commutes, -, -, -⟩ := materialize_commutes {} wf distinct buildable rfl run
  obtain ⟨last, later⟩ := commutes (place 3) b.1 (steps 3 (by decide +kernel)) rfl
  obtain ⟨-, only⟩ := later built .refl
  obtain ⟨again, -⟩ := (commutes (place 1) b.1 (steps 1 (by decide +kernel)) rfl).2 built .refl
  obtain ⟨up, child⟩ := last.childAt top 2 (by decide +kernel)
  obtain ⟨call, parent⟩ := last.parent top up
  refine ⟨wf, distinct, buildable, rfl, run, node (place 3), node (place 1), node top, built, last.call,
    again, call, last.tree, parent, child, fun same => ?_, fun _ copy => ?_⟩
  · exact absurd (only s.1 (place 1) b.1 _ buildable rfl (steps 1 (by decide +kernel)) rfl
      (same ▸ again)) (by decide)
  · exact absurd (only b.1 (.silhouette b.1) b.1 _ buildableB rfl .refl rfl copy) (by decide)

end Evaluate

end VirtualTree
