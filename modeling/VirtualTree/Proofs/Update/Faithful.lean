import VirtualTree.Proofs.Update.Parents
import VirtualTree.Proofs.Update.Provided

/-!
# Content is new, unshared and faithful

Each occurrence of a content pointer in a list is turned into a node of its own, however the pointers
overlap (`Evaluate.content_unshared_and_faithful`).  These nodes and all below them are new and `Unshared`.
What they contribute, documents their children, shows in the end what navigation showed at the pointers
before, since no update of the list works inside of it (`frozen_of_carryOutAll`).  And to be content moves
no old node: a node loses its parent only to the updates that are meant to take it away, or to an
attribute of its name, and gets no other.
-/

namespace VirtualTree

open Document

namespace Document

/-- All that stands at or below the nodes is new, and nothing stands at or below two of them. -/
structure Unshared (base d : Document) (nodes : List NodeId) : Prop where
  fresh : ∀ n ∈ nodes, ∀ i, d.AtOrAbove i n → d.Has i ∧ ¬ base.Has i
  apart : nodes.Pairwise fun m n => ∀ i, d.AtOrAbove i m → ¬ d.AtOrAbove i n

variable {base d : Document} {nodes : List NodeId}

/-- Different new nodes share nothing, if none of them stands below another. -/
theorem Extends.unshared (h : base.Extends d) (nodup : nodes.Nodup)
    (fresh : ∀ n ∈ nodes, ¬ base.Has n ∧ d.Has n) (loose : ∀ n ∈ nodes, d.Loose (· ∈ nodes) n) :
    base.Unshared d nodes where
  fresh n hn i below := ⟨has_of_below (fresh n hn).2 below, fun inside =>
    (fresh n hn).1 (h.inside_of_atOrAbove inside below)⟩
  apart := by
    have same {m n : NodeId} (hm : m ∈ nodes) (hn : n ∈ nodes) (up : d.AtOrAbove m n) : n = m := by
      rcases atOrAbove_iff.1 up with eq | ⟨p, hp, above⟩
      · exact eq
      · exact absurd ⟨n, hn, above⟩ (loose m hm p hp)
    refine nodup.imp_of_mem fun {m n} hm hn ne i below below' => ?_
    rcases atOrAbove_total below below' with up | up
    · exact ne (same hm hn up).symm
    · exact ne (same hn hm up)

/-- What is unshared stays so as long as nothing is changed below the nodes. -/
theorem Unshared.of_frozen {earlier : Document} (h : earlier.Unshared base nodes)
    (frozen : Frozen base (· ∈ nodes) d) : earlier.Unshared d nodes where
  fresh n hn i below := by
    obtain ⟨has, fresh⟩ := h.fresh n hn i ((frozen.atOrAbove_iff hn).1 below)
    exact ⟨has.trans_le frozen.size_le, fresh⟩
  apart := h.apart.imp_of_mem fun {m n} hm hn apart i below below' =>
    apart i ((frozen.atOrAbove_iff hm).1 below) ((frozen.atOrAbove_iff hn).1 below')

/-- What is taken out of opened documents stood below nothing that is contributed. -/
theorem WellFormed.loose_opened (wf : d.WellFormed) (tops : ∀ m ∈ nodes, d.Top m) {c : NodeId}
    (hc : c ∈ nodes.flatMap d.opened) : d.Loose (· ∈ nodes.flatMap d.opened) c := by
  rintro p hp ⟨c', hc', below⟩
  obtain ⟨m, hm, hc⟩ := List.mem_flatMap.1 hc
  obtain ⟨m', -, hc'⟩ := List.mem_flatMap.1 hc'
  obtain ⟨rfl, document⟩ := parent_of_mem_opened wf (tops m hm) hc hp
  obtain rfl := (tops p hm).eq_of_atOrAbove below
  rcases mem_opened wf hc' with ⟨-, notDocument⟩ | ⟨-, parent⟩
  · exact notDocument document
  · rw [(tops c' hm).parent] at parent
    cases parent

end Document

namespace Evaluation

variable {prepared : List (Update NodeId)} {built : List (List NodeId)} {d : Document}

theorem contents_eq (contents : List.Forall₂ (fun v nodes => v.content = nodes.flatMap d.opened)
    prepared built) : prepared.flatMap Update.content = built.flatten.flatMap d.opened := by
  induction contents with
  | nil => rfl
  | cons first _ ih => rw [List.flatMap_cons, first, ih, List.flatten_cons, List.flatMap_append]

/-- The updates of a list leave alone what stands below new nodes, and take nothing out of it but what
they contribute themselves. -/
theorem frozen_of_carryOutAll {base : Document} {contents : List NodeId} (grown : base.Extends d)
    (unshared : base.Unshared d contents) (loose : ∀ c ∈ contents, d.Loose (· ∈ contents) c)
    (within : ∀ v ∈ prepared, base.Has v.target ∧ ∀ c ∈ v.content, c ∈ contents) {d' : Document}
    (run : Edit.carryOutAll prepared d = .ok () d') : Frozen d (· ∈ contents) d' := by
  have outside {i : NodeId} (has : base.Has i) : ¬ d.Inside (· ∈ contents) i := fun ⟨c, hc, below⟩ =>
    (unshared.fresh c hc i below).2 has
  have start : Frozen d (· ∈ contents) d := grown.wellFormed.frozen_self fun c hc =>
    (unshared.fresh c hc c (.refl c)).1
  refine ((Edit.frame_frozen.keeps_carryOutAll fun v hv => ?_).ok start run).1
  obtain ⟨has, content⟩ := within v hv
  exact ⟨fun _ p hp => outside (grown.inside_of_parent has hp), fun _ => outside has,
    fun c hc => loose c (content c hc)⟩

end Evaluation

namespace Evaluate

open Evaluation

variable {e e' : Evaluation} {o : Options} {updates : List (Update Pointer)}

/-- Let no element, real or virtual, have two attributes of one expanded name, let nothing be built yet,
and let nodes of the document be copied.  If a list is applied with success, each occurrence of a content
pointer was turned into one node.  What stands at and below these nodes is new, and no two of them share
a node, before the list is carried out and after it.  Each contributes itself, or its children if it is a
document, and these are the trees that navigation showed at the pointer.  No old node is moved: it keeps
its parent or loses it, to an update that takes it away or to an attribute of its name. -/
theorem content_unshared_and_faithful (regular : e.toForest.Regular) (memo : e.memo = .empty)
    (copy : o.copyInsertedContent = true)
    (targets : ∀ u ∈ updates, ∀ id, u.target.plainNode? = some id → e.document.Has id)
    (navigated : ∀ u ∈ updates, ∀ p ∈ u.content, e.Navigated p)
    (named : ∀ u ∈ updates, ∀ p ∈ u.content, ∀ id, p.plainNode? = some id → e.document.Has id)
    (run : applyUpdates updates o e = .ok () e') :
    ∃ prepared s built, e.prepareAll o updates = .ok prepared s ∧
      Edit.carryOutAll (inStages prepared) s.document = .ok () e'.document ∧
      List.Forall₂ Update.Realizes prepared updates ∧
      List.Forall₂ (fun v nodes => v.content = nodes.flatMap s.document.opened) prepared built ∧
      List.Forall₂ (fun nodes u => List.Forall₂ (fun m p => s.document.tree m = e.shown p ∧
        (s.document.opened m).map e'.document.tree = (e.shown p).contribution) nodes u.content)
        built updates ∧
      e.document.Unshared s.document built.flatten ∧
      e.document.Unshared e'.document (prepared.flatMap Update.content) ∧
      ∀ i, e.document.Has i → e'.document.parent? i ≠ e.document.parent? i →
        e'.document.parent? i = none ∧ ((∃ v ∈ prepared, v.Removes e.document i) ∨
          e.document.kind i = .attribute ∧ ∃ earlier v between,
            inStages prepared = earlier ++ v :: between ∧ v.Overtakes s.document earlier i) := by
  have wf := regular.document
  obtain ⟨compatible, prepared, s, d, prepare, carryOut, rfl⟩ := applyUpdates_ok run
  obtain ⟨stock, grown, realize, suit⟩ := prepareAll_ok wf memo copy targets prepare
  have start := underway wf memo copy targets compatible prepare
  have denotes : ∀ u ∈ updates, ∀ p ∈ u.content, e.Denotes p := fun u hu p hp => by
    have reached := (navigated u hu p hp).reached regular.navigable
    exact ⟨reached, regular.resolves reached (named u hu p hp)⟩
  obtain ⟨built, used, nodup, contents, stands⟩ := prepareAll_provides regular memo copy denotes prepare
  have chosen : ∀ m ∈ built.flatten, ¬ e.document.Has m ∧ s.document.Top m := fun m hm =>
    stock.used m (used ▸ List.mem_reverse.2 hm)
  have loose : ∀ c ∈ prepared.flatMap Update.content,
      s.document.Loose (· ∈ prepared.flatMap Update.content) c := by
    rw [contents_eq contents]
    exact fun c => grown.wellFormed.loose_opened fun m hm => (chosen m hm).2
  have unshared := grown.unshared stock.nodup
    (fun c hc => ⟨(stock.chosen c hc).1, (stock.chosen c hc).2.1⟩) loose
  have frozen := frozen_of_carryOutAll grown unshared loose
    (fun v hv => ⟨(suit v (mem_inStages.1 hv)).1, fun c => List.mem_flatMap_of_mem (mem_inStages.1 hv)⟩)
    carryOut
  refine ⟨prepared, s, built, prepare, carryOut, realize, contents, ?_, ?_,
    unshared.of_frozen frozen, ?_⟩
  · have kept {m c : NodeId} (hm : m ∈ built.flatten) (hc : c ∈ s.document.opened m) :
        d.tree c = s.document.tree c := frozen.tree_eq <| by
      rw [contents_eq contents]
      exact List.mem_flatMap_of_mem hm hc
    refine ((List.forall₂_and_left _ _).2 ⟨fun _ => id, stands⟩).imp fun nodes u h => ?_
    refine ((List.forall₂_and_left _ _).2 ⟨fun _ => id, h.2⟩).imp fun m p h' => ⟨h'.2.tree, ?_⟩
    rw [← h'.2.contribution grown.wellFormed]
    exact List.map_congr_left fun c hc => kept (List.mem_flatten_of_mem h.1 h'.1) hc
  · refine grown.unshared nodup (fun m hm => ⟨(chosen m hm).1, (chosen m hm).2.has⟩) fun m hm p hp => ?_
    rw [(chosen m hm).2.parent] at hp
    cases hp
  · intro i old changed
    obtain ⟨lost, cause⟩ := start.parent?_of_carryOutAll grown carryOut old changed
    exact ⟨lost, cause.imp_left fun h => h.imp fun v removes => removes.imp_left mem_inStages.1⟩

/-- A virtual tree and a part of it, a virtual document twice, the document of the host, and a node of
the host by itself and where it is spliced in, all in one list; an attribute makes room for its copy. -/
theorem content_of_overlapping_pointers :
    let t : Tree := .node .document [] [.leaf (.documentType "a"),
      .node (.element (.unqualified "a")) [.leaf (.attribute (.unqualified "x") "1")]
        [.leaf (.text "t")],
      .leaf (.comment "c")]
    let y := Arena.empty.alloc (.attribute (.unqualified "y") "2") (by decide)
    let b := y.2.alloc (.element (.unqualified "b") [.silhouette y.1] []) (by decide)
    let v := b.2.alloc (.document [.silhouette b.1, .real ⟨1⟩]) (by decide)
    let r := v.2.alloc (.element (.unqualified "r") [] [.silhouette b.1, .real ⟨2⟩]) (by decide)
    let e : Evaluation := { Evaluation.start (t.plant .empty).2 with arena := r.2 }
    let inner : Pointer := ⟨.silhouette b.1, [⟨r.1, .child 0⟩]⟩
    let spliced : Pointer := ⟨.real ⟨2⟩, [⟨r.1, .child 1⟩]⟩
    let updates : List (Update Pointer) :=
      [⟨.real ⟨2⟩, .insert .intoAsLast [.silhouette r.1, inner, .silhouette v.1, spliced]⟩,
        ⟨.real ⟨5⟩, .replaceNode [.silhouette v.1, .silhouette r.1, .real ⟨0⟩]⟩,
        ⟨.real ⟨2⟩, .insertAttributes [.real ⟨3⟩]⟩]
    let e' := endState (applyUpdates updates {} e)
    e.Regular ∧ (∀ u ∈ updates, ∀ p ∈ u.content, e.Navigated p) ∧
      applyUpdates updates {} e = .ok () e' ∧
      e'.document.toXml ⟨0⟩ = "<!DOCTYPE a><a x=\"1\">t<r><b y=\"2\"/><a x=\"1\">t</a></r><b y=\"2\"/>" ++
        "<b y=\"2\"/><a x=\"1\">t</a></a><b y=\"2\"/><r><b y=\"2\"/><a x=\"1\">t</a></r>" ++
        "<a x=\"1\">t</a><!--c-->" ∧
      ∃ prepared s built, e.prepareAll {} updates = .ok prepared s ∧
        List.Forall₂ (fun nodes u => List.Forall₂ (fun m p =>
          (s.document.opened m).map e'.document.tree = (e.shown p).contribution) nodes u.content)
            built updates ∧
        e.document.Unshared s.document built.flatten ∧
        e.document.Unshared e'.document (prepared.flatMap Update.content) ∧
        e'.document.parent? ⟨3⟩ = none ∧ e.document.parent? ⟨3⟩ = some ⟨2⟩ := by
  intro t y b v r e inner spliced updates e'
  have plantable : t.Plantable := by
    refine .node nofun (fun _ => rfl) nofun (by decide) (List.forall_mem_cons.2 ⟨.leaf _,
      List.forall_mem_cons.2 ⟨?_, List.forall_mem_singleton.2 (.leaf _)⟩⟩)
    exact .node (fun _ => rfl) (fun _ => rfl) (by decide) (by decide)
      (List.forall_mem_cons.2 ⟨.leaf _, List.forall_mem_singleton.2 (.leaf _)⟩)
  have wf : e.document.WellFormed :=
    (Extends.plant t plantable wellFormed_empty.extends_self).1.kept.wellFormed
  have regular : e.Regular :=
    .of_silhouettes wf (.of_nodes (by decide +kernel)) (by decide +kernel)
  have down : e.along .child (.silhouette r.1) = .ok [inner, spliced] := rfl
  have navigated : ∀ u ∈ updates, ∀ p ∈ u.content, e.Navigated p := by
    have virtual (id : SilhouetteId) : e.Navigated (.silhouette id) := .silhouette id
    have first : e.Navigated inner := (virtual r.1).step down List.mem_cons_self
    have second : e.Navigated spliced :=
      (virtual r.1).step down (List.mem_cons_of_mem _ List.mem_cons_self)
    refine List.forall_mem_cons.2 ⟨?_, List.forall_mem_cons.2 ⟨?_, List.forall_mem_singleton.2 ?_⟩⟩
    · exact List.forall_mem_cons.2 ⟨virtual _, List.forall_mem_cons.2 ⟨first,
        List.forall_mem_cons.2 ⟨virtual _, List.forall_mem_singleton.2 second⟩⟩⟩
    · exact List.forall_mem_cons.2 ⟨virtual _, List.forall_mem_cons.2 ⟨virtual _,
        List.forall_mem_singleton.2 (.real _ (by decide +kernel))⟩⟩
    · exact List.forall_mem_singleton.2 (.real _ (by decide +kernel))
  have named : ∀ u ∈ updates, ∀ p ∈ u.content, p.plainNode?.all fun id => e.document.Has id := by
    decide +kernel
  have run : applyUpdates updates {} e = .ok () e' := ok_endState (by decide +kernel)
  obtain ⟨prepared, s, built, prepare, -, -, -, stands, unshared, unshared', -⟩ :=
    content_unshared_and_faithful regular rfl rfl (targets_of_all (by decide +kernel)) navigated
      (fun u hu p hp => Pointer.has_of_all (named u hu p hp)) run
  exact ⟨regular, navigated, run, by decide +kernel, prepared, s, built, prepare,
    stands.imp fun _ _ stands => stands.imp fun _ _ shows => shows.2, unshared, unshared',
    by decide +kernel, by decide +kernel⟩

end Evaluate

end VirtualTree
