import VirtualTree.Proofs.Materialization.Present
import VirtualTree.Proofs.Materialization.Regular
import VirtualTree.Proofs.Update.Compatibility
import VirtualTree.Proofs.Update.Supply

/-!
# Content that is provided for pointers

While a list is prepared, the memo holds the trees of the forest that the list is for, and no node is
chosen twice (`Construction.Provides`).  A content pointer is turned into a new node without a parent
that shows what navigation shows at the pointer (`Forest.StandsFor`), whichever way it is made: as a
copy, as the built form of a virtual tree or of a part of it, or as a copy of that.
-/

namespace VirtualTree

open Document

/-- The memo holds the trees of the forest, and the nodes chosen so far are `used`. -/
structure Construction.Provides (f : Forest) (used : List NodeId) (s : Construction) : Prop where
  document : f.document.Extends s.document
  memo : ∀ top t, s.memo.built? top = some t → s.document.Has t ∧
    s.document.tree t = f.tree (.silhouette top) ∧ (f.tree (.silhouette top)).Faithful
  used_eq : s.used = used
  nodup : used.Nodup

/-- A new node without a parent shows what navigation shows at the pointer. -/
structure Forest.StandsFor (f : Forest) (d : Document) (m : NodeId) (p : Pointer) : Prop where
  fresh : ¬ f.document.Has m
  top : d.Top m
  tree : d.tree m = f.shown p
  faithful : (f.shown p).Faithful

theorem Forest.StandsFor.later {f : Forest} {d d' : Document} {m : NodeId} {p : Pointer}
    (h : f.StandsFor d m p) (grown : d.Extends d') : f.StandsFor d' m p :=
  ⟨h.fresh, grown.top h.top, (grown.tree_eq h.top.has).trans h.tree, h.faithful⟩

/-- It contributes what navigation shows, of a document the children. -/
theorem Forest.StandsFor.contribution {f : Forest} {d : Document} {m : NodeId} {p : Pointer}
    (h : f.StandsFor d m p) (wf : d.WellFormed) :
    (d.opened m).map d.tree = (f.shown p).contribution := by
  rw [← h.tree]
  exact map_tree_opened wf (h.tree.symm ▸ h.faithful)

/-- The pointer is reached by navigation, and the node it denotes exists. -/
structure Forest.Denotes (f : Forest) (p : Pointer) : Prop where
  reached : f.Reached p
  resolves : p.node.Resolves f.document

variable {f : Forest} {used : List NodeId} {s s' : Construction} {m n : NodeId} {p : Pointer}

/-- Before anything is prepared, nothing is used. -/
theorem Construction.Provides.start (wf : f.document.WellFormed) :
    Provides f [] ⟨f.document, .empty, []⟩ :=
  ⟨wf.extends_self, fun _ _ => nofun, rfl, List.nodup_nil⟩

theorem Construction.Provides.use (h : Provides f used s) (new : m ∉ used) :
    Construction.Provides f (m :: used) { s with used := m :: s.used } :=
  ⟨h.document, h.memo, congrArg _ h.used_eq, List.nodup_cons.2 ⟨new, h.nodup⟩⟩

namespace Construct

open Construction Forest

variable (regular : f.Regular)

include regular

/-- Building virtual trees adds trees of the forest to the memo, whether it succeeds or fails. -/
theorem lasts_provides (used : List NodeId) : Lasts f.arena (Provides f used) where
  wellFormed _ h := h.document.wellFormed
  extend s d h grown := by
    refine ⟨h.document.trans grown, fun top t built => ?_, h.used_eq, h.nodup⟩
    obtain ⟨has, tree, faithful⟩ := h.memo top t built
    exact ⟨grown.has has, (grown.tree_eq has).trans tree, faithful⟩
  remember s top n d h new run := by
    have wf := h.document.wellFormed
    have grown := ((Tree.keeps_build _).ok wf.extends_self run).1
    have copyable := Tree.copyableIfBuilt _ s.document n d wf run
    have tree := copyable.tree_of_build wf run
    rw [regular.tree_virtual h.document] at copyable tree
    have faithful := regular.distinctNames.faithful copyable fun _ => nofun
    rw [faithful.copied_eq] at tree
    refine ⟨h.document.trans grown, fun top' t built => ?_, h.used_eq, h.nodup⟩
    rw [Memo.built?_insert] at built
    split_ifs at built with same
    · obtain rfl := Option.some.inj built
      rw [same]
      exact ⟨(Tree.top_of_build wf run).has, tree, faithful⟩
    · obtain ⟨has, tree, faithful⟩ := h.memo top' t built
      exact ⟨grown.has has, (grown.tree_eq has).trans tree, faithful⟩

/-- A copy is new and shows the copy of the tree. -/
theorem deepClone_provides {id : NodeId} (h : Provides f used s)
    (run : edit (Edit.deepClone id) s = .ok m s') :
    Provides f used s' ∧ (s.document.tree id).Copyable ∧
      s'.document.tree m = (s.document.tree id).copied := by
  have wf := h.document.wellFormed
  obtain ⟨d, clone, rfl⟩ := edit_ok run
  have grown := ((Edit.keeps_deepClone id).ok wf.extends_self clone).1
  have copyable := Tree.copyableIfBuilt _ s.document m d wf clone
  exact ⟨(lasts_provides regular used).extend s d h grown, copyable, copyable.tree_of_build wf clone⟩

/-- What a node under a graft becomes shows the copy of its tree. -/
theorem materialize_provides (h : Provides f used s) (denotes : f.Denotes p)
    (virtual : p.plainNode? = none) (run : materialize f.arena p s = .ok n s') :
    Provides f used s' ∧ (f.tree p.node).Copyable ∧ s'.document.tree n = (f.tree p.node).copied := by
  have provides := ((lasts_provides regular used).keeps_materialize p).ok h run |>.1
  refine ⟨provides, ?_⟩
  obtain ⟨node, graft⟩ := p
  cases node with
  | real id =>
    cases graft with
    | nil => cases virtual
    | cons g up =>
      obtain ⟨-, copyable, tree⟩ := deepClone_provides regular h run
      rw [h.document.tree_eq (denotes.resolves)] at copyable tree
      rw [Forest.tree_real]
      exact ⟨copyable, tree⟩
  | silhouette id =>
    obtain ⟨top, below⟩ := denotes.reached.exists_below ⟨id, rfl⟩
    have below := (regular.agrees h.document top).below below
    obtain ⟨slots, descent⟩ := below.exists_descent (regular.navigable_of_grown h.document)
    obtain ⟨top', slots', root, descent', built, follow⟩ := follow_of_materialize run
    obtain ⟨rfl, rfl⟩ := Prod.mk.inj (Except.ok.inj (descent.symm.trans descent'))
    obtain ⟨-, tree, faithful⟩ := provides.memo top root built
    rw [← regular.tree_virtual h.document] at tree faithful
    obtain ⟨n', ⟨slots', descent', follow'⟩, tree, faithful⟩ := Located.exists_located
      h.document.wellFormed provides.document.wellFormed (.here faithful tree) below.steps rfl
    obtain ⟨-, rfl⟩ := Prod.mk.inj (Except.ok.inj (descent.symm.trans descent'))
    obtain rfl := Except.ok.inj (follow.symm.trans follow')
    rw [regular.tree_virtual h.document] at tree faithful
    exact ⟨faithful.copyable, tree.trans faithful.copied_eq.symm⟩

variable {setting : Setting} (arena : setting.arena = f.arena) (copy : setting.copyInserted = true)
  {chosen : List NodeId}

include arena copy

/-- A pointer is turned into a node that was not used before and stands for it. -/
theorem contentNode_provides (stock : Stock f.document chosen s) (h : Provides f used s)
    (denotes : f.Denotes p) (run : contentNode setting p s = .ok m s') :
    Provides f (m :: used) s' ∧ f.StandsFor s'.document m p := by
  obtain ⟨stock', -, isUsed, -⟩ := contentNode_ok stock copy run
  obtain ⟨fresh, top⟩ := stock'.used m isUsed
  suffices shows : Provides f (m :: used) s' ∧ (f.tree p.node).Copyable ∧
      s'.document.tree m = (f.tree p.node).copied by
    obtain ⟨provides, copyable, tree⟩ := shows
    have shown := regular.distinctNames.shown_eq_copied copyable
    exact ⟨provides, fresh, top, tree.trans shown.symm, shown ▸ copyable.faithful⟩
  clear isUsed fresh top
  revert run
  unfold contentNode
  cases plain : p.plainNode? with
  | some id =>
    rw [copy]
    intro run
    obtain ⟨n, s₁, clone, run⟩ := bind_ok run
    cases run
    obtain ⟨-, -, -, -, unused⟩ := deepClone_ok stock clone
    obtain ⟨provides, copyable, tree⟩ := deepClone_provides regular h clone
    obtain rfl := Pointer.eq_real_of_plainNode? plain
    rw [h.document.tree_eq (denotes.resolves), ← tree_real] at copyable tree
    exact ⟨provides.use (provides.used_eq ▸ unused), copyable, tree⟩
  | none =>
    intro run
    obtain ⟨built, s₁, materialized, run⟩ := bind_ok run
    obtain ⟨stock₁, -⟩ := materialize_ok stock plain materialized
    rw [arena] at materialized
    obtain ⟨provides, copyable, tree⟩ := materialize_provides regular h denotes plain materialized
    obtain ⟨_, _, got, run⟩ := bind_ok run
    cases got
    split_ifs at run with taken
    · obtain ⟨n, s₂, clone, run⟩ := bind_ok run
      cases run
      obtain ⟨-, -, -, -, unused⟩ := deepClone_ok stock₁ clone
      obtain ⟨provides, -, same⟩ := deepClone_provides regular provides clone
      rw [tree, copyable.faithful.copied_eq] at same
      exact ⟨provides.use (provides.used_eq ▸ unused), copyable, same⟩
    · cases run
      exact ⟨provides.use (provides.used_eq ▸ (not_or.1 taken).2), copyable, tree⟩

/-- The nodes that are supplied for pointers are used one after the other, stand for them, and are of
fitting kinds. -/
theorem Supplied.provides {fits : Kind → Prop} {ps : List Pointer} {content : List NodeId}
    (supplied : Supplied setting fits ps content s s') (stock : Stock f.document chosen s)
    (h : Provides f used s) (denotes : ∀ p ∈ ps, f.Denotes p) : ∃ nodes,
      Provides f (nodes.reverse ++ used) s' ∧ content = nodes.flatMap s'.document.opened ∧
        List.Forall₂ (f.StandsFor s'.document) nodes ps ∧ ∀ m ∈ nodes, fits (s'.document.kind m) := by
  induction supplied generalizing chosen used with
  | nil => exact ⟨[], h, rfl, .nil, List.forall_mem_nil _⟩
  | @cons p ps m content s s₁ s' first fit others ih =>
    rw [List.forall_mem_cons] at denotes
    obtain ⟨provides, stands⟩ := contentNode_provides regular arena copy stock h denotes.1 first
    obtain ⟨stock, -⟩ := contentNode_ok stock copy first
    obtain ⟨-, later, -⟩ := others.stock copy stock
    obtain ⟨nodes, provides, rfl, rest, fits⟩ := ih stock provides denotes.2
    refine ⟨m :: nodes, ?_, ?_, .cons (stands.later later) rest, List.forall_mem_cons.2 ⟨?_, fits⟩⟩
    · rwa [List.reverse_cons, List.append_assoc]
    · rw [List.flatMap_cons, later.opened_eq stands.top.has]
    · rwa [later.kind_eq stands.top.has]

/-- The nodes that are supplied for a list of updates are all different, and stand for the pointers.  What
is inserted as attributes are these nodes themselves. -/
theorem mapM_prepare_provides {updates : List (Update Pointer)} {prepared : List (Update NodeId)}
    (stock : Stock f.document chosen s) (h : Provides f used s)
    (denotes : ∀ u ∈ updates, ∀ p ∈ u.content, f.Denotes p)
    (run : updates.mapM (prepare setting) s = .ok prepared s') : ∃ built,
      Provides f (built.flatten.reverse ++ used) s' ∧
        List.Forall₂ (fun v nodes => v.content = nodes.flatMap s'.document.opened) prepared built ∧
        List.Forall₂ (fun nodes u => List.Forall₂ (f.StandsFor s'.document) nodes u.content) built
          updates ∧
        List.Forall₂ (fun v u => u.kind = .insertAttributes →
          List.Forall₂ (f.StandsFor s'.document) v.content u.content) prepared updates := by
  induction updates generalizing chosen used s prepared with
  | nil =>
    cases run
    exact ⟨[], h, .nil, .nil, .nil⟩
  | cons u us ih =>
    rw [List.mapM_cons] at run
    obtain ⟨v, s₁, first, run⟩ := bind_ok run
    obtain ⟨vs, s₂, others, run⟩ := bind_ok run
    cases run
    rw [List.forall_mem_cons] at denotes
    obtain ⟨supplied, -⟩ := prepare_ok copy stock first
    obtain ⟨nodes, provides, content, stands, fits⟩ :=
      supplied.provides regular arena copy stock h denotes.1
    obtain ⟨stock, -⟩ := supplied.stock copy stock
    have later : s₁.document.Extends s'.document := extends_of_ok provides.document.wellFormed
      (keeps_mapM (R := fun _ => True) fun u _ =>
        (keeps_prepare admits_all (fun _ _ => trivial) u).mono fun _ _ => trivial) others
    obtain ⟨built, provides, contents, rest, attributes⟩ := ih stock provides denotes.2 others
    have stand := stands.imp fun _ _ h => h.later later
    refine ⟨nodes :: built, ?_, .cons ?_ contents, .cons stand rest, .cons (fun kind => ?_) attributes⟩
    · rwa [List.flatten_cons, List.reverse_append, List.append_assoc]
    · rw [content]
      refine List.flatMap_congr fun m hm => (later.opened_eq ?_).symm
      obtain ⟨_, -, stands⟩ := exists_of_forall₂ stands hm
      exact stands.top.has
    · have alone : v.content = nodes := by
        rw [content]
        refine (List.flatMap_congr fun m hm => ?_).trans (List.flatMap_singleton' nodes)
        rw [opened, if_neg]
        rw [Action.Fits.isAttribute (fits m hm) kind]
        decide
      rwa [alone]

end Construct

namespace Evaluation

variable {e : Evaluation} {o : Options} {updates : List (Update Pointer)}
  {prepared : List (Update NodeId)} (regular : e.toForest.Regular) (memo : e.memo = .empty)
  (copy : o.copyInsertedContent = true) (denotes : ∀ u ∈ updates, ∀ p ∈ u.content, e.Denotes p)
  (prepare : e.prepareAll o updates = .ok prepared s)

include regular memo copy denotes prepare

/-- For the content of a list nodes are provided that are all different, if nothing is built yet. -/
theorem prepareAll_provides : ∃ built : List (List NodeId),
    s.used = built.flatten.reverse ∧ built.flatten.Nodup ∧
      List.Forall₂ (fun v nodes => v.content = nodes.flatMap s.document.opened) prepared built ∧
      List.Forall₂ (fun nodes u => List.Forall₂ (e.StandsFor s.document) nodes u.content) built
        updates := by
  rw [prepareAll, memo] at prepare
  obtain ⟨built, provides, contents, stands, -⟩ := Construct.mapM_prepare_provides regular rfl copy
    (.start regular.document) (.start regular.document) denotes prepare
  rw [List.append_nil] at provides
  exact ⟨built, provides.used_eq, List.nodup_reverse.1 provides.nodup, contents, stands⟩

/-- Inserted attributes stand for the pointers, one for one. -/
theorem prepareAll_attributes : List.Forall₂ (fun v u => u.kind = .insertAttributes →
    List.Forall₂ (e.StandsFor s.document) v.content u.content) prepared updates := by
  rw [prepareAll, memo] at prepare
  obtain ⟨_, -, -, -, attributes⟩ := Construct.mapM_prepare_provides regular rfl copy
    (.start regular.document) (.start regular.document) denotes prepare
  exact attributes

end Evaluation

end VirtualTree
