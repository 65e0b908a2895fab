import VirtualTree.Proofs.Materialization.Present
import VirtualTree.Proofs.Update.Prepared
import VirtualTree.Proofs.Update.Undisturbed

/-!
# Content nodes for virtual trees

A content pointer is turned into a node that is safe to attach: the built form of a virtual tree, or a
copy of it.  For one virtual tree, `Supply` says what such a node shows when the preparation is over:
the tree that was present when it began, if that is faithful.  And no other pointer is turned into the
built form of that tree.  A prepared update brings in what its nodes contribute (`Brings`), documents
their children.
-/

namespace VirtualTree

open Document

/-! ## What a node contributes -/

/-- The trees that a node with this tree contributes as content: its own, or those of the children of a
document. -/
def Tree.contribution (t : Tree) : List Tree := if t.kind = .document then t.children else [t]

namespace Document

variable {d : Document} {m c : NodeId}

theorem map_tree_opened (wf : d.WellFormed) (h : (d.tree m).Faithful) :
    (d.opened m).map d.tree = (d.tree m).contribution := by
  rw [opened, Tree.contribution, kind_tree wf]
  split_ifs with document
  · have visible : ∀ c ∈ d.children m, d.isVisible c := fun c hc => by
      have below := (h.of_mem_links wf c (List.mem_append_right _ hc)).visible
      rw [kind_tree wf] at below
      exact decide_eq_true below
    rw [List.filter_eq_self.2 visible, wf.tree_eq m]
    rfl
  · rfl

theorem mem_opened (wf : d.WellFormed) (h : c ∈ d.opened m) :
    c = m ∧ d.kind c ≠ .document ∨ d.kind m = .document ∧ d.parent? c = some m := by
  rw [opened] at h
  split_ifs at h with document
  · exact Or.inr ⟨document, wf.parent_of_mem_children (List.mem_of_mem_filter h)⟩
  · obtain rfl := List.mem_singleton.1 h
    exact Or.inl ⟨rfl, document⟩

/-- Above what a top contributes stands at most that top, and it is a document then. -/
theorem parent_of_mem_opened (wf : d.WellFormed) (top : d.Top m) (h : c ∈ d.opened m) {p : NodeId}
    (hp : d.parent? c = some p) : p = m ∧ d.kind m = .document := by
  rcases mem_opened wf h with ⟨rfl, -⟩ | ⟨document, parent⟩
  · rw [top.parent] at hp
    cases hp
  · rw [parent] at hp
    exact ⟨(Option.some.inj hp).symm, document⟩

end Document

theorem exists_of_forall₂ {α β : Type} {R : α → β → Prop} {l : List α} {l' : List β}
    (h : List.Forall₂ R l l') {a : α} (ha : a ∈ l) : ∃ b ∈ l', R a b := by
  induction h with
  | nil => cases ha
  | cons first _ ih =>
    rcases List.mem_cons.1 ha with rfl | ha
    · exact ⟨_, List.mem_cons_self, first⟩
    · obtain ⟨b, hb, related⟩ := ih ha
      exact ⟨b, List.mem_cons_of_mem _ hb, related⟩

/-! ## Content nodes -/

namespace Construction

/-- What is known of a content node that a pointer was turned into after the state `s₀`, as far as the
virtual tree of a top goes. -/
structure Supply (arena : Arena) (top : SilhouetteId) (s₀ s : Construction) (m : NodeId)
    (p : Pointer) : Prop where
  root : s.document.Top m
  own : s.memo.built? top = some m → p = .silhouette top
  tree : p = .silhouette top → (s.present arena top).Faithful →
    s.document.tree m = s.present arena top
  source : p = .silhouette top → s₀.document.Has m → s₀.memo.built? top = some m

/-- The update brings in what the nodes contribute that its pointers were turned into. -/
def Brings (arena : Arena) (top : SilhouetteId) (s₀ s : Construction) (v : Update NodeId)
    (u : Update Pointer) : Prop :=
  ∃ nodes, v.content = nodes.flatMap s.document.opened ∧
    List.Forall₂ (Supply arena top s₀ s) nodes u.content

variable {arena : Arena} {top : SilhouetteId} {s₀ s s' : Construction} {m : NodeId} {p : Pointer}

theorem Supply.mark (h : Supply arena top s₀ s m p) (used : List NodeId) :
    Supply arena top s₀ { s with used := used } m p :=
  ⟨h.root, h.own, h.tree, h.source⟩

theorem Supply.later (h : Supply arena top s₀ s m p) (later : Follows arena top s s') :
    Supply arena top s₀ s' m p where
  root := later.document.top h.root
  own built := h.own (later.old m built h.root.has)
  tree isTop faithful := by
    rw [later.present] at faithful ⊢
    rw [later.document.tree_eq h.root.has]
    exact h.tree isTop faithful
  source := h.source

theorem Supply.forall_later {nodes : List NodeId} {ps : List Pointer} (later : Follows arena top s s')
    (h : List.Forall₂ (Supply arena top s₀ s) nodes ps) :
    nodes.flatMap s'.document.opened = nodes.flatMap s.document.opened ∧
      List.Forall₂ (Supply arena top s₀ s') nodes ps := by
  refine ⟨List.flatMap_congr fun m hm => ?_, h.imp fun _ _ supply => supply.later later⟩
  obtain ⟨_, -, supply⟩ := exists_of_forall₂ h hm
  exact later.document.opened_eq supply.root.has

theorem Brings.later {v : Update NodeId} {u : Update Pointer} (h : Brings arena top s₀ s v u)
    (later : Follows arena top s s') : Brings arena top s₀ s' v u := by
  obtain ⟨nodes, content, supply⟩ := h
  obtain ⟨same, supply⟩ := Supply.forall_later later supply
  exact ⟨nodes, content.trans same.symm, supply⟩

end Construction

namespace Construct

open Construction

variable {arena : Arena} {setting : Setting} {top : SilhouetteId} {s₀ s s' : Construction} {m : NodeId}
  {p : Pointer}

/-- A copy shows what it was made from, and it is new. -/
theorem deepClone_supply {id : NodeId} (h : Follows arena top s₀ s)
    (shown : p = .silhouette top → s.memo.built? top = some id)
    (run : edit (Edit.deepClone id) s = .ok m s') :
    Follows arena top s₀ s' ∧ Supply arena top s₀ s' m p := by
  obtain ⟨d, clone, rfl⟩ := edit_ok run
  have wf := h.tracks.wellFormed
  obtain ⟨grown, fresh⟩ := (Edit.keeps_deepClone id).ok wf.extends_self clone
  have later : Follows arena top s { s with document := d } := h.tracks.extend grown
  refine ⟨h.trans later, Edit.top_of_deepClone wf clone, fun built => absurd (h.tracks.has built) fresh,
    fun isTop faithful => ?_, fun _ has => absurd (h.document.has has) fresh⟩
  rw [later.present, present_of_built (shown isTop)] at faithful ⊢
  obtain ⟨n, d', built, tree⟩ := faithful.buildsAsIs wf
  have clone : (s.document.tree id).build s.document = .ok m d := clone
  rw [clone] at built
  cases built
  exact tree

variable (copy : setting.copyInserted = true)
  (recorded : setting.arena.alone.Buildable (.silhouette top)) {chosen : List NodeId}

include copy recorded

theorem contentNode_supply (stock : Stock .empty chosen s) (h : Follows setting.arena top s₀ s)
    (run : contentNode setting p s = .ok m s') :
    Follows setting.arena top s₀ s' ∧ Supply setting.arena top s₀ s' m p := by
  revert run
  unfold contentNode
  cases plain : p.plainNode? with
  | some id =>
    rw [copy]
    intro run
    obtain ⟨n, s₁, clone, run⟩ := bind_ok run
    cases run
    obtain ⟨follows, supply⟩ := deepClone_supply h
      (fun isTop : p = .silhouette top => by rw [isTop] at plain; cases plain) clone
    exact ⟨follows.mark _, supply.mark _⟩
  | none =>
    intro run
    obtain ⟨built, s₁, materialized, run⟩ := bind_ok run
    obtain ⟨-, -, has, -⟩ := materialize_ok stock plain materialized
    have follows := (((lasts_follows recorded).keeps_materialize p).ok h materialized).1
    have shown : p = .silhouette top → s₁.memo.built? top = some built := fun isTop =>
      built?_of_materialize (isTop ▸ materialized)
    obtain ⟨_, _, got, run⟩ := bind_ok run
    cases got
    split_ifs at run with taken
    · obtain ⟨n, s₂, clone, run⟩ := bind_ok run
      cases run
      obtain ⟨follows, supply⟩ := deepClone_supply follows shown clone
      exact ⟨follows.mark _, supply.mark _⟩
    · cases run
      simp only [not_or, Option.not_isSome_iff_eq_none] at taken
      exact ⟨follows.mark _, ⟨has, taken.1⟩,
        fun remembered => h.tracks.eq_silhouette follows.tracks plain materialized remembered taken.1,
        fun isTop _ => (present_of_built (shown isTop)).symm,
        fun isTop old => follows.old m (shown isTop) old⟩

theorem Supplied.supply {fits : Kind → Prop} {ps : List Pointer} {content : List NodeId}
    (supplied : Supplied setting fits ps content s s') (stock : Stock .empty chosen s)
    (h : Follows setting.arena top s₀ s) : Follows setting.arena top s₀ s' ∧
      ∃ nodes, content = nodes.flatMap s'.document.opened ∧
        List.Forall₂ (Supply setting.arena top s₀ s') nodes ps := by
  induction supplied generalizing chosen s₀ with
  | nil => exact ⟨h, [], rfl, .nil⟩
  | @cons p ps m content s s₁ s' first _ others ih =>
    obtain ⟨follows, supply⟩ := contentNode_supply copy recorded stock h first
    obtain ⟨stock, -, -, -⟩ := contentNode_ok stock copy first
    obtain ⟨later, -⟩ := ih stock follows.tracks.follows_self
    obtain ⟨follows, nodes, rfl, rest⟩ := ih stock follows
    refine ⟨follows, m :: nodes, ?_, .cons (supply.later later) rest⟩
    rw [List.flatMap_cons, later.document.opened_eq supply.root.has]

theorem mapM_prepare_brings {updates : List (Update Pointer)} {prepared : List (Update NodeId)}
    (stock : Stock .empty chosen s) (h : Follows setting.arena top s₀ s)
    (run : updates.mapM (prepare setting) s = .ok prepared s') : Follows setting.arena top s₀ s' ∧
      List.Forall₂ (fun v u => v.Realizes u ∧ Brings setting.arena top s₀ s' v u) prepared updates := by
  induction updates generalizing chosen s₀ s prepared with
  | nil =>
    cases run
    exact ⟨h, .nil⟩
  | cons u us ih =>
    rw [List.mapM_cons] at run
    obtain ⟨v, s₁, first, run⟩ := bind_ok run
    obtain ⟨vs, s₂, others, run⟩ := bind_ok run
    cases run
    obtain ⟨supplied, realizes, -⟩ := prepare_ok copy stock first
    obtain ⟨follows, brings⟩ := supplied.supply copy recorded stock h
    obtain ⟨stock, -, -⟩ := supplied.stock copy stock
    obtain ⟨later, -⟩ := ih stock follows.tracks.follows_self others
    obtain ⟨follows, rest⟩ := ih stock follows others
    exact ⟨follows, .cons ⟨realizes, Brings.later brings later⟩ rest⟩

end Construct

end VirtualTree
