import VirtualTree.Proofs.Update.Supply
import VirtualTree.Proofs.Update.Undisturbed

/-!
# Virtual trees inserted again and again

In the course of an evaluation one virtual tree may be content of many update lists.  What a list
inserts for it is the tree that is present, and that is the recorded tree as long as no list before
disturbed the built form (`Evaluate.inserted_as_recorded`).  Materializing never does.  A list does so
with a target in the built form, or by inserting a document, whose children then leave its built form
for good (`Evaluation.Spares`); to take the built form away from where it was inserted is no harm.
-/

namespace VirtualTree

open Document

instance {α : Type} : (a : Action α) → Decidable a.ChangesParent
  | .delete | .replaceNode _ => .isTrue trivial
  | .insert place _ => inferInstanceAs (Decidable (place = .before ∨ place = .after))
  | .insertAttributes _ | .rename _ | .replaceValue _ | .replaceElementContent _ | .put _ =>
    .isFalse id

theorem Action.changesParent_withContent {α β : Type} (a : Action α) (content : List β) :
    (a.withContent content).ChangesParent ↔ a.ChangesParent := by
  cases a <;> rfl

namespace Evaluation

/-- The list has no target at or below the built form of a top, but maybe to change the place at which
that stands. -/
def LeavesAlone (e : Evaluation) (top : SilhouetteId) (updates : List (Update Pointer)) : Prop :=
  ∀ n, e.memo.built? top = some n → ∀ u ∈ updates, ∀ id, u.target.plainNode? = some id →
    e.document.AtOrAbove id n → u.action.ChangesParent ∧ id = n

/-- The list leaves the built form of a top alone and does not take the children out of it. -/
structure Spares (e : Evaluation) (top : SilhouetteId) (updates : List (Update Pointer)) : Prop where
  leavesAlone : e.LeavesAlone top updates
  unopened : e.kind (.silhouette top) = .document → ∀ u ∈ updates, .silhouette top ∉ u.content

/-- An evaluation goes on from `e₀`: nodes are materialized, silhouettes are added, and update lists of
nodes of the document are applied with success, as far as they are allowed. -/
inductive Session (o : Options) (allowed : Evaluation → List (Update Pointer) → Prop)
    (e₀ : Evaluation) : Evaluation → Prop
  | start : Session o allowed e₀ e₀
  | call {e e' : Evaluation} (session : Session o allowed e₀ e) (call : e.Call e') :
      Session o allowed e₀ e'
  | applyUpdates {e e' : Evaluation} {updates : List (Update Pointer)}
      (session : Session o allowed e₀ e) (allow : allowed e updates)
      (targets : ∀ u ∈ updates, ∀ id, u.target.plainNode? = some id → e.document.Has id)
      (run : Evaluate.applyUpdates updates o e = .ok () e') : Session o allowed e₀ e'

variable {e₀ e e' : Evaluation} {o : Options} {updates : List (Update Pointer)} {top : SilhouetteId}

/-- Whether a list leaves a built form alone can be found out by going up from its targets. -/
theorem leavesAlone_iff (wf : e.document.WellFormed)
    (targets : ∀ u ∈ updates, ∀ id, u.target.plainNode? = some id → e.document.Has id) :
    e.LeavesAlone top updates ↔ ∀ n ∈ e.memo.built? top, ∀ u ∈ updates, ∀ id ∈ u.target.plainNode?,
      n ∈ e.document.ancestorsOrSelf id → u.action.ChangesParent ∧ id = n := by
  refine forall₂_congr fun n _ => forall₂_congr fun u hu => forall₂_congr fun id plain => ?_
  rw [wf.mem_ancestorsOrSelf (targets u hu id plain)]

/-! ## One application -/

section Application

variable {prepared : List (Update NodeId)} {s : Construction} {d : Document}

/-- What the preparation of a list gives for one virtual tree. -/
theorem Tracks.prepareAll (h : e.Tracks top) (copy : o.copyInsertedContent = true)
    (run : e.prepareAll o updates = .ok prepared s) :
    Construction.Follows e.arena top ⟨e.document, e.memo, []⟩ s ∧
      List.Forall₂ (fun v u => v.Realizes u ∧
        Construction.Brings e.arena top ⟨e.document, e.memo, []⟩ s v u) prepared updates :=
  Construct.mapM_prepare_brings (show (e.setting o).copyInserted = true from copy) h.recorded
    (.restart h.construction.wellFormed h.construction.memo) h.construction.follows_self run

variable (follows : Construction.Follows e.arena top ⟨e.document, e.memo, []⟩ s)
  (brings : List.Forall₂ (fun v u => v.Realizes u ∧
    Construction.Brings e.arena top ⟨e.document, e.memo, []⟩ s v u) prepared updates)

include follows brings

/-- What is taken out of a tree is taken out of a document on its top, which was chosen to be opened. -/
theorem opened_of_moved {v : Update NodeId} (hv : v ∈ prepared) {c p t : NodeId} (hc : c ∈ v.content)
    (hp : s.document.parent? c = some p) (below : s.document.AtOrAbove p t) :
    s.document.kind t = .document ∧ ∃ u ∈ updates, ∃ q ∈ u.content,
      Construction.Supply e.arena top ⟨e.document, e.memo, []⟩ s t q := by
  obtain ⟨u, hu, -, nodes, content, supplies⟩ := exists_of_forall₂ brings hv
  rw [content, List.mem_flatMap] at hc
  obtain ⟨m, hm, hc⟩ := hc
  obtain ⟨q, hq, supply⟩ := exists_of_forall₂ supplies hm
  obtain ⟨rfl, document⟩ := parent_of_mem_opened follows.tracks.wellFormed supply.root hc hp
  obtain rfl := supply.root.eq_of_atOrAbove below
  exact ⟨document, u, hu, q, hq, supply⟩

variable (targets : ∀ u ∈ updates, ∀ id, u.target.plainNode? = some id → e.document.Has id)
  (alone : e.LeavesAlone top updates)

include targets alone

/-- A target below an earlier node was there and below it earlier, so it is asked to leave it alone. -/
theorem target_of_leavesAlone {v : Update NodeId} (hv : v ∈ prepared) {n : NodeId}
    (built : e.document.Has n → e.memo.built? top = some n)
    (below : s.document.AtOrAbove v.target n) : v.action.ChangesParent ∧ v.target = n := by
  obtain ⟨u, hu, realizes, -⟩ := exists_of_forall₂ brings hv
  have has := targets u hu v.target realizes.target
  have built := built (follows.document.inside_of_atOrAbove has below)
  rw [realizes.action, Action.changesParent_withContent]
  exact alone n built u hu v.target realizes.target
    ((follows.document.atOrAbove_iff_of_has has).1 below)

/-- The built form is as before, if it is not a document that is opened. -/
theorem tree_built_of_carryOutAll {n : NodeId} (built : s.memo.built? top = some n)
    (unopened : s.document.kind n = .document → ∀ u ∈ updates, .silhouette top ∉ u.content)
    (run : Edit.carryOutAll (inStages prepared) s.document = .ok () d) :
    d.tree n = s.document.tree n := by
  have wf := follows.tracks.wellFormed
  refine Edit.tree_eq_of_carryOutAll wf (follows.tracks.has built) (fun v hv below => ?_)
    (fun v hv c hc p hp below => ?_) run
  · exact target_of_leavesAlone follows brings targets alone (mem_inStages.1 hv)
      (follows.old n built) below
  · obtain ⟨document, u, hu, q, hq, supply⟩ := opened_of_moved follows brings (mem_inStages.1 hv) hc hp
      below
    exact unopened document u hu (supply.own built ▸ hq)

/-- What the content node of a top contributes stays as it was prepared. -/
theorem tree_content_of_carryOutAll {m c : NodeId}
    (supply : Construction.Supply e.arena top ⟨e.document, e.memo, []⟩ s m (.silhouette top))
    (hc : c ∈ s.document.opened m)
    (run : Edit.carryOutAll (inStages prepared) s.document = .ok () d) :
    d.tree c = s.document.tree c := by
  have wf := follows.tracks.wellFormed
  have source := supply.source rfl
  rcases mem_opened wf hc with ⟨rfl, notDocument⟩ | ⟨document, parent⟩
  · refine Edit.tree_eq_of_carryOutAll wf supply.root.has (fun v hv below => ?_)
      (fun v hv c' hc' p hp below => ?_) run
    · exact target_of_leavesAlone follows brings targets alone (mem_inStages.1 hv) source below
    · exact notDocument (opened_of_moved follows brings (mem_inStages.1 hv) hc' hp below).1
  · have up : s.document.AtOrAbove c m := .head parent (.refl m)
    refine Edit.tree_eq_of_carryOutAll wf (has_of_parent parent) (fun v hv below => ?_)
      (fun v hv c' hc' p hp below => ?_) run
    · obtain ⟨-, eq⟩ := target_of_leavesAlone follows brings targets alone (mem_inStages.1 hv) source
        (below.trans up)
      exact absurd (eq ▸ below) (wf.not_atOrAbove_parent parent)
    · -- the node has a parent and cannot be opened itself
      obtain ⟨-, _, -, _, -, supply'⟩ :=
        opened_of_moved follows brings (mem_inStages.1 hv) hc' hp below
      rw [supply'.root.parent] at parent
      cases parent

end Application

/-- A list that spares a recorded tree leaves it present. -/
theorem Tracks.applyUpdates (h : e.Tracks top) (copy : o.copyInsertedContent = true)
    (targets : ∀ u ∈ updates, ∀ id, u.target.plainNode? = some id → e.document.Has id)
    (run : Evaluate.applyUpdates updates o e = .ok () e') : e'.Tracks top ∧
      (e.Spares top updates → e.present top = e.arena.alone.tree (.silhouette top) →
        e'.present top = e.present top) := by
  obtain ⟨-, prepared, s, d, prepare, carryOut, rfl⟩ := Evaluate.applyUpdates_ok run
  obtain ⟨follows, brings⟩ := h.prepareAll copy prepare
  obtain ⟨wf, size⟩ := Edit.wellFormed_of_carryOutAll follows.tracks.wellFormed carryOut
  have memo : ∀ entry ∈ s.memo.entries, d.Has entry.2 := fun entry mem =>
    (follows.tracks.memo entry mem).trans_le size
  refine ⟨⟨⟨wf, memo, follows.tracks.sole⟩, h.recorded⟩, fun spares recorded => ?_⟩
  refine Eq.trans ?_ follows.present
  show (⟨d, s.memo, []⟩ : Construction).present e.arena top = _
  rw [Construction.present, Construction.present]
  cases built : s.memo.built? top with
  | none => rfl
  | some n =>
    refine tree_built_of_carryOutAll follows brings targets spares.leavesAlone built (fun document => ?_)
      carryOut
    have tree : s.document.tree n = e.arena.alone.tree (.silhouette top) := by
      rw [← recorded, ← Construction.present_of_built built]
      exact follows.present
    refine spares.unopened ?_
    rw [← document, ← kind_tree follows.tracks.wellFormed, tree, Forest.tree_silhouette]
    rfl

/-! ## Sessions -/

namespace Session

variable {allowed : Evaluation → List (Update Pointer) → Prop}
  (session : e₀.Session o allowed e) (copy : o.copyInsertedContent = true)

include session

theorem arena_extends : e₀.arena.Extends e.arena := by
  induction session with
  | start => exact .refl _
  | call _ call ih => exact ih.trans call.arena
  | applyUpdates _ _ _ run ih =>
    obtain ⟨-, prepared, s, d, -, -, rfl⟩ := Evaluate.applyUpdates_ok run
    exact ih

include copy

theorem tracks (start : e₀.Tracks top) : e.Tracks top := by
  induction session with
  | start => exact start
  | call _ call ih => exact (ih.call call).1
  | applyUpdates _ _ targets run ih => exact (ih.applyUpdates copy targets run).1

/-- The recorded tree is present at all times, if every list spares it. -/
theorem present_eq (start : e₀.Tracks top) (new : e₀.memo.built? top = none)
    (spares : ∀ e updates, allowed e updates → e.Spares top updates) :
    e.present top = e₀.arena.alone.tree (.silhouette top) := by
  induction session with
  | start => exact Construction.present_of_new new
  | call session call ih => exact ((session.tracks copy start).call call).2.trans ih
  | applyUpdates session allow targets run ih =>
    have recorded := start.recorded.tree_eq (session.arena_extends.grows_alone wellFormed_empty)
    exact (((session.tracks copy start).applyUpdates copy targets run).2 (spares _ _ allow)
      (ih.trans recorded.symm)).trans ih

end Session

end Evaluation

namespace Evaluate

open Evaluation

variable {e₀ e e' : Evaluation} {o : Options} {updates : List (Update Pointer)} {top : SilhouetteId}
  {allowed : Evaluation → List (Update Pointer) → Prop}

/-- Whatever happened before, a list inserts for a virtual tree what is present of it, and that is the
recorded tree if all lists before spared it. -/
theorem inserted_as_recorded (wf : e₀.document.WellFormed)
    (memo : ∀ entry ∈ e₀.memo.entries, e₀.document.Has entry.2)
    (recorded : e₀.arena.alone.Buildable (.silhouette top)) (new : e₀.memo.built? top = none)
    (copy : o.copyInsertedContent = true) (session : e₀.Session o allowed e)
    (targets : ∀ u ∈ updates, ∀ id, u.target.plainNode? = some id → e.document.Has id)
    (run : applyUpdates updates o e = .ok () e') :
    ∃ prepared s, e.prepareAll o updates = .ok prepared s ∧
      Edit.carryOutAll (inStages prepared) s.document = .ok () e'.document ∧
      List.Forall₂ (fun v u => v.Realizes u ∧ ∃ nodes, v.content = nodes.flatMap s.document.opened ∧
        List.Forall₂ (fun m p => p = .silhouette top →
          ((e.present top).Faithful →
            (s.document.opened m).map s.document.tree = (e.present top).contribution) ∧
          ((∀ e updates, allowed e updates → e.Spares top updates) → e.LeavesAlone top updates →
            (s.document.opened m).map e'.document.tree =
              (e₀.arena.alone.tree (.silhouette top)).contribution)) nodes u.content)
        prepared updates := by
  have sole : ∀ n top', e₀.memo.built? top = some n → e₀.memo.built? top' = some n → top' = top :=
    fun n _ built => by
      rw [new] at built
      cases built
  have start : e₀.Tracks top := ⟨⟨wf, memo, sole⟩, recorded⟩
  have tracks := session.tracks copy start
  obtain ⟨-, prepared, s, d, prepare, carryOut, rfl⟩ := applyUpdates_ok run
  obtain ⟨follows, brings⟩ := tracks.prepareAll copy prepare
  refine ⟨prepared, s, prepare, carryOut, brings.imp fun v u ⟨realizes, nodes, content, supplies⟩ =>
    ⟨realizes, nodes, content, supplies.imp fun m p supply => ?_⟩⟩
  rintro rfl
  have prepared_tree (faithful : (e.present top).Faithful) :
      (s.document.opened m).map s.document.tree = (e.present top).contribution := by
    have tree : s.document.tree m = e.present top :=
      (supply.tree rfl (follows.present ▸ faithful)).trans follows.present
    rw [← tree] at faithful ⊢
    exact map_tree_opened follows.tracks.wellFormed faithful
  refine ⟨prepared_tree, fun spares alone => ?_⟩
  have present := session.present_eq copy start new spares
  rw [← present, ← prepared_tree (present ▸ Arena.faithful_of_buildable recorded)]
  exact List.map_congr_left fun c hc =>
    tree_content_of_carryOutAll follows brings targets alone supply hc carryOut

/-- An element is inserted twice by one list; the next list deletes its built form and renames the copy;
and yet the last list inserts it as it was recorded. -/
theorem inserted_after_deletion :
    let a := Arena.empty.alloc (.text "t") nofun
    let b := a.2.alloc (.element (.unqualified "a") [] [.silhouette a.1]) (by decide)
    let t : Tree := .leaf (.element (.unqualified "e"))
    let e₀ : Evaluation := { Evaluation.start (holding t) with arena := b.2 }
    let first : List (Update Pointer) :=
      [⟨.real ⟨0⟩, .insert .into [.silhouette b.1, .silhouette b.1]⟩]
    let second : List (Update Pointer) :=
      [⟨.real ⟨1⟩, .delete⟩, ⟨.real ⟨3⟩, .rename (.unqualified "c")⟩]
    let third : List (Update Pointer) := [⟨.real ⟨0⟩, .insert .intoAsFirst [.silhouette b.1]⟩]
    let e₁ := endState (applyUpdates first {} e₀)
    let e₂ := endState (applyUpdates second {} e₁)
    let e₃ := endState (applyUpdates third {} e₂)
    e₀.Session {} (fun e updates => e.Spares b.1 updates) e₂ ∧
      e₂.document.toXml ⟨0⟩ = "<e><c>t</c></e>" ∧
      applyUpdates third {} e₂ = .ok () e₃ ∧ e₃.document.toXml ⟨0⟩ = "<e><a>t</a><c>t</c></e>" ∧
      ∃ v s m, e₂.prepareAll {} third = .ok [v] s ∧ v.content = s.document.opened m ∧
        (s.document.opened m).map e₃.document.tree =
          (e₀.arena.alone.tree (.silhouette b.1)).contribution := by
  intro a b t e₀ first second third e₁ e₂ e₃
  have wf : e₀.document.WellFormed := wellFormed_holding t
  have recorded : e₀.arena.alone.Buildable (.silhouette b.1) := by
    refine .silhouette _ (by decide) nofun .nil nofun (by decide +kernel) ?_
    exact List.forall_mem_singleton.2 fun _ =>
      .silhouette _ (by decide) nofun .nil nofun nofun nofun
  have run₁ : applyUpdates first {} e₀ = .ok () e₁ := ok_endState (by decide +kernel)
  have run₂ : applyUpdates second {} e₁ = .ok () e₂ := ok_endState (by decide +kernel)
  have run₃ : applyUpdates third {} e₂ = .ok () e₃ := ok_endState (by decide +kernel)
  have start : e₀.Tracks b.1 := ⟨⟨wf, nofun, nofun⟩, recorded⟩
  have alone₁ : e₀.LeavesAlone b.1 first :=
    (leavesAlone_iff wf (targets_of_all (by decide +kernel))).2 (by decide +kernel)
  have session₁ : e₀.Session {} (fun e updates => e.Spares b.1 updates) e₁ :=
    .applyUpdates .start ⟨alone₁, fun isDocument => absurd isDocument (by decide +kernel)⟩
      (targets_of_all (by decide +kernel)) run₁
  have alone₂ : e₁.LeavesAlone b.1 second :=
    (leavesAlone_iff (session₁.tracks rfl start).construction.wellFormed
      (targets_of_all (by decide +kernel))).2 (by decide +kernel)
  have session₂ : e₀.Session {} (fun e updates => e.Spares b.1 updates) e₂ :=
    .applyUpdates session₁ ⟨alone₂, fun isDocument => absurd isDocument (by decide +kernel)⟩
      (targets_of_all (by decide +kernel)) run₂
  have alone₃ : e₂.LeavesAlone b.1 third :=
    (leavesAlone_iff (session₂.tracks rfl start).construction.wellFormed
      (targets_of_all (by decide +kernel))).2 (by decide +kernel)
  obtain ⟨prepared, s, prepare, -, inserted⟩ := inserted_as_recorded wf nofun recorded rfl rfl session₂
    (targets_of_all (by decide +kernel)) run₃
  obtain ⟨v, _, ⟨-, nodes, content, trees⟩, rest, rfl⟩ := List.forall₂_cons_right_iff.1 inserted
  cases rest
  obtain ⟨m, _, tree, rest, rfl⟩ := List.forall₂_cons_right_iff.1 trees
  cases rest
  refine ⟨session₂, by decide +kernel, run₃, by decide +kernel, v, s, m, prepare, ?_,
    (tree rfl).2 (fun _ _ => id) alone₃⟩
  rw [content, List.flatMap_singleton]

/-- A document is inserted by two lists.  The first takes the children out of its built form, and the
second finds none there. -/
theorem nothing_inserted_after_opening :
    let a := Arena.empty.alloc (.element (.unqualified "a") [] []) nofun
    let b := a.2.alloc (.document [.silhouette a.1]) (by decide)
    let t : Tree := .leaf (.element (.unqualified "e"))
    let e₀ : Evaluation := { Evaluation.start (holding t) with arena := b.2 }
    let updates : List (Update Pointer) := [⟨.real ⟨0⟩, .insert .into [.silhouette b.1]⟩]
    let e₁ := endState (applyUpdates updates {} e₀)
    let e₂ := endState (applyUpdates updates {} e₁)
    e₀.document.WellFormed ∧ e₀.arena.alone.Buildable (.silhouette b.1) ∧
      applyUpdates updates {} e₀ = .ok () e₁ ∧ applyUpdates updates {} e₁ = .ok () e₂ ∧
      (e₀.arena.alone.tree (.silhouette b.1)).contribution.map Tree.toXml = ["<a/>"] ∧
      e₁.document.toXml ⟨0⟩ = "<e><a/></e>" ∧
      e₂.document.children ⟨0⟩ = e₁.document.children ⟨0⟩ ∧ e₂.document.toXml ⟨0⟩ = "<e><a/></e>" := by
  intro a b t e₀ updates e₁ e₂
  have recorded : e₀.arena.alone.Buildable (.silhouette b.1) := by
    refine .silhouette _ (by decide) nofun .nil nofun (by decide +kernel) ?_
    exact List.forall_mem_singleton.2 fun _ =>
      .silhouette _ (by decide) nofun .nil nofun nofun nofun
  exact ⟨wellFormed_holding t, recorded, ok_endState (by decide +kernel),
    ok_endState (by decide +kernel), by decide +kernel, by decide +kernel, by decide +kernel,
    by decide +kernel⟩

end Evaluate

end VirtualTree
