import VirtualTree.Proofs.Materialization.Session

/-!
# What is there of a virtual tree

A virtual tree without nodes of a document in it is recorded in the arena alone, and it can be built
from there at any time.  But once it was built, its built form is what the memo leads to, and that is
a node like any other: what it shows is the tree that is present (`Construction.present`).  While nodes
are only added, the present tree stays the same, and no other virtual tree comes to share its built
form (`Construction.Follows`).
-/

namespace VirtualTree

open Document

/-! ## Recorded trees -/

namespace Arena

/-- The silhouettes on their own, beside a document without nodes.  A virtual tree that can be built
there has no node of a document in it. -/
def alone (a : Arena) : Forest := ⟨.empty, a⟩

theorem Extends.grows_alone {a b : Arena} (h : a.Extends b) {d : Document} (wf : d.WellFormed) :
    a.alone.Grows ⟨d, b⟩ :=
  ⟨extends_empty_iff.2 wf, h⟩

variable {a b : Arena} {top : SilhouetteId} {r : NodeRef}

theorem not_buildable_real (id : NodeId) : ¬ a.alone.Buildable (.real id) := fun h => by
  cases h with
  | real _ has => exact not_has_empty id has

theorem faithful_of_buildable (h : a.alone.Buildable (.silhouette top)) :
    (a.alone.tree (.silhouette top)).Faithful :=
  h.faithful wellFormed_empty (.of_nodes fun _ none => absurd none (Nat.not_lt_zero _))
    fun _ eq => by cases eq

/-- What is recorded can be built in every document. -/
theorem build_of_buildable (h : a.alone.Buildable (.silhouette top)) {d : Document}
    (wf : d.WellFormed) : ∃ n d', ((⟨d, a⟩ : Forest).tree (.silhouette top)).build d = .ok n d' ∧
      d'.tree n = a.alone.tree (.silhouette top) := by
  rw [h.tree_eq ((Extends.refl a).grows_alone wf)]
  exact (faithful_of_buildable h).buildsAsIs wf

/-- What is recorded stays recorded while silhouettes are added. -/
theorem Extends.buildable (h : a.Extends b) (hr : a.alone.Buildable r) : b.alone.Buildable r := by
  have grows : a.alone.Grows b.alone := h.grows_alone wellFormed_empty
  induction hr with
  | real id has copies => exact absurd (.real id has copies) (not_buildable_real id)
  | silhouette id has isAttribute distinct attributes isChild children sameAttributes sameChildren =>
    have get : b.get id = a.get id := h.get_eq id has
    have visible : ∀ r, a.alone.isVisible r := fun r => Decidable.by_contra fun hidden => by
      obtain ⟨id, -, has⟩ := Forest.has_of_hidden hidden
      exact not_has_empty id has
    have label {r : NodeRef} (hr : a.alone.Buildable r) : b.alone.label r = a.alone.label r :=
      hr.label_eq grows
    have kind {r : NodeRef} (hr : a.alone.Buildable r) : b.alone.kind r = a.alone.kind r :=
      congrArg Label.kind (label hr)
    refine .silhouette id (has.trans_le h.size_le) ?_ ?_ ?_ ?_ ?_ <;> rw [alone, get]
    · exact fun r hr => (kind (attributes r hr)).trans (isAttribute r hr)
    · refine distinct.imp_of_mem fun {r r'} hr hr' apart => ?_
      have name {r : NodeRef} (hr : r ∈ (a.get id).attributes) : b.alone.name? r = a.alone.name? r :=
        congrArg Label.name? (label (attributes r hr))
      show ∀ n ∈ b.alone.name? r, ∀ m ∈ b.alone.name? r', _
      rw [name hr, name hr']
      exact apart
    · exact sameAttributes
    · intro r hr
      show b.alone.kind r ≠ _ ∧ b.alone.kind r ≠ _
      rw [kind (children r hr (visible r))]
      exact isChild r hr
    · exact fun r hr _ => sameChildren r hr (visible r)

end Arena

/-! ## Present trees -/

namespace Construction

/-- The tree of the built form of a top, or the recorded tree if there is none. -/
def present (s : Construction) (arena : Arena) (top : SilhouetteId) : Tree :=
  match s.memo.built? top with
  | some n => s.document.tree n
  | none => arena.alone.tree (.silhouette top)

/-- The memo leads to nodes of the document, and to the built form of a top for no other top. -/
structure Tracks (top : SilhouetteId) (s : Construction) : Prop where
  wellFormed : s.document.WellFormed
  memo : ∀ entry ∈ s.memo.entries, s.document.Has entry.2
  sole : ∀ n top', s.memo.built? top = some n → s.memo.built? top' = some n → top' = top

/-- The later of two states between which nodes were only added. -/
structure Follows (arena : Arena) (top : SilhouetteId) (s s' : Construction) : Prop where
  tracks : s'.Tracks top
  document : s.document.Extends s'.document
  old : ∀ n, s'.memo.built? top = some n → s.document.Has n → s.memo.built? top = some n
  present : s'.present arena top = s.present arena top

variable {arena : Arena} {top : SilhouetteId} {s s' s'' : Construction}

theorem present_of_built {n : NodeId} (h : s.memo.built? top = some n) :
    s.present arena top = s.document.tree n := by
  rw [present, h]

theorem present_of_new (h : s.memo.built? top = none) :
    s.present arena top = arena.alone.tree (.silhouette top) := by
  rw [present, h]

theorem Tracks.has (h : s.Tracks top) {top' : SilhouetteId} {n : NodeId}
    (built : s.memo.built? top' = some n) : s.document.Has n :=
  h.memo _ (Memo.mem_of_built? built)

theorem Tracks.follows_self (h : s.Tracks top) : Follows arena top s s :=
  ⟨h, h.wellFormed.extends_self, fun _ built _ => built, rfl⟩

namespace Follows

theorem trans (h : Follows arena top s s') (h' : Follows arena top s' s'') :
    Follows arena top s s'' where
  tracks := h'.tracks
  document := h.document.trans h'.document
  old n built has := h.old n (h'.old n built (h.document.has has)) has
  present := h'.present.trans h.present

/-- The nodes marked as used make no difference. -/
theorem mark (h : Follows arena top s s') (used : List NodeId) :
    Follows arena top s { s' with used := used } :=
  ⟨⟨h.tracks.wellFormed, h.tracks.memo, h.tracks.sole⟩, h.document, h.old, h.present⟩

end Follows

theorem Tracks.extend (h : s.Tracks top) {d : Document} (grown : s.document.Extends d) :
    Follows arena top s { s with document := d } where
  tracks := ⟨grown.wellFormed, fun entry mem => grown.has (h.memo entry mem), h.sole⟩
  document := grown
  old _ built _ := built
  present := by
    rw [present, present]
    cases built : s.memo.built? top with
    | none => rfl
    | some n => exact grown.tree_eq (h.has built)

theorem Tracks.remember (h : s.Tracks top) (recorded : arena.alone.Buildable (.silhouette top))
    {top' : SilhouetteId} {n : NodeId} {d : Document} (new : s.memo.built? top' = none)
    (run : ((⟨s.document, arena⟩ : Forest).tree (.silhouette top')).build s.document = .ok n d) :
    Follows arena top s { s with document := d, memo := s.memo.insert top' n } := by
  obtain ⟨grown, fresh⟩ := (Tree.keeps_build _).ok h.wellFormed.extends_self run
  have other {t : SilhouetteId} {m : NodeId} (built : s.memo.built? t = some m) : m ≠ n := fun eq =>
    fresh (eq ▸ h.has built)
  have later : Follows arena top s { s with document := d } := h.extend grown
  refine ⟨⟨grown.wellFormed, fun entry mem => ?_, fun m t built built' => ?_⟩, grown,
    fun m built has => ?_, ?_⟩
  · rcases List.mem_cons.1 mem with rfl | mem
    · exact (Tree.top_of_build h.wellFormed run).has
    · exact later.tracks.memo entry mem
  · rw [Memo.built?_insert] at built built'
    split_ifs at built built' with same same' same'
    · rw [same, same']
    · exact absurd (Option.some.inj built).symm (other built')
    · exact absurd (Option.some.inj built').symm (other built)
    · exact h.sole m t built built'
  · rw [Memo.built?_insert] at built
    split_ifs at built
    · exact absurd (Option.some.inj built ▸ has) fresh
    · exact built
  · by_cases same : top = top'
    · subst same
      obtain ⟨n', d', run', tree⟩ := Arena.build_of_buildable recorded h.wellFormed
      rw [run] at run'
      cases run'
      rw [present_of_new new, present_of_built ((Memo.built?_insert _ _ _ _).trans (if_pos rfl)), tree]
    · rw [← later.present, present, present, Memo.built?_insert, if_neg same]

/-- Building virtual trees adds nodes only, whether it succeeds or fails. -/
theorem lasts_follows (recorded : arena.alone.Buildable (.silhouette top)) :
    Construct.Lasts arena (Follows arena top s) where
  wellFormed _ h := h.tracks.wellFormed
  extend _ _ h grown := h.trans (h.tracks.extend grown)
  remember _ _ _ _ h new run := h.trans (h.tracks.remember recorded new run)

end Construction

/-! ## The way to the built form -/

theorem Forest.eq_silhouette_of_descent {f : Forest} {n : ℕ} {p : Pointer} {top : SilhouetteId}
    (run : f.descent n p = .ok (top, [])) : p = .silhouette top := by
  obtain ⟨node, _ | ⟨g, up⟩⟩ := p
  · cases node <;> cases n <;> cases run <;> rfl
  · cases n with
    | zero => cases node <;> cases run
    | succ n =>
      rw [descent] at run
      obtain ⟨q?, -, run⟩ := ok_of_bind run
      cases q? with
      | none => cases run
      | some q =>
        obtain ⟨r, -, run⟩ := ok_of_bind run
        have slots : r.2 ++ [f.builtSlot g] = [] := congrArg Prod.snd (Except.ok.inj run)
        exact absurd slots (List.append_ne_nil_of_right_ne_nil _ (List.cons_ne_nil _ _))

namespace Construct

variable {arena : Arena} {top : SilhouetteId} {s s' : Construction} {n : NodeId}

theorem built?_of_builtTop (run : builtTop arena top s = .ok n s') : s'.memo.built? top = some n := by
  cases built : s.memo.built? top with
  | some t =>
    rw [builtTop_of_built built] at run
    cases run
    exact built
  | none =>
    rw [builtTop_of_new built] at run
    split at run
    · cases run
      exact (Memo.built?_insert _ _ _ _).trans (if_pos rfl)
    · cases run

/-- What a pointer into a virtual tree becomes is found from the built form of the top. -/
theorem follow_of_materialize {id : SilhouetteId} {graft : List GraftPoint}
    (run : materialize arena ⟨.silhouette id, graft⟩ s = .ok n s') :
    ∃ top' slots root, (⟨s.document, arena⟩ : Forest).descent graft.length ⟨.silhouette id, graft⟩ =
      .ok (top', slots) ∧ s'.memo.built? top' = some root ∧ s'.document.follow root slots = .ok n := by
  obtain ⟨_, _, seen, run⟩ := bind_ok run
  cases seen
  obtain ⟨⟨top', slots⟩, s₁, descended, run⟩ := bind_ok run
  obtain ⟨way, rfl⟩ := ofExcept_ok descended
  obtain ⟨root, s₂, built, run⟩ := bind_ok run
  obtain ⟨_, _, seen, run⟩ := bind_ok run
  cases seen
  obtain ⟨followed, rfl⟩ := ofExcept_ok run
  exact ⟨top', slots, root, way, built?_of_builtTop built, followed⟩

theorem built?_of_materialize (run : materialize arena (.silhouette top) s = .ok n s') :
    s'.memo.built? top = some n := by
  obtain ⟨top', slots, root, descended, built, followed⟩ := follow_of_materialize run
  cases descended
  cases followed
  exact built

end Construct

/-- Only the pointer to the top leads to its built form, while that stands nowhere else. -/
theorem Construction.Tracks.eq_silhouette {arena : Arena} {top : SilhouetteId} {s s' : Construction}
    {p : Pointer} {n : NodeId} (before : s.Tracks top) (after : s'.Tracks top)
    (virtual : p.plainNode? = none) (run : Construct.materialize arena p s = .ok n s')
    (built : s'.memo.built? top = some n) (root : s'.document.parent? n = none) :
    p = .silhouette top := by
  obtain ⟨node, graft⟩ := p
  cases node with
  | real id =>
    cases graft with
    | nil => cases virtual
    | cons g up =>
      obtain ⟨d, clone, rfl⟩ := Construct.edit_ok run
      have fresh := ((Edit.keeps_deepClone id).ok before.wellFormed.extends_self clone).2
      exact absurd (before.has built) fresh
  | silhouette id =>
    obtain ⟨top', slots, root', descended, built', followed⟩ := Construct.follow_of_materialize run
    rcases eq_or_parent_of_follow after.wellFormed followed with rfl | ⟨q, hq⟩
    · cases followed
      obtain rfl := after.sole n top' built built'
      exact Forest.eq_silhouette_of_descent descended
    · rw [root] at hq
      cases hq

namespace Evaluation

/-- The tree that is present for a top. -/
def present (e : Evaluation) (top : SilhouetteId) : Tree :=
  (⟨e.document, e.memo, []⟩ : Construction).present e.arena top

/-- The tree of the top is recorded, and its built form is its own. -/
structure Tracks (e : Evaluation) (top : SilhouetteId) : Prop where
  construction : (⟨e.document, e.memo, []⟩ : Construction).Tracks top
  recorded : e.arena.alone.Buildable (.silhouette top)

variable {e e' : Evaluation} {top : SilhouetteId}

/-- No call changes what is present. -/
theorem Tracks.call (h : e.Tracks top) (call : e.Call e') :
    e'.Tracks top ∧ e'.present top = e.present top := by
  cases call with
  | materialize o p =>
    have follows := ((Construction.lasts_follows h.recorded).keeps_materialize p).endState
      h.construction.follows_self
    have ends : endState (Evaluate.materialize p o e) = _ :=
      Evaluate.endState_construct (.materialize e.arena p) o e
    rw [ends]
    exact ⟨⟨(follows.mark []).tracks, h.recorded⟩, (follows.mark []).present⟩
  | aside document memo arena =>
    refine ⟨⟨?_, arena.buildable h.recorded⟩, ?_⟩
    · rw [document, memo]
      exact h.construction
    · rw [present, present, document, memo, Construction.present, Construction.present,
        Arena.alone, h.recorded.tree_eq (arena.grows_alone wellFormed_empty)]

end Evaluation

end VirtualTree
