import VirtualTree.Evaluation
import VirtualTree.Proofs.Materialization
import VirtualTree.Proofs.Materialization.Buildable

/-!
# Runs of materializations

While nodes are materialized and nothing else happens to the document and the memo, what was built
stays: `Since` says that the document has only grown, that the memo still holds what it held, that a
tree that was new and could be built at the start is remembered as it was then, if it is remembered,
and that no two such trees share a node.  Every call keeps this (`Since.call`), whether it succeeds or
fails, so every run does (`since_of_run`).
-/

namespace VirtualTree

open Document

/-- A computation that builds nodes changes the document and the memo only. -/
theorem Evaluate.endState_construct {α : Type} (m : Construct α) (o : Options) (e : Evaluation) :
    endState (construct m o e) = { e with
      document := (endState (m ⟨e.document, e.memo, []⟩)).document
      memo := (endState (m ⟨e.document, e.memo, []⟩)).memo } := by
  unfold construct
  cases m ⟨e.document, e.memo, []⟩ <;> rfl

namespace Evaluation

/-- What may happen between two states of an evaluation: a node is materialized, successfully or not, or
the document and the memo stay as they are while silhouettes are added. -/
inductive Call : Evaluation → Evaluation → Prop
  | materialize (e : Evaluation) (o : Options) (p : Pointer) :
    Call e (endState (Evaluate.materialize p o e))
  | aside {e e' : Evaluation} (document : e'.document = e.document) (memo : e'.memo = e.memo)
    (arena : e.arena.Extends e'.arena) : Call e e'

/-- Silhouettes may be added at any time. -/
theorem Call.alloc (e : Evaluation) (s : Silhouette) (h : ∀ r ∈ s.references, r.Below e.arena.size) :
    e.Call { e with arena := (e.arena.alloc s h).2 } :=
  .aside rfl rfl (e.arena.extends_alloc s h)

/-- Silhouettes never change. -/
theorem Call.arena {e e' : Evaluation} (call : e.Call e') : e.arena.Extends e'.arena := by
  cases call with
  | materialize o p =>
    have ends : endState (Evaluate.materialize p o e) = _ :=
      Evaluate.endState_construct (.materialize e.arena p) o e
    rw [ends]
    exact .refl _
  | aside _ _ arena => exact arena

/-- Any number of calls, one after the other. -/
def Run : Evaluation → Evaluation → Prop := Relation.ReflTransGen Call

/-- The tree of the silhouette can be built as it is and was not built yet. -/
structure Ready (e : Evaluation) (top : SilhouetteId) : Prop where
  buildable : e.Buildable (.silhouette top)
  faithful : (e.tree (.silhouette top)).Faithful
  new : e.memo.built? top = none

end Evaluation

/-- What was remembered at the start still is, and what was ready at the start is remembered as it was,
if it is remembered. -/
structure Construction.Since (base : Evaluation) (s : Construction) : Prop where
  document : base.document.Extends s.document
  kept : ∀ top t, base.memo.built? top = some t → s.memo.built? top = some t
  built : ∀ top t, base.Ready top → s.memo.built? top = some t →
    s.document.Top t ∧ s.document.tree t = base.tree (.silhouette top)
  apart : ∀ top top' t, base.Ready top → base.Ready top' → s.memo.built? top = some t →
    s.memo.built? top' = some t → top = top'

theorem Memo.built?_insert (m : Memo) (top top' : SilhouetteId) (n : NodeId) :
    (m.insert top n).built? top' = if top' = top then some n else m.built? top' := by
  rw [built?, insert, List.lookup_cons]
  by_cases h : top' = top
  · simp [h]
  · rw [if_neg h, beq_false_of_ne h]
    rfl

namespace Construction.Since

variable {base : Evaluation} {s : Construction}

theorem start (wf : base.document.WellFormed) :
    Since base ⟨base.document, base.memo, []⟩ where
  document := wf.extends_self
  kept _ _ built := built
  built top t ready built := by
    rw [ready.new] at built
    cases built
  apart top top' t ready _ built := by
    rw [ready.new] at built
    cases built

theorem unused (h : Since base s) {used : List NodeId} : Since base { s with used := used } :=
  ⟨h.document, h.kept, h.built, h.apart⟩

/-- What is added to the document changes nothing of what is remembered. -/
theorem extend (h : Since base s) {d : Document} (grown : s.document.Extends d) :
    Since base { s with document := d } where
  document := h.document.trans grown
  kept := h.kept
  built top t ready built := by
    obtain ⟨isTop, tree⟩ := h.built top t ready built
    exact ⟨grown.top isTop, (grown.tree_eq isTop.has).trans tree⟩
  apart := h.apart

/-- A tree that was just built may be remembered. -/
theorem remember (h : Since base s) {top : SilhouetteId} {t : NodeId} {d : Document}
    (new : s.memo.built? top = none) (grown : s.document.Extends d) (fresh : ¬ s.document.Has t)
    (isTop : d.Top t) (tree : base.Ready top → d.tree t = base.tree (.silhouette top)) :
    Since base { s with document := d, memo := s.memo.insert top t } := by
  have later := h.extend grown
  refine ⟨later.document, fun top' t' built => ?_, fun top' t' ready built => ?_,
    fun top₁ top₂ t' ready₁ ready₂ h₁ h₂ => ?_⟩
  · have built := h.kept top' t' built
    rw [Memo.built?_insert, if_neg fun eq => ?_]
    · exact built
    · rw [eq, new] at built
      cases built
  · rw [Memo.built?_insert] at built
    split_ifs at built with eq
    · obtain rfl := Option.some.inj built
      exact ⟨isTop, eq ▸ tree (eq ▸ ready)⟩
    · exact later.built top' t' ready built
  · have earlier {top' : SilhouetteId} (ready : base.Ready top') (built : s.memo.built? top' = some t') :
        t ≠ t' := fun eq => fresh (eq ▸ (h.built top' t' ready built).1.has)
    rw [Memo.built?_insert] at h₁ h₂
    split_ifs at h₁ h₂ with eq₁ eq₂ eq₂
    · rw [eq₁, eq₂]
    · exact absurd (Option.some.inj h₁) (earlier ready₂ h₂)
    · exact absurd (Option.some.inj h₂) (earlier ready₁ h₁)
    · exact h.apart top₁ top₂ t' ready₁ ready₂ h₁ h₂

end Construction.Since

namespace Construct

variable {base : Evaluation} {s : Construction} {arena : Arena} {top : SilhouetteId}

variable (grows : base.arena.Extends arena)

include grows

/-- The tree of a ready top is still as it was, and it is built as it is. -/
theorem build_ready (hs : Construction.Since base s) (ready : base.Ready top) :
    ∃ t d, ((⟨s.document, arena⟩ : Forest).tree (.silhouette top)).build s.document = .ok t d ∧
      d.tree t = base.tree (.silhouette top) := by
  have same : (⟨s.document, arena⟩ : Forest).tree (.silhouette top) = base.tree (.silhouette top) :=
    ready.buildable.tree_eq ⟨hs.document, grows⟩
  rw [same]
  exact ready.faithful.buildsAsIs hs.document.wellFormed

/-- What is remembered lasts while virtual trees are built. -/
theorem lasts_since : Lasts arena (Construction.Since base) where
  wellFormed _ h := h.document.wellFormed
  extend _ _ h grown := h.extend grown
  remember s top t d h new run := by
    have wf := h.document.wellFormed
    obtain ⟨grown, fresh⟩ := (Tree.keeps_build _).ok wf.extends_self run
    refine h.remember new grown fresh (Tree.top_of_build wf run) fun ready => ?_
    obtain ⟨t', d', run', tree⟩ := build_ready grows h ready
    rw [run] at run'
    cases run'
    exact tree

end Construct

namespace Evaluation

variable {base e e' : Evaluation}

/-- What was ready at the start of a run is remembered as it was. -/
structure Since (base e : Evaluation) : Prop where
  construction : Construction.Since base ⟨e.document, e.memo, []⟩
  arena : base.arena.Extends e.arena

theorem Since.grows (h : base.Since e) : base.Grows e.toForest := ⟨h.construction.document, h.arena⟩

/-- Every call keeps what is remembered. -/
theorem Since.call (h : base.Since e) (call : e.Call e') : base.Since e' := by
  cases call with
  | materialize o p =>
    show base.Since (endState (Evaluate.construct (.materialize e.arena p) o e))
    rw [Evaluate.endState_construct]
    exact ⟨(((Construct.lasts_since h.arena).keeps_materialize p).endState h.construction).unused, h.arena⟩
  | aside document memo arena =>
    refine ⟨?_, h.arena.trans arena⟩
    rw [document, memo]
    exact h.construction

theorem Since.run (h : base.Since e) (run : e.Run e') : base.Since e' := by
  induction run with
  | refl => exact h
  | tail _ call ih => exact ih.call call

/-- A run keeps what is remembered. -/
theorem since_of_run (wf : base.document.WellFormed) (run : base.Run e) : base.Since e :=
  Since.run ⟨.start wf, .refl _⟩ run

end Evaluation

end VirtualTree
