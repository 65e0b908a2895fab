import Mathlib.Data.List.TakeWhile
import VirtualTree.Proofs.Forest.Slots
import VirtualTree.Proofs.Materialization.Session
import VirtualTree.Proofs.Update.Compatibility
import VirtualTree.Proofs.Update.Names

/-!
# Virtual pointers after updates

Applications of updates, successful or not, leave the arena as it is, and of the nodes that were there
only those that a list renames get another name (`NamesKept`).  So a virtual pointer outlives any number
of lists, with silhouettes added in between, unless a real attribute beside one of its slots is renamed
to the name of the slot (`Evaluation.survives_iff_no_attribute_renamed`).
-/

namespace VirtualTree

open Document

/-! ## Names -/

/-- The nodes of an earlier document have the names that they had, but for those that were renamed. -/
structure Document.NamesKept (base : Document) (renamed : NodeId → Prop) (d : Document) : Prop where
  wellFormed : d.WellFormed
  size_le : base.size ≤ d.size
  name?_eq : ∀ i, base.Has i → ¬ renamed i → d.name? i = base.name? i

namespace Document.NamesKept

variable {base d e : Document} {renamed renamed' : NodeId → Prop}

theorem of_extends (h : base.Extends d) : NamesKept base renamed d :=
  ⟨h.wellFormed, h.size_le, fun i has _ => by rw [name?, h.label_eq has, name?]⟩

theorem trans (h : NamesKept base renamed d) (h' : NamesKept d renamed' e) :
    NamesKept base (fun i => renamed i ∨ renamed' i) e where
  wellFormed := h'.wellFormed
  size_le := h.size_le.trans h'.size_le
  name?_eq i has old := by
    rw [h'.name?_eq i (has.trans_le h.size_le) fun r => old (Or.inr r),
      h.name?_eq i has fun r => old (Or.inl r)]

theorem mono (h : NamesKept base renamed d) (sub : ∀ i, renamed i → renamed' i) :
    NamesKept base renamed' d :=
  ⟨h.wellFormed, h.size_le, fun i has old => h.name?_eq i has fun r => old (sub i r)⟩

/-- A change that leaves the names of the nodes alone keeps them. -/
theorem of_same_names (h : NamesKept base renamed d) (wf : e.WellFormed) (size : d.size ≤ e.size)
    (name : ∀ i, d.Has i → e.name? i = d.name? i) : NamesKept base renamed e :=
  ⟨wf, h.size_le.trans size, fun i has old =>
    (name i (has.trans_le h.size_le)).trans (h.name?_eq i has old)⟩

end Document.NamesKept

namespace Edit

variable {base : Document} {renamed : NodeId → Prop}

/-- Changes of links keep the names. -/
theorem linkFrame_namesKept :
    LinkFrame (NamesKept base renamed) (fun _ => True) fun _ => True where
  parent _ _ _ _ _ _ := trivial
  child _ _ _ _ _ _ := trivial
  create label d h := by
    have grown := h.wellFormed.extends_self.alloc label
    have name : ∀ i, d.Has i → (d.alloc label).2.name? i = d.name? i := fun i has => by
      rw [name?, grown.label_eq has, name?]
    exact ⟨h.of_same_names grown.wellFormed grown.size_le name, trivial⟩
  insertBefore _ _ reference? _ _ := keeps_insertBefore_of (fun _ h => h.wellFormed) fun _ h ok =>
    h.of_same_names (h.wellFormed.insertChild reference? ok.hasParent ok.hasChild ok.isParent
      ok.notAttribute ok.notDocument ok.outside) (size_insertChild reference?).ge fun i _ => by
        rw [name?, label_insertChild, name?]
  setAttribute _ _ _ _ := keeps_setAttribute_of fun _ h ok =>
    h.of_same_names (h.wellFormed.putAttribute ok.hasOwner ok.hasAttr ok.isElement ok.isAttribute)
      size_putAttribute.ge fun i _ => by rw [name?, label_putAttribute, name?]
  remove id _ := keeps_remove_of fun _ h =>
    h.of_same_names (h.wellFormed.detach id) (size_detach id).ge fun i _ => by
      rw [name?, label_detach, name?]

/-- A node may be renamed if it is one of those. -/
theorem keeps_rename_namesKept {id : NodeId} (renames : renamed id) (name : Name) :
    Keeps (NamesKept base renamed) (rename id name) fun _ => True :=
  keeps_relabel_of (fun _ _ => Label.kind_of_rename?) fun d label h same =>
    ⟨h.wellFormed.setLabel id same, h.size_le.trans (size_setLabel id label).ge, fun i has old => by
      have other : ¬ (i = id ∧ d.Has id) := fun eq => old (eq.1 ▸ renames)
      rw [name?, label_setLabel, if_neg other, ← name?, h.name?_eq i has old]⟩

/-- A new value leaves the names alone. -/
theorem keeps_setValue_namesKept (id : NodeId) (value : String) :
    Keeps (NamesKept base renamed) (setValue id value) fun _ => True :=
  keeps_relabel_of_changed fun _ label h changed =>
    h.of_same_names (h.wellFormed.setLabel id (Label.kind_of_setValue? changed))
      (size_setLabel id label).ge fun i _ => name?_setLabel id i (Label.name?_of_setValue? changed)

theorem keeps_carryOutAll_namesKept {l : List (Update NodeId)}
    (renames : ∀ v ∈ l, ∀ name, v.action = .rename name → renamed v.target) :
    Keeps (NamesKept base renamed) (carryOutAll l) fun _ => True :=
  keeps_forM fun v hv => linkFrame_namesKept.keeps_carryOut
    ⟨fun _ => trivial, fun _ => trivial, fun _ _ => trivial⟩
    (fun name action => keeps_rename_namesKept (renames v hv name action) name)
    fun value _ => keeps_setValue_namesKept v.target value

end Edit

/-- The list renames the node. -/
def Renames (updates : List (Update Pointer)) (a : NodeId) : Prop :=
  ∃ name, ⟨.real a, .rename name⟩ ∈ updates

/-- What renames a node when it is carried out is a renaming of the node in the list. -/
theorem Update.Realizes.renames {v : Update NodeId} {u : Update Pointer} (realizes : v.Realizes u)
    {name : Name} (action : v.action = .rename name) : u = ⟨.real v.target, .rename name⟩ := by
  obtain ⟨target, asked⟩ := u
  have same := realizes.action
  rw [action] at same
  obtain rfl : target = .real v.target := Pointer.eq_real_of_plainNode? realizes.target
  cases asked <;> cases same
  rfl

/-- An application of updates, successful or not, gives new names only to nodes that it renames. -/
theorem Evaluate.namesKept_applyUpdates {e : Evaluation} (wf : e.document.WellFormed) (o : Options)
    (updates : List (Update Pointer)) :
    NamesKept e.document (Renames updates) (endState (applyUpdates updates o e)).document := by
  have grown : e.document.Extends (endState (e.prepareAll o updates)).document :=
    Evaluation.extends_prepareAll wf
  rw [applyUpdates_apply]
  cases e.compatibility updates with
  | error err => exact .of_extends wf.extends_self
  | ok _ =>
    cases prepare : e.prepareAll o updates with
    | error err s =>
      rw [prepare] at grown
      exact .of_extends grown
    | ok prepared s =>
      rw [prepare] at grown
      have prepared_kept : NamesKept e.document (Renames updates) s.document := .of_extends grown
      have renames : ∀ v ∈ inStages prepared, ∀ name, v.action = .rename name →
          Renames updates v.target := by
        intro v hv name action
        obtain ⟨u, hu, realizes⟩ := (noNewClash_of_prepareAll wf prepare).2 v (mem_inStages.1 hv)
        exact ⟨name, realizes.renames action ▸ hu⟩
      have kept := (Edit.keeps_carryOutAll_namesKept renames).endState prepared_kept
      dsimp only
      cases carried : Edit.carryOutAll (inStages prepared) s.document <;> rw [carried] at kept <;>
        exact kept

/-! ## Later states -/

namespace Evaluation

/-- An evaluation goes on from `e₀`: update lists are applied, successfully or not, and silhouettes are
added.  The updates of all lists are given in order. -/
inductive Later (e₀ : Evaluation) : List (Update Pointer) → Evaluation → Prop
  | start : Later e₀ [] e₀
  | applyUpdates {all : List (Update Pointer)} {e : Evaluation} (later : Later e₀ all e) (o : Options)
    (updates : List (Update Pointer)) :
    Later e₀ (all ++ updates) (endState (Evaluate.applyUpdates updates o e))
  | alloc {all : List (Update Pointer)} {e : Evaluation} (later : Later e₀ all e) (s : Silhouette)
    (h : ∀ r ∈ s.references, r.Below e.arena.size) :
    Later e₀ all { e with arena := (e.arena.alloc s h).2 }

variable {e e' : Evaluation} {all : List (Update Pointer)}

/-- Silhouettes never change, and nodes keep their names unless they are renamed. -/
theorem Later.keeps (later : e.Later all e') (wf : e.document.WellFormed) :
    e.arena.Extends e'.arena ∧ NamesKept e.document (Renames all) e'.document := by
  induction later with
  | start => exact ⟨.refl _, .of_extends wf.extends_self⟩
  | @applyUpdates all e' _ o updates ih =>
    have call : endState (Evaluate.applyUpdates updates o e') = _ :=
      Evaluate.endState_construct (.applyUpdates (e'.setting o) updates) o e'
    have arena : (endState (Evaluate.applyUpdates updates o e')).arena = e'.arena := by rw [call]
    refine ⟨arena ▸ ih.1, ?_⟩
    refine (ih.2.trans (Evaluate.namesKept_applyUpdates ih.2.wellFormed o updates)).mono ?_
    rintro i (⟨name, mem⟩ | ⟨name, mem⟩)
    · exact ⟨name, List.mem_append_left _ mem⟩
    · exact ⟨name, List.mem_append_right _ mem⟩
  | alloc _ s h ih => exact ⟨ih.1.trans (Arena.extends_alloc _ s h), ih.2⟩

/-- Whatever updates are applied and silhouettes added, the step up from a virtual pointer leads to where
it led, and no axis fails on the pointer or above it, just if no real attribute captured a slot on the
way up; and of the attributes that were there only renamed ones capture a slot. -/
theorem survives_iff_no_attribute_renamed (nav : e.Navigable) (later : e.Later all e') {p : Pointer}
    (hp : e.Navigated p) {s : SilhouetteId} (virtual : p.node = .silhouette s) :
    ((e'.parent? p = e.parent? p ∧
        ∀ q, e.Upwards p q → ∀ axis, ∃ found, e'.along axis q = .ok found) ↔
      ∀ point ∈ p.graft, ∀ a, ¬ e.Captures e'.toForest point a) ∧
    ∀ point a, e.Captures e'.toForest point a → e.document.Has a → Renames all a := by
  obtain ⟨grown, kept⟩ := later.keeps nav.document
  refine ⟨(Forest.survives_iff_not_captured nav grown (hp.reached nav) virtual).trans ?_, ?_⟩
  · simp only [Forest.Captured, not_exists, not_and]
  · rintro point a ⟨name, -, now, ahead⟩ has
    by_contra old
    rw [kept.name?_eq a has old] at now
    have other := List.mem_takeWhile_imp ahead
    exact of_decide_eq_true other now

/-- An attribute of the document is listed before a virtual one and is renamed, to another name than
that of the virtual one; a silhouette is added as well. -/
theorem survives_renaming_beside :
    let t : Tree := .node (.element (.unqualified "h")) [.leaf (.attribute (.unqualified "x") "1")] []
    let y := Arena.empty.alloc (.attribute (.unqualified "y") "1") (by decide)
    let s := y.2.alloc (.element (.unqualified "e") [.real ⟨1⟩, .silhouette y.1] []) (by decide)
    let e : Evaluation := { Evaluation.start (holding t) with arena := s.2 }
    let updates : List (Update Pointer) := [⟨.real ⟨1⟩, .rename (.unqualified "z")⟩]
    let e₁ := endState (Evaluate.applyUpdates updates {} e)
    let e' : Evaluation := { e₁ with arena := (e₁.arena.alloc (.text "t") (by decide)).2 }
    let p : Pointer := ⟨.silhouette y.1, [⟨s.1, .attribute (.unqualified "y")⟩]⟩
    e.Navigable ∧ e.Later updates e' ∧ e.Navigated p ∧ e'.document.toXml ⟨0⟩ = "<h z=\"1\"/>" ∧
      e'.parent? p = .ok (some (.silhouette s.1)) ∧
      ∀ q, e.Upwards p q → ∀ axis, ∃ found, e'.along axis q = .ok found := by
  intro t y s e updates e₁ e' p
  have nav : e.Navigable :=
    (Forest.WellFormed.of_silhouettes (wellFormed_holding t) (by decide +kernel)).toNavigable
  have later : e.Later updates e' := .alloc (.applyUpdates .start {} updates) (.text "t") (by decide)
  have attributes : e.along .attribute (.silhouette s.1) = .ok (e.attributes (.silhouette s.1)) := rfl
  have navigated : e.Navigated p := .step (.silhouette s.1) attributes (by decide +kernel)
  have free : ∀ point ∈ p.graft, ∀ a, ¬ e.Captures e'.toForest point a := by
    rintro point mem a ⟨name, slot, now, ahead⟩
    obtain rfl := List.mem_singleton.1 mem
    obtain rfl := Slot.attribute.inj slot
    have listed : NodeRef.real a ∈ [.real ⟨1⟩, .silhouette y.1] :=
      (List.takeWhile_prefix _).subset ahead
    obtain rfl : a = ⟨1⟩ := by simpa using listed
    exact absurd now (by decide +kernel)
  obtain ⟨parent, axes⟩ := (survives_iff_no_attribute_renamed nav later navigated rfl).1.2 free
  exact ⟨nav, later, navigated, by decide +kernel, parent, axes⟩

/-- The same with the name of the virtual attribute: it cannot be left any more. -/
theorem stuck_after_renaming_beside :
    let t : Tree := .node (.element (.unqualified "h")) [.leaf (.attribute (.unqualified "x") "1")] []
    let y := Arena.empty.alloc (.attribute (.unqualified "y") "1") (by decide)
    let s := y.2.alloc (.element (.unqualified "e") [.real ⟨1⟩, .silhouette y.1] []) (by decide)
    let e : Evaluation := { Evaluation.start (holding t) with arena := s.2 }
    let updates : List (Update Pointer) := [⟨.real ⟨1⟩, .rename (.unqualified "y")⟩]
    let p : Pointer := ⟨.silhouette y.1, [⟨s.1, .attribute (.unqualified "y")⟩]⟩
    e.Navigable ∧ e.Navigated p ∧ e.parent? p = .ok (some (.silhouette s.1)) ∧
      ∃ e', Evaluate.applyUpdates updates {} e = .ok () e' ∧ e.Later updates e' ∧
        e'.parent? p = .error (.emptySlot y.1 (.attribute (.unqualified "y")) s.1) := by
  intro t y s e updates p
  have nav : e.Navigable :=
    (Forest.WellFormed.of_silhouettes (wellFormed_holding t) (by decide +kernel)).toNavigable
  have attributes : e.along .attribute (.silhouette s.1) = .ok (e.attributes (.silhouette s.1)) := rfl
  refine ⟨nav, .step (.silhouette s.1) attributes (by decide +kernel), rfl, _,
    ok_endState (by decide +kernel), .applyUpdates .start {} updates, by rfl⟩

end Evaluation

end VirtualTree
