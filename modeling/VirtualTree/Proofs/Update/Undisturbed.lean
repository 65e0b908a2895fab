import VirtualTree.Proofs.Document.Tree
import VirtualTree.Proofs.Update.Frame

/-!
# Undisturbed trees

A tree of a document stays as it is while its topmost node is moved about.  `Frozen` says that of all
trees below certain nodes at once: every node in them has the label and the lists it had.  Whoever
changes no node in these trees and takes no node out of them keeps them (`frame_frozen`).
-/

namespace VirtualTree

namespace Document

/-- The node stands at or below a node with the property. -/
def Inside (base : Document) (kept : NodeId → Prop) (i : NodeId) : Prop :=
  ∃ t, kept t ∧ base.AtOrAbove i t

/-- The node has no parent at or below a node with the property. -/
def Loose (base : Document) (kept : NodeId → Prop) (i : NodeId) : Prop :=
  ∀ p, base.parent? i = some p → ¬ base.Inside kept p

/-- All that stands at and below the nodes `kept` is as it was in `base`, wherever these nodes are. -/
structure Frozen (base : Document) (kept : NodeId → Prop) (d : Document) : Prop where
  origin : base.WellFormed
  has : ∀ t, kept t → base.Has t
  wellFormed : d.WellFormed
  size_le : base.size ≤ d.size
  same : ∀ i, base.Inside kept i → d.label i = base.label i ∧ d.attributes i = base.attributes i ∧
    d.children i = base.children i

variable {base d : Document} {kept : NodeId → Prop}

theorem WellFormed.frozen_self (wf : d.WellFormed) (has : ∀ t, kept t → d.Has t) : Frozen d kept d where
  origin := wf
  has := has
  wellFormed := wf
  size_le := Nat.le_refl _
  same _ _ := ⟨rfl, rfl, rfl⟩

namespace Frozen

variable (h : Frozen base kept d)

include h

theorem tree_eq {t : NodeId} (ht : kept t) : d.tree t = base.tree t :=
  tree_congr h.origin h.wellFormed fun i hi => h.same i ⟨t, ht, hi⟩

theorem has_inside {i : NodeId} (inside : base.Inside kept i) : d.Has i := by
  obtain ⟨t, ht, below⟩ := inside
  exact (has_of_below (h.has t ht) below).trans_le h.size_le

/-- Below the nodes that are kept stand the same nodes as before. -/
theorem parent?_iff {i p : NodeId} (inside : base.Inside kept p) :
    d.parent? i = some p ↔ base.parent? i = some p := by
  obtain ⟨-, attributes, children⟩ := h.same p inside
  rw [← h.wellFormed.mem_links, ← h.origin.mem_links, links, links, attributes, children]

/-- Below the nodes that are kept stands what stood there before. -/
theorem atOrAbove_iff {t i : NodeId} (ht : kept t) :
    d.AtOrAbove i t ↔ base.AtOrAbove i t := by
  constructor
  · intro below
    induction below using Relation.ReflTransGen.head_induction_on with
    | refl => exact .refl t
    | head up _ ih => exact .head ((h.parent?_iff ⟨t, ht, ih⟩).1 up) ih
  · intro below
    induction below using Relation.ReflTransGen.head_induction_on with
    | refl => exact .refl t
    | head up rest ih => exact .head ((h.parent?_iff ⟨t, ht, rest⟩).2 up) ih

theorem outside_parent {i p : NodeId} (loose : base.Loose kept i) (hp : d.parent? i = some p) :
    ¬ base.Inside kept p := fun inside => loose p ((h.parent?_iff inside).1 hp) inside

theorem loose_of_parent {c p : NodeId} (outside : ¬ base.Inside kept p) (hc : d.parent? c = some p) :
    base.Loose kept c := fun q hq inside => by
  rw [(h.parent?_iff inside).2 hq] at hc
  cases hc
  exact outside inside

/-- A loose node stands in no list that is kept. -/
theorem ne_of_loose {i c n : NodeId} (inside : base.Inside kept i) (hc : d.parent? c = some i)
    (loose : base.Loose kept n) : c ≠ n := fun eq =>
  h.outside_parent loose (eq ▸ hc) inside

/-- A change that does not show at the nodes that are kept keeps them. -/
theorem of_same_views {e : Document} (wf : e.WellFormed) (size : d.size ≤ e.size)
    (label : ∀ i, base.Inside kept i → e.label i = d.label i)
    (attributes : ∀ i, base.Inside kept i → e.attributes i = d.attributes i)
    (children : ∀ i, base.Inside kept i → e.children i = d.children i) : Frozen base kept e where
  origin := h.origin
  has := h.has
  wellFormed := wf
  size_le := h.size_le.trans size
  same i inside := by
    rw [label i inside, attributes i inside, children i inside]
    exact h.same i inside

theorem detach {id : NodeId} (loose : base.Loose kept id) : Frozen base kept (d.detach id) := by
  refine h.of_same_views (h.wellFormed.detach id) (size_detach id).ge (fun i _ => label_detach id i)
    (fun i inside => ?_) fun i inside => ?_
  · rw [attributes_detach id h.wellFormed]
    exact List.filter_eq_self.2 fun a ha => by
      simpa using h.ne_of_loose inside (h.wellFormed.parent_of_mem_attributes ha) loose
  · rw [children_detach id h.wellFormed]
    exact List.filter_eq_self.2 fun c hc => by
      simpa using h.ne_of_loose inside (h.wellFormed.parent_of_mem_children hc) loose

theorem insertChild {parent child : NodeId} {reference? : Option NodeId}
    (outside : ¬ base.Inside kept parent) (loose : base.Loose kept child)
    (ok : d.Insertable parent child reference?) :
    Frozen base kept (d.insertChild parent child reference?) := by
  have wf := h.wellFormed.insertChild reference? ok.hasParent ok.hasChild ok.isParent
    ok.notAttribute ok.notDocument ok.outside
  refine h.of_same_views wf (size_insertChild reference?).ge (fun i _ => label_insertChild reference? i)
    (fun i _ => attributes_insertChild reference? h.wellFormed ok.notAttribute i) fun i inside => ?_
  rw [children_insertChild reference? h.wellFormed ok.hasParent,
    if_neg fun eq : i = parent => outside (eq ▸ inside)]
  exact List.filter_eq_self.2 fun c hc => by
    simpa using h.ne_of_loose inside (h.wellFormed.parent_of_mem_children hc) loose

theorem putAttribute {owner attr : NodeId} (outside : ¬ base.Inside kept owner)
    (loose : base.Loose kept attr) (ok : d.Settable owner attr) :
    Frozen base kept (d.putAttribute owner attr) := by
  have wf := h.wellFormed.putAttribute ok.hasOwner ok.hasAttr ok.isElement ok.isAttribute
  refine h.of_same_views wf size_putAttribute.ge (fun i _ => label_putAttribute i) (fun i inside => ?_)
    fun i _ => children_putAttribute h.wellFormed ok.isAttribute i
  have ne : i ≠ owner := fun eq => outside (eq ▸ inside)
  rw [attributes_putAttribute h.wellFormed ok.hasOwner, if_neg ne, List.append_nil]
  refine List.filter_eq_self.2 fun a ha => ?_
  have parent := h.wellFormed.parent_of_mem_attributes ha
  -- what makes room for the attribute stands on its owner
  have kept_out : a ∉ d.overwritten owner attr := fun out => by
    have mem := ((mem_overwritten h.wellFormed).1 out).1
    rw [h.wellFormed.parent_of_mem_attributes mem] at parent
    exact ne (Option.some.inj parent).symm
  simpa using ⟨h.ne_of_loose inside parent loose, kept_out⟩

theorem setLabel {id : NodeId} (outside : ¬ base.Inside kept id) {label : Label}
    (kind : label.kind = d.kind id) : Frozen base kept (d.setLabel id label) := by
  refine h.of_same_views (h.wellFormed.setLabel id kind) (size_setLabel id label).ge (fun i inside => ?_)
    (fun i _ => attributes_setLabel id i label) fun i _ => children_setLabel id i label
  rw [label_setLabel, if_neg fun eq : i = id ∧ d.Has id => outside (eq.1 ▸ inside)]

theorem alloc (label : Label) : Frozen base kept (d.alloc label).2 := by
  have record : ∀ i, base.Inside kept i → (d.alloc label).2.record i = d.record i := fun i inside =>
    record_alloc_of_ne i label fun eq => not_has_alloc label (eq ▸ h.has_inside inside)
  refine h.of_same_views (h.wellFormed.alloc label) (size_alloc label ▸ Nat.le_succ _)
    (fun i inside => ?_) (fun i inside => ?_) fun i inside => ?_
  · rw [Document.label, record i inside, Document.label]
  · rw [Document.attributes, record i inside, Document.attributes]
  · rw [Document.children, record i inside, Document.children]

end Frozen

end Document

open Document

namespace Edit

variable {base : Document} {kept : NodeId → Prop}

/-- The trees stay as they are if no node in them is changed and none is taken out of them. -/
theorem frame_frozen : Frame (Frozen base kept) (fun i => ¬ base.Inside kept i) (base.Loose kept) where
  parent _ h _ _ loose hp := h.outside_parent loose hp
  child _ h _ _ outside hc := h.loose_of_parent outside (h.wellFormed.parent_of_mem_children hc)
  create label d h := by
    refine ⟨h.alloc label, fun p hp _ => ?_⟩
    exact not_has_alloc label ((has_of_parent hp).trans_le h.size_le)
  insertBefore _ _ _ outside loose := keeps_insertBefore_of (fun _ h => h.wellFormed)
    fun _ h ok => h.insertChild outside loose ok
  setAttribute _ _ outside loose := keeps_setAttribute_of fun _ h ok => h.putAttribute outside loose ok
  remove _ loose := keeps_remove_of fun _ h => h.detach loose
  relabel _ _ _ outside kind := keeps_relabel_of kind fun _ _ h kind => h.setLabel outside kind

variable {d d' : Document} {updates : List (Update NodeId)}

/-- Carrying out updates adds nodes and keeps the links a forest. -/
theorem wellFormed_of_carryOutAll (wf : d.WellFormed) (run : carryOutAll updates d = .ok () d') :
    d'.WellFormed ∧ d.size ≤ d'.size := by
  have nothing : ∀ i, ¬ d.Inside (fun _ => False) i := fun i ⟨_, h, _⟩ => h
  have start : Frozen d (fun _ => False) d := wf.frozen_self fun _ h => h.elim
  have frozen := ((frame_frozen.keeps_carryOutAll fun v _ => ⟨fun _ p _ => nothing p,
    fun _ => nothing v.target, fun n _ p _ => nothing p⟩).ok start run).1
  exact ⟨frozen.wellFormed, frozen.size_le⟩

/-- Updates leave a tree as it is if they have no targets in it, but maybe to change the place of its
topmost node, and take nothing out of it. -/
theorem tree_eq_of_carryOutAll {t : NodeId} (wf : d.WellFormed) (has : d.Has t)
    (target : ∀ v ∈ updates, d.AtOrAbove v.target t → v.action.ChangesParent ∧ v.target = t)
    (content : ∀ v ∈ updates, ∀ c ∈ v.content, ∀ p, d.parent? c = some p → ¬ d.AtOrAbove p t)
    (run : carryOutAll updates d = .ok () d') : d'.tree t = d.tree t := by
  have inside {i : NodeId} : d.Inside (· = t) i ↔ d.AtOrAbove i t := by simp [Inside]
  have within : ∀ v ∈ updates, v.Within (fun i => ¬ d.Inside (· = t) i) (d.Loose (· = t)) := by
    refine fun v hv => ⟨fun _ p hp below => ?_, fun unmoved below => ?_, fun c hc p hp below => ?_⟩
    · obtain ⟨-, eq⟩ := target v hv (.head hp (inside.1 below))
      exact wf.not_atOrAbove_parent (eq ▸ hp) (inside.1 below)
    · exact unmoved (target v hv (inside.1 below)).1
    · exact content v hv c hc p hp (inside.1 below)
  have start : Frozen d (· = t) d := wf.frozen_self fun _ eq => eq ▸ has
  exact ((frame_frozen.keeps_carryOutAll within).ok start run).1.tree_eq rfl

end Edit

end VirtualTree
