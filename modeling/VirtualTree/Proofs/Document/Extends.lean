import VirtualTree.Proofs.Document.Edit
import VirtualTree.Tree.Build

/-!
# Untouched nodes

A document `Extends` another when it still has all its nodes with the records they had.  The nodes of
the earlier document and the others then live apart: no link leads from one side to the other.  So an
edit whose arguments are all outside the earlier document leaves it untouched, and so does the
building of a tree, which gives a fresh node outside of it.
-/

namespace VirtualTree

namespace Document

variable {base d : Document}

/-- `d` is a forest with the nodes of the forest `base`, which are as they were, and maybe others. -/
structure Extends (base d : Document) : Prop where
  origin : base.WellFormed
  wellFormed : d.WellFormed
  size_le : base.size ≤ d.size
  record_eq : ∀ id, base.Has id → d.record id = base.record id

theorem record_ext {d e : Document} {i : NodeId} (label : e.label i = d.label i)
    (parent : e.parent? i = d.parent? i) (children : e.children i = d.children i)
    (attributes : e.attributes i = d.attributes i) : e.record i = d.record i := by
  simp only [Document.label, parent?, Document.children, Document.attributes] at *
  cases he : e.record i
  cases hd : d.record i
  simp_all

theorem WellFormed.extends_self (wf : d.WellFormed) : d.Extends d :=
  ⟨wf, wf, Nat.le_refl _, fun _ _ => rfl⟩

theorem not_has_empty (id : NodeId) : ¬ empty.Has id := Nat.not_lt_zero _

/-- Every forest extends the document without nodes. -/
theorem extends_empty_iff : empty.Extends d ↔ d.WellFormed where
  mp h := h.wellFormed
  mpr wf := ⟨wellFormed_empty, wf, Nat.zero_le _, fun id has => absurd has (not_has_empty id)⟩

/-- A link between two nodes, in either direction. -/
def Linked (d : Document) (x y : NodeId) : Prop :=
  d.parent? x = some y ∨ y ∈ d.children x ∨ y ∈ d.attributes x

/-- `y` is reached from `x` by following links. -/
def Reaches (d : Document) (x y : NodeId) : Prop := Relation.ReflTransGen d.Linked x y

namespace Extends

theorem trans {c : Document} (h : c.Extends base) (h' : base.Extends d) : c.Extends d where
  origin := h.origin
  wellFormed := h'.wellFormed
  size_le := Nat.le_trans h.size_le h'.size_le
  record_eq id has := by
    rw [h'.record_eq id (Nat.lt_of_lt_of_le has h.size_le), h.record_eq id has]

variable (h : base.Extends d)

include h

theorem has {id : NodeId} (hb : base.Has id) : d.Has id := Nat.lt_of_lt_of_le hb h.size_le

theorem label_eq {id : NodeId} (hb : base.Has id) : d.label id = base.label id := by
  rw [label, h.record_eq id hb, label]

theorem kind_eq {id : NodeId} (hb : base.Has id) : d.kind id = base.kind id := by
  rw [kind, h.label_eq hb, kind]

theorem parent?_eq {id : NodeId} (hb : base.Has id) : d.parent? id = base.parent? id := by
  rw [parent?, h.record_eq id hb, parent?]

theorem children_eq {id : NodeId} (hb : base.Has id) : d.children id = base.children id := by
  rw [children, h.record_eq id hb, children]

theorem attributes_eq {id : NodeId} (hb : base.Has id) : d.attributes id = base.attributes id := by
  rw [attributes, h.record_eq id hb, attributes]

omit h in
theorem ne_of_has {i j : NodeId} (hi : base.Has i) (hj : ¬ base.Has j) : i ≠ j := fun e =>
  hj (e ▸ hi)

/-! ## No link leads from one side to the other -/

theorem inside_of_parent {c p : NodeId} (hc : base.Has c) (hp : d.parent? c = some p) : base.Has p := by
  rw [h.parent?_eq hc] at hp
  exact h.origin.has_parent c p hp

theorem inside_of_atOrAbove {id a : NodeId} (hid : base.Has id) (above : d.AtOrAbove id a) :
    base.Has a := by
  induction above with
  | refl => exact hid
  | tail _ hp ih => exact h.inside_of_parent ih hp

/-- Above a node of the earlier document stands what stood above it. -/
theorem atOrAbove_iff_of_has {id a : NodeId} (hid : base.Has id) :
    d.AtOrAbove id a ↔ base.AtOrAbove id a := by
  constructor
  · intro above
    induction above with
    | refl => exact .refl id
    | tail above hp ih =>
      rw [h.parent?_eq (h.inside_of_atOrAbove hid above)] at hp
      exact Relation.ReflTransGen.tail ih hp
  · intro above
    induction above with
    | refl => exact .refl id
    | tail above hp ih =>
      rw [← h.parent?_eq (h.origin.has_atOrAbove hid above)] at hp
      exact Relation.ReflTransGen.tail ih hp

theorem inside_child {c p : NodeId} (hp : base.Has p) (hc : d.parent? c = some p) : base.Has c := by
  by_cases kind : d.kind c = .attribute
  · have mem := (h.wellFormed.mem_attributes c p).2 ⟨hc, kind⟩
    rw [h.attributes_eq hp] at mem
    exact has_of_parent (h.origin.parent_of_mem_attributes mem)
  · have mem := (h.wellFormed.mem_children c p).2 ⟨hc, kind⟩
    rw [h.children_eq hp] at mem
    exact has_of_parent (h.origin.parent_of_mem_children mem)

theorem outside_parent {c p : NodeId} (hc : ¬ base.Has c) (hp : d.parent? c = some p) :
    ¬ base.Has p := fun inside => hc (h.inside_child inside hp)

theorem outside_of_mem_children {c p : NodeId} (hp : ¬ base.Has p) (hc : c ∈ d.children p) :
    ¬ base.Has c := fun inside =>
  hp (h.inside_of_parent inside (h.wellFormed.parent_of_mem_children hc))

theorem outside_of_mem_attributes {a p : NodeId} (hp : ¬ base.Has p) (ha : a ∈ d.attributes p) :
    ¬ base.Has a := fun inside =>
  hp (h.inside_of_parent inside (h.wellFormed.parent_of_mem_attributes ha))

/-- Nothing outside is reached from inside. -/
theorem inside_of_reaches {x y : NodeId} (hx : base.Has x) (reaches : d.Reaches x y) :
    base.Has y := by
  induction reaches with
  | refl => exact hx
  | tail _ link ih =>
    rcases link with parent | child | attr
    · exact h.inside_of_parent ih parent
    · exact h.inside_child ih (h.wellFormed.parent_of_mem_children child)
    · exact h.inside_child ih (h.wellFormed.parent_of_mem_attributes attr)

/-! ## Edits outside -/

/-- A change that shows at no node of the earlier document keeps it. -/
theorem of_same_views {e : Document} (wf : e.WellFormed) (size : d.size ≤ e.size)
    (label : ∀ i, base.Has i → e.label i = d.label i)
    (parent : ∀ i, base.Has i → e.parent? i = d.parent? i)
    (children : ∀ i, base.Has i → e.children i = d.children i)
    (attributes : ∀ i, base.Has i → e.attributes i = d.attributes i) : base.Extends e where
  origin := h.origin
  wellFormed := wf
  size_le := Nat.le_trans h.size_le size
  record_eq i hi := by
    rw [record_ext (label i hi) (parent i hi) (children i hi) (attributes i hi), h.record_eq i hi]

theorem detach {id : NodeId} (hid : ¬ base.Has id) : base.Extends (d.detach id) := by
  refine h.of_same_views (h.wellFormed.detach id) (size_detach id).ge (fun i _ => label_detach id i)
    (fun i hi => ?_) (fun i hi => ?_) (fun i hi => ?_)
  · rw [parent?_detach, if_neg (ne_of_has hi hid)]
  · rw [children_detach id h.wellFormed]
    apply List.filter_eq_self.2
    intro c hc
    have := h.inside_child hi (h.wellFormed.parent_of_mem_children hc)
    simpa using ne_of_has this hid
  · rw [attributes_detach id h.wellFormed]
    apply List.filter_eq_self.2
    intro c hc
    have := h.inside_child hi (h.wellFormed.parent_of_mem_attributes hc)
    simpa using ne_of_has this hid

theorem insertChild {parent child : NodeId} {reference? : Option NodeId} (hp : ¬ base.Has parent)
    (hc : ¬ base.Has child) (ok : d.Insertable parent child reference?) :
    base.Extends (d.insertChild parent child reference?) := by
  have wf := h.wellFormed.insertChild reference? ok.hasParent ok.hasChild ok.isParent
    ok.notAttribute ok.notDocument ok.outside
  refine h.of_same_views wf (size_insertChild reference?).ge
    (fun i _ => label_insertChild reference? i) (fun i hi => ?_) (fun i hi => ?_) (fun i _ => ?_)
  · rw [parent?_insertChild reference? ok.hasChild, if_neg (ne_of_has hi hc)]
  · rw [children_insertChild reference? h.wellFormed ok.hasParent, if_neg (ne_of_has hi hp)]
    apply List.filter_eq_self.2
    intro c mem
    have := h.inside_child hi (h.wellFormed.parent_of_mem_children mem)
    simpa using ne_of_has this hc
  · exact attributes_insertChild reference? h.wellFormed ok.notAttribute i

theorem putAttribute {owner attr : NodeId} (ho : ¬ base.Has owner) (ha : ¬ base.Has attr)
    (ok : d.Settable owner attr) : base.Extends (d.putAttribute owner attr) := by
  have wf := h.wellFormed.putAttribute ok.hasOwner ok.hasAttr ok.isElement ok.isAttribute
  have overwritten : ∀ i ∈ d.overwritten owner attr, ¬ base.Has i := fun i hi =>
    h.outside_of_mem_attributes ho ((mem_overwritten h.wellFormed).1 hi).1
  refine h.of_same_views wf size_putAttribute.ge (fun i _ => label_putAttribute i) (fun i hi => ?_)
    (fun i _ => children_putAttribute h.wellFormed ok.isAttribute i) (fun i hi => ?_)
  · rw [parent?_putAttribute i ok.hasAttr, if_neg (ne_of_has hi ha),
      if_neg fun mem => overwritten i mem hi]
  · rw [attributes_putAttribute h.wellFormed ok.hasOwner, if_neg (ne_of_has hi ho),
      List.append_nil]
    apply List.filter_eq_self.2
    intro a mem
    have inside := h.inside_child hi (h.wellFormed.parent_of_mem_attributes mem)
    simpa using ⟨ne_of_has inside ha, fun out => overwritten a out inside⟩

theorem setLabel {id : NodeId} (hid : ¬ base.Has id) {label : Label} (kind : label.kind = d.kind id) :
    base.Extends (d.setLabel id label) := by
  refine h.of_same_views (h.wellFormed.setLabel id kind) (size_setLabel id label).ge (fun i hi => ?_)
    (fun i _ => parent?_setLabel id i label) (fun i _ => children_setLabel id i label)
    (fun i _ => attributes_setLabel id i label)
  rw [label_setLabel, if_neg fun e => ne_of_has hi hid e.1]

theorem alloc (label : Label) : base.Extends (d.alloc label).2 := by
  have fresh : ∀ i, base.Has i → i ≠ (d.alloc label).1 := fun i hi e =>
    not_has_alloc label (e ▸ h.has hi)
  refine ⟨h.origin, h.wellFormed.alloc label, ?_, fun i hi => ?_⟩
  · rw [size_alloc]
    exact Nat.le_succ_of_le h.size_le
  · rw [record_alloc_of_ne i label (fresh i hi), h.record_eq i hi]

end Extends

end Document

/-! ## Computations that keep the earlier document -/

open Document

variable {base : Document}

namespace Edit

theorem keeps_create (label : Label) : Keeps base.Extends (create label) fun id => ¬ base.Has id :=
  fun _ h => ⟨h.alloc label, fun hid => not_has_alloc label (h.has hid)⟩

theorem keeps_insertBefore {parent child : NodeId} (reference? : Option NodeId)
    (hp : ¬ base.Has parent) (hc : ¬ base.Has child) :
    Keeps base.Extends (insertBefore parent child reference?) fun _ => True :=
  keeps_insertBefore_of (fun _ h => h.wellFormed) fun _ h ok => h.insertChild hp hc ok

theorem keeps_setAttribute {owner attr : NodeId} (ho : ¬ base.Has owner) (ha : ¬ base.Has attr) :
    Keeps base.Extends (setAttribute owner attr) fun _ => True :=
  keeps_setAttribute_of fun _ h ok => h.putAttribute ho ha ok

theorem keeps_remove {id : NodeId} (hid : ¬ base.Has id) :
    Keeps base.Extends (remove id) fun _ => True :=
  keeps_remove_of fun _ h => h.detach hid

theorem keeps_relabel {id : NodeId} {change : Label → Option Label} {fault : Kind → Error}
    (hid : ¬ base.Has id) (kind : ∀ l m, change l = some m → m.kind = l.kind) :
    Keeps base.Extends (relabel id change fault) fun _ => True :=
  keeps_relabel_of kind fun _ _ h kind => h.setLabel hid kind

end Edit

namespace Tree

mutual

/-- The building of a tree works on fresh nodes only. -/
theorem keeps_build : (t : Tree) → Keeps base.Extends t.build fun id => ¬ base.Has id
  | .node label attributes children => by
    rw [build]
    split_ifs
    · exact keeps_throw _
    · apply (Edit.keeps_create label).bind
      intro id hid
      apply (keeps_buildAttributes hid attributes).bind
      intro _ _
      apply (keeps_buildChildren hid (label.kind = .document) children).bind
      intro _ _
      exact keeps_pure hid

theorem keeps_buildAttributes {owner : NodeId} (ho : ¬ base.Has owner) :
    (ts : List Tree) → Keeps base.Extends (buildAttributes owner ts) fun _ => True
  | [] => by
    rw [buildAttributes]
    exact keeps_pure trivial
  | t :: ts => by
    rw [buildAttributes]
    apply (keeps_build t).bind
    intro id hid
    exact (Edit.keeps_setAttribute ho hid).bind fun _ _ => keeps_buildAttributes ho ts

theorem keeps_buildChildren {parent : NodeId} (hp : ¬ base.Has parent) (skipTypes : Bool) :
    (ts : List Tree) → Keeps base.Extends (buildChildren parent skipTypes ts) fun _ => True
  | [] => by
    rw [buildChildren]
    exact keeps_pure trivial
  | t :: ts => by
    rw [buildChildren]
    split_ifs
    · exact keeps_buildChildren hp skipTypes ts
    · apply (keeps_build t).bind
      intro id hid
      exact (Edit.keeps_insertBefore none hp hid).bind fun _ _ => keeps_buildChildren hp skipTypes ts

end

end Tree

theorem Edit.keeps_deepClone (id : NodeId) :
    Keeps base.Extends (Edit.deepClone id) fun id => ¬ base.Has id :=
  keeps_get_bind fun d h => Tree.keeps_build (d.tree id) d h

/-! ## The top of a built tree -/

/-- A node of the document without a parent. -/
structure Document.Top (d : Document) (id : NodeId) : Prop where
  has : d.Has id
  parent : d.parent? id = none

theorem Document.Extends.top {d : Document} (h : base.Extends d) {id : NodeId} (top : base.Top id) :
    d.Top id :=
  ⟨h.has top.has, (h.parent?_eq top.has).trans top.parent⟩

namespace Document

variable {d : Document} {id n : NodeId}

/-- A fresh node has no parent. -/
theorem top_alloc (d : Document) (label : Label) : (d.alloc label).2.Top (d.alloc label).1 := by
  refine ⟨(has_alloc _ label).2 (Or.inr rfl), ?_⟩
  rw [parent?, record_alloc_self]
  rfl

/-- A node that gets a child stays where it is. -/
theorem Top.insertChild (top : d.Top id) (ok : d.Insertable id n none) (ne : n ≠ id) :
    (d.insertChild id n none).Top id :=
  ⟨(has_insertChild none id).2 top.has, by
    rw [parent?_insertChild none ok.hasChild, if_neg ne.symm, top.parent]⟩

theorem Top.putAttribute (top : d.Top id) (ok : d.Settable id n) (ne : n ≠ id) :
    (d.putAttribute id n).Top id :=
  ⟨(has_putAttribute id).2 top.has, by
    rw [parent?_putAttribute id ok.hasAttr, if_neg ne.symm, top.parent, ite_self]⟩

end Document

namespace Tree

variable {id : NodeId}

theorem keeps_build_top (t : Tree) :
    Keeps (fun d => d.WellFormed ∧ d.Top id) t.build fun n => n ≠ id := by
  intro d ⟨wf, top⟩
  have built := (keeps_build t : Keeps d.Extends t.build _) d wf.extends_self
  split at built
  · exact ⟨⟨built.1.wellFormed, built.1.top top⟩, fun e => built.2 (e ▸ top.has)⟩
  · exact ⟨built.wellFormed, built.top top⟩

theorem keeps_buildAttributes_top (ts : List Tree) :
    Keeps (fun d => d.WellFormed ∧ d.Top id) (buildAttributes id ts) fun _ => True := by
  induction ts with
  | nil =>
    rw [buildAttributes]
    exact keeps_pure trivial
  | cons t ts ih =>
    rw [buildAttributes]
    refine (keeps_build_top t).bind fun n ne =>
      (Edit.keeps_setAttribute_of fun d ⟨wf, top⟩ ok => ?_).bind fun _ _ => ih
    exact ⟨wf.putAttribute ok.hasOwner ok.hasAttr ok.isElement ok.isAttribute, top.putAttribute ok ne⟩

theorem keeps_buildChildren_top (skipTypes : Bool) (ts : List Tree) :
    Keeps (fun d => d.WellFormed ∧ d.Top id) (buildChildren id skipTypes ts) fun _ => True := by
  induction ts with
  | nil =>
    rw [buildChildren]
    exact keeps_pure trivial
  | cons t ts ih =>
    rw [buildChildren]
    split_ifs
    · exact ih
    refine (keeps_build_top t).bind fun n ne =>
      (Edit.keeps_insertBefore_of (fun _ h => h.1) fun d ⟨wf, top⟩ ok => ?_).bind fun _ _ => ih
    exact ⟨wf.insertChild none ok.hasParent ok.hasChild ok.isParent ok.notAttribute ok.notDocument
      ok.outside, top.insertChild ok ne⟩

/-- The topmost node of what is built has no parent. -/
theorem top_of_build {t : Tree} {d d' : Document} {n : NodeId} (wf : d.WellFormed)
    (run : t.build d = .ok n d') : d'.Top n := by
  obtain ⟨label, attributes, children⟩ := t
  rw [build] at run
  split_ifs at run
  · cases run
  obtain ⟨id, d₁, created, run⟩ := bind_ok run
  obtain ⟨_, d₂, withAttributes, run⟩ := bind_ok run
  obtain ⟨_, d₃, withChildren, run⟩ := bind_ok run
  cases run
  cases created
  have h := (keeps_buildAttributes_top attributes).ok ⟨wf.alloc label, d.top_alloc label⟩ withAttributes
  exact ((keeps_buildChildren_top _ children).ok h.1 withChildren).1.2

end Tree

theorem Edit.top_of_deepClone {d d' : Document} {id n : NodeId} (wf : d.WellFormed)
    (run : Edit.deepClone id d = .ok n d') : d'.Top n :=
  Tree.top_of_build (t := d.tree id) wf run

/-! ## Documents built from nothing -/

/-- The document that a tree is built in from nothing. -/
def Document.holding (t : Tree) : Document := endState (t.build .empty)

theorem Document.wellFormed_holding (t : Tree) : (holding t).WellFormed :=
  (Keeps.endState (Tree.keeps_build t) wellFormed_empty.extends_self).wellFormed

end VirtualTree
