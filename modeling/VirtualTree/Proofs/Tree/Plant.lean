import VirtualTree.Proofs.Document.Extends

/-!
# Planted trees

A tree is planted without any check, so whether the document stays a forest depends on the tree: its
attributes must be attributes of elements, and its children nodes that can be children
(`Tree.Plantable`).  Such a tree takes root on its own, apart from all nodes that were there
(`Document.Extends.plant`).
-/

namespace VirtualTree

open Document

/-- A tree that nothing is amiss in when it is planted as it is. -/
inductive Tree.Plantable : Tree → Prop
  | node {label : Label} {attributes children : List Tree}
      (isElement : attributes ≠ [] → label.kind = .element)
      (isParent : children ≠ [] → label.kind.isParent)
      (isAttribute : ∀ t ∈ attributes, t.kind = .attribute)
      (isChild : ∀ t ∈ children, t.kind ≠ .attribute ∧ t.kind ≠ .document)
      (below : ∀ t ∈ attributes ++ children, Plantable t) :
      Plantable (.node label attributes children)

theorem Tree.Plantable.leaf (label : Label) : (Tree.leaf label).Plantable :=
  .node nofun nofun nofun nofun nofun

namespace Document

variable {base d : Document} {id n : NodeId}

/-- `id` is the topmost node of a tree that stands outside of `base`. -/
structure Rooted (base d : Document) (id : NodeId) : Prop where
  kept : base.Extends d
  outside : ¬ base.Has id
  top : d.Top id

theorem Extends.rooted_alloc (h : base.Extends d) (label : Label) :
    base.Rooted (d.alloc label).2 (d.alloc label).1 :=
  ⟨h.alloc label, fun has => not_has_alloc label (h.has has), top_alloc d label⟩

/-- A top is detached already. -/
theorem detach_eq_self (h : d.parent? id = none) : d.detach id = d := by
  unfold detach
  rw [h]

theorem appendChild_eq_insertChild (h : d.parent? n = none) :
    d.appendChild id n = d.insertChild id n none := by
  rw [insertChild, detach_eq_self h]
  rfl

namespace Rooted

/-- Two tops are not above one another. -/
theorem insertable (h : base.Rooted d id) (fresh : d.Top n) (ne : n ≠ id)
    (isParent : (d.kind id).isParent) (kind : d.kind n ≠ .attribute ∧ d.kind n ≠ .document) :
    d.Insertable id n none where
  hasParent := h.top.has
  hasChild := fresh.has
  isParent := isParent
  notAttribute := kind.1
  notDocument := kind.2
  outside above := by
    rcases atOrAbove_iff.1 above with e | ⟨p, hp, -⟩
    · exact ne e
    · rw [h.top.parent] at hp
      cases hp
  position := by simp

theorem appendChild (h : base.Rooted d id) (fresh : d.Top n) (outside : ¬ base.Has n) (ne : n ≠ id)
    (isParent : (d.kind id).isParent) (kind : d.kind n ≠ .attribute ∧ d.kind n ≠ .document) :
    base.Rooted (d.appendChild id n) id := by
  rw [appendChild_eq_insertChild fresh.parent]
  have ok := h.insertable fresh ne isParent kind
  exact ⟨h.kept.insertChild h.outside outside ok, h.outside, h.top.insertChild ok ne⟩

theorem appendAttribute (h : base.Rooted d id) (fresh : d.Top n) (outside : ¬ base.Has n)
    (ne : n ≠ id) (isElement : d.kind id = .element) (kind : d.kind n = .attribute) :
    base.Rooted (d.appendAttribute id n) id where
  kept := by
    have wf := h.kept.wellFormed.appendAttribute h.top.has fresh.has isElement kind fresh.parent
    refine h.kept.of_same_views wf (size_appendAttribute).ge (fun i _ => label_appendAttribute i)
      (fun i hi => ?_) (fun i _ => children_appendAttribute i) fun i hi => ?_
    · rw [parent?_appendAttribute i fresh.has, if_neg (Extends.ne_of_has hi outside)]
    · rw [attributes_appendAttribute i h.top.has, if_neg (Extends.ne_of_has hi h.outside),
        List.append_nil]
  outside := h.outside
  top := ⟨(has_appendAttribute id).2 h.top.has, by
    rw [parent?_appendAttribute id fresh.has, if_neg ne.symm, h.top.parent]⟩

end Rooted

/-! ## Planting -/

mutual

/-- A planted tree stands on its own, and everything that was there is as it was. -/
theorem Extends.plant : (t : Tree) → t.Plantable → ∀ {base d : Document}, base.Extends d →
    base.Rooted (t.plant d).2 (t.plant d).1 ∧ (t.plant d).2.kind (t.plant d).1 = t.kind
  | .node label attributes children, plantable, base, d, h => by
    obtain ⟨isElement, isParent, isAttribute, isChild, below⟩ := plantable
    have start := h.rooted_alloc label
    have kind : (d.alloc label).2.kind (d.alloc label).1 = label.kind := by
      rw [Document.kind, Document.label, record_alloc_self]
      rfl
    obtain ⟨rooted, kind'⟩ := start.plantAttributes attributes (fun e => kind ▸ isElement e)
      isAttribute fun t ht => below t (List.mem_append_left _ ht)
    have kind'' := kind'.trans kind
    obtain ⟨done, last⟩ := rooted.plantChildren children (fun e => kind'' ▸ isParent e) isChild
      fun t ht => below t (List.mem_append_right _ ht)
    exact ⟨done, last.trans kind''⟩

theorem Rooted.plantAttributes : (ts : List Tree) → ∀ {base d : Document} {id : NodeId},
    base.Rooted d id → (ts ≠ [] → d.kind id = .element) → (∀ t ∈ ts, t.kind = .attribute) →
    (∀ t ∈ ts, t.Plantable) →
    base.Rooted (Tree.plantAttributes id ts d) id ∧
      (Tree.plantAttributes id ts d).kind id = d.kind id
  | [], _, _, _, h, _, _, _ => ⟨h, rfl⟩
  | t :: ts, base, d, id, h, isElement, isAttribute, plantable => by
    have first := plantable t List.mem_cons_self
    obtain ⟨planted, kind⟩ := Extends.plant t first h.kept
    have apart := (Extends.plant t first h.kept.wellFormed.extends_self).1
    have element := isElement (List.cons_ne_nil t ts)
    -- The owner was there before the tree was planted, so it is as it was.
    have owner : base.Rooted (t.plant d).2 id := ⟨planted.kept, h.outside, apart.kept.top h.top⟩
    have kindOwner := apart.kept.kind_eq h.top.has
    have ne : (t.plant d).1 ≠ id := fun e => apart.outside (e ▸ h.top.has)
    have next := owner.appendAttribute planted.top planted.outside ne (kindOwner.trans element)
      (kind.trans (isAttribute t List.mem_cons_self))
    obtain ⟨done, last⟩ := next.plantAttributes ts
      (fun _ => (kind_appendAttribute id).trans (kindOwner.trans element))
      (fun s hs => isAttribute s (List.mem_cons_of_mem t hs))
      fun s hs => plantable s (List.mem_cons_of_mem t hs)
    exact ⟨done, last.trans ((kind_appendAttribute id).trans kindOwner)⟩

theorem Rooted.plantChildren : (ts : List Tree) → ∀ {base d : Document} {id : NodeId},
    base.Rooted d id → (ts ≠ [] → (d.kind id).isParent) →
    (∀ t ∈ ts, t.kind ≠ .attribute ∧ t.kind ≠ .document) → (∀ t ∈ ts, t.Plantable) →
    base.Rooted (Tree.plantChildren id ts d) id ∧
      (Tree.plantChildren id ts d).kind id = d.kind id
  | [], _, _, _, h, _, _, _ => ⟨h, rfl⟩
  | t :: ts, base, d, id, h, isParent, isChild, plantable => by
    have first := plantable t List.mem_cons_self
    obtain ⟨planted, kind⟩ := Extends.plant t first h.kept
    have apart := (Extends.plant t first h.kept.wellFormed.extends_self).1
    have parent := isParent (List.cons_ne_nil t ts)
    have owner : base.Rooted (t.plant d).2 id := ⟨planted.kept, h.outside, apart.kept.top h.top⟩
    have kindOwner := apart.kept.kind_eq h.top.has
    have ne : (t.plant d).1 ≠ id := fun e => apart.outside (e ▸ h.top.has)
    have next := owner.appendChild planted.top planted.outside ne (kindOwner ▸ parent)
      (kind ▸ isChild t List.mem_cons_self)
    have kindNext : ((t.plant d).2.appendChild id (t.plant d).1).kind id = d.kind id := by
      rw [appendChild_eq_insertChild planted.top.parent, kind_insertChild, kindOwner]
    obtain ⟨done, last⟩ := next.plantChildren ts (fun _ => kindNext ▸ parent)
      (fun s hs => isChild s (List.mem_cons_of_mem t hs))
      fun s hs => plantable s (List.mem_cons_of_mem t hs)
    exact ⟨done, last.trans kindNext⟩

end

end Document

end VirtualTree
