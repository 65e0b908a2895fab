import VirtualTree.Proofs.Update.Compatibility
import VirtualTree.Proofs.Update.Rearrange

/-!
# Carrying out one update

Between two updates of a list the invariant `Underway` holds: what the remaining updates rely on is
still as it was when they were prepared, only nodes of the old document may have lost their parent.
A step is then made as `Stepped` says (`Underway.carryOut`), and the invariant holds for the rest of
the list (`Underway.tail`).  The only step that fails is the replacement of an attribute that lost its
element.
-/

namespace VirtualTree

open Document

/-! ## What a step does -/

/-- The name that an action leaves an attribute with. -/
def Action.renamed {α : Type} : Action α → Option Name → Option Name
  | .rename name, _ => some name
  | _, name? => name?

/-- A node loses its parent when the update is carried out. -/
def Update.Detaches (u : Update NodeId) (d : Document) (i : NodeId) : Prop :=
  match u.action with
  | .insertAttributes nodes => d.Displaces u.target nodes i
  | .replaceNode nodes =>
    i = u.target ∨
      d.kind u.target = .attribute ∧ ∃ o, d.parent? u.target = some o ∧ d.Displaces o nodes i
  | .replaceElementContent _ => i ∈ d.children u.target
  | .delete => i = u.target
  | _ => False

/-- A node has one child, a text that an earlier document did not have, or none if there is no text. -/
def Document.HoldsText (d earlier : Document) (p : NodeId) (text : Option String) : Prop :=
  match text.filter (· ≠ "") with
  | none => d.children p = []
  | some data => ∃ n, ¬ earlier.Has n ∧ d.Has n ∧ d.label n = .text data ∧ d.children p = [n]

/-- A text that is new is new for still earlier documents. -/
theorem Document.HoldsText.earlier {base d d' : Document} {p : NodeId} {text : Option String}
    (h : d'.HoldsText d p text) (size_le : base.size ≤ d.size) : d'.HoldsText base p text := by
  unfold HoldsText at h ⊢
  cases filled : text.filter (· ≠ "") with
  | none => rwa [filled] at h
  | some data =>
    rw [filled] at h
    obtain ⟨n, fresh, rest⟩ := h
    exact ⟨n, fun has => fresh (Nat.lt_of_lt_of_le has size_le), rest⟩

/-- `d'` is `d` after an update was carried out. -/
structure Stepped (u : Update NodeId) (d d' : Document) : Prop where
  wellFormed : d'.WellFormed
  size_le : d.size ≤ d'.size
  kind : ∀ i, d'.kind i = d.kind i
  label : ∀ i, d.Has i → i ≠ u.target → d'.label i = d.label i
  name : d.kind u.target = .attribute → d'.name? u.target = u.action.renamed (d.name? u.target)
  detached : ∀ i, d.Has i → i ∉ u.content → u.Detaches d i → d'.parent? i = none
  parent : ∀ i, d.Has i → i ∉ u.content → ¬ u.Detaches d i → d'.parent? i = d.parent? i
  children : ∀ p, (∀ n ∈ u.content, n ∉ d.children p) →
    (∀ text, u.action = .replaceElementContent text → p ≠ u.target) →
    d'.children p = u.rearrange d.isVisible p (d.children p)
  replaced : ∀ text, u.action = .replaceElementContent text → d'.HoldsText d u.target text

/-! ## What the updates that remain rely on -/

/-- The updates of a list can still be carried out in `d`, where `base` is the document that the list
is for. -/
structure Underway (base : Document) (rest : List (Update NodeId)) (d : Document) : Prop where
  wellFormed : d.WellFormed
  size_le : base.size ≤ d.size
  /-- The parents of nodes of `base` are nodes of `base`. -/
  inside : ∀ i p, base.Has i → d.parent? i = some p → base.Has p
  target : ∀ u ∈ rest, base.Has u.target
  suits : ∀ u ∈ rest, u.action.Suits d (d.kind u.target)
  /-- Targets that need a parent have one, attributes apart. -/
  anchored : ∀ u ∈ rest, u.action.NeedsParent → d.kind u.target ≠ .attribute →
    (d.parent? u.target).isSome
  content : ∀ n ∈ rest.flatMap Update.content, ¬ base.Has n ∧ d.Has n
  /-- No node that is brought in stands at a node of `base` already. -/
  loose : ∀ n ∈ rest.flatMap Update.content, ∀ p, d.parent? n = some p → ¬ base.Has p
  nodup : (rest.flatMap Update.content).Nodup
  ordered : rest.Pairwise Update.Precedes

namespace Edit

variable {d : Document}

theorem parentOf_ok {id p : NodeId} (h : d.parent? id = some p) : parentOf id d = .ok p d := by
  unfold parentOf
  rw [bind_of_ok (rfl : (get : Edit Document) d = .ok d d), h]
  rfl

theorem parentOf_error {id : NodeId} (h : d.parent? id = none) :
    parentOf id d = .error .lostParent d := by
  unfold parentOf
  rw [bind_of_ok (rfl : (get : Edit Document) d = .ok d d), h]
  rfl

end Edit

namespace Underway

variable {base d : Document} {u : Update NodeId} {rest : List (Update NodeId)}

section Head

variable (h : Underway base (u :: rest) d)

include h

theorem has {i : NodeId} (hi : base.Has i) : d.Has i := Nat.lt_of_lt_of_le hi h.size_le

theorem has_target : d.Has u.target := h.has (h.target u List.mem_cons_self)

theorem suits_head : u.action.Suits d (d.kind u.target) := h.suits u List.mem_cons_self

theorem content_head {n : NodeId} (hn : n ∈ u.content) : ¬ base.Has n ∧ d.Has n :=
  h.content n (List.mem_flatMap_of_mem List.mem_cons_self hn)

theorem nodup_head : u.content.Nodup := by
  have := h.nodup
  rw [List.flatMap_cons, List.nodup_append] at this
  exact this.1

/-- Everything above a node of `base` is in `base`. -/
theorem inside_atOrAbove {i a : NodeId} (hi : base.Has i) (above : d.AtOrAbove i a) : base.Has a := by
  induction above with
  | refl => exact hi
  | tail _ hp ih => exact h.inside _ _ ih hp

/-- The nodes that are brought in are not yet among the children of a node of `base`. -/
theorem absent {n p : NodeId} (hn : n ∈ u.content) (hp : base.Has p) : n ∉ d.children p := fun mem =>
  h.loose n (List.mem_flatMap_of_mem List.mem_cons_self hn) p
    (h.wellFormed.parent_of_mem_children mem) hp

/-- Children that an update brings in can be inserted under a node of `base`. -/
theorem insertAll {p : NodeId} {reference? : Option NodeId} (hp : base.Has p)
    (isParent : (d.kind p).isParent) (children : ∀ n ∈ u.content, (d.kind n).isChild)
    (position : ∀ r, reference? = some r → r ∈ d.children p) :
    ∃ d', Edit.insertAll p u.content reference? d = .ok () d' ∧
      d.Inserted p u.content reference? d' := by
  refine Edit.insertAll_ok h.wellFormed h.nodup_head (fun n hn => ?_)
    (fun n hn => h.absent hn hp) position
  obtain ⟨notAttribute, notDocument, -⟩ := Kind.isChild_iff.1 (children n hn)
  exact ⟨h.has hp, (h.content_head hn).2, isParent, notAttribute, notDocument, fun above =>
    (h.content_head hn).1 (h.inside_atOrAbove hp above), fun r hr => by cases hr⟩

/-! ## One lemma for each sort of action -/

/-- Inserted nodes appear where `rearrange` puts them. -/
theorem stepped_of_inserted {place : Place} (action : u.action = .insert place u.content) {p : NodeId}
    {reference? : Option NodeId} (hp : base.Has p) (isParent : (d.kind p).isParent)
    (position : ∀ r, reference? = some r → r ∈ d.children p)
    (effect : ∀ q, (if q = p then insertEntries u.content reference? (d.children q)
      else d.children q) = u.rearrange d.isVisible q (d.children q)) :
    ∃ d', Edit.insertAll p u.content reference? d = .ok () d' ∧ Stepped u d d' := by
  have suits := h.suits_head
  rw [action] at suits
  obtain ⟨d', run, inserted⟩ := h.insertAll hp isParent suits.2 position
  have kind : ∀ i, d'.kind i = d.kind i := fun i => by
    rw [Document.kind, inserted.label, Document.kind]
  have detaches : ∀ i, ¬ u.Detaches d i := fun i => by simp [Update.Detaches, action]
  refine ⟨d', run, inserted.wellFormed, inserted.size_eq.ge, kind, fun i _ _ => inserted.label i,
    fun _ => ?_, fun i _ _ hi => absurd hi (detaches i), fun i _ hi _ => ?_, fun q absent _ => ?_,
    fun text replaces => ?_⟩
  · rw [action, name?, inserted.label, name?]
    rfl
  · rw [inserted.parent?, if_neg hi]
  · rw [inserted.children q absent]
    exact effect q
  · rw [action] at replaces
    cases replaces

end Head

theorem carryOut_insert {target : NodeId} {place : Place} {nodes : List NodeId}
    (h : Underway base (⟨target, .insert place nodes⟩ :: rest) d) :
    ∃ d', Edit.carryOut ⟨target, .insert place nodes⟩ d = .ok () d' ∧
      Stepped ⟨target, .insert place nodes⟩ d d' := by
  have suits := h.suits_head.1
  have has : base.Has target := h.target _ List.mem_cons_self
  -- Beside the target, its parent takes the nodes.
  have beside : place = .before ∨ place = .after → ∃ p, d.parent? target = some p ∧
      target ∈ d.children p ∧ base.Has p ∧ (d.kind p).isParent := by
    intro beside
    rw [if_pos beside] at suits
    have notAttribute := (Kind.isChild_iff.1 suits).1
    obtain ⟨p, hp⟩ := Option.isSome_iff_exists.1
      (h.anchored _ List.mem_cons_self beside notAttribute)
    exact ⟨p, hp, (h.wellFormed.mem_children _ _).2 ⟨hp, notAttribute⟩, h.inside _ _ has hp,
      h.wellFormed.isParent _ _ hp notAttribute⟩
  cases place with
  | into =>
    exact h.stepped_of_inserted rfl has suits (fun r hr => by cases hr) fun q => rfl
  | intoAsLast =>
    exact h.stepped_of_inserted rfl has suits (fun r hr => by cases hr) fun q => rfl
  | intoAsFirst =>
    have run : Edit.carryOut ⟨target, .insert .intoAsFirst nodes⟩ d =
      Edit.insertAll target nodes ((d.children target).find? d.isVisible) d := rfl
    rw [run]
    refine h.stepped_of_inserted rfl has suits (fun r hr => List.mem_of_find?_eq_some hr) fun q => ?_
    show (if q = target then _ else _) = if q = target then _ else _
    split_ifs with hq
    · rw [← hq]
      exact insertEntries_shown _ _
    · rfl
  | before =>
    obtain ⟨p, parent, mem, hp, isParent⟩ := beside (Or.inl rfl)
    have run : Edit.carryOut ⟨target, .insert .before nodes⟩ d =
      Edit.insertAll p nodes (some target) d := bind_of_ok (Edit.parentOf_ok parent)
    rw [run]
    apply h.stepped_of_inserted rfl hp isParent (fun r hr => Option.some.inj hr ▸ mem)
    intro q
    show _ = expandEntry target (nodes ++ [target]) (d.children q)
    split_ifs with hq
    · rw [hq]
      exact insertEntries_before _ mem (h.wellFormed.nodup_children p)
    · refine (expandEntry_of_not_mem _ fun mem => hq ?_).symm
      exact Option.some.inj ((h.wellFormed.parent_of_mem_children mem).symm.trans parent)
  | after =>
    obtain ⟨p, parent, mem, hp, isParent⟩ := beside (Or.inr rfl)
    have siblings : d.nextSibling? target = entryAfter target (d.children p) := by
      rw [nextSibling?, siblings, if_neg (h.wellFormed.kind_of_mem_children mem), parent]
    have run : Edit.carryOut ⟨target, .insert .after nodes⟩ d =
        Edit.insertAll p nodes (entryAfter target (d.children p)) d := by
      rw [← siblings]
      exact bind_of_ok (Edit.parentOf_ok parent)
    rw [run]
    apply h.stepped_of_inserted rfl hp isParent (fun r hr => mem_of_entryAfter hr)
    intro q
    show _ = expandEntry target (target :: nodes) (d.children q)
    split_ifs with hq
    · rw [hq]
      exact insertEntries_after _ mem (h.wellFormed.nodup_children p)
    · refine (expandEntry_of_not_mem _ fun mem => hq ?_).symm
      exact Option.some.inj ((h.wellFormed.parent_of_mem_children mem).symm.trans parent)

theorem carryOut_insertAttributes {target : NodeId} {nodes : List NodeId}
    (h : Underway base (⟨target, .insertAttributes nodes⟩ :: rest) d) :
    ∃ d', Edit.carryOut ⟨target, .insertAttributes nodes⟩ d = .ok () d' ∧
      Stepped ⟨target, .insertAttributes nodes⟩ d d' := by
  obtain ⟨isElement, attributes⟩ := h.suits_head
  obtain ⟨d', run, set⟩ := Edit.setAttributes_ok h.wellFormed fun n hn =>
    ⟨h.has_target, (h.content_head hn).2, isElement, attributes n hn⟩
  refine ⟨d', run, set.wellFormed, set.size_eq.ge, fun i => ?_, fun i _ _ => set.label i,
    fun _ => ?_, fun i _ => set.displaced i, fun i _ => set.undisplaced i, fun p _ _ => set.children p,
    fun text replaces => by cases replaces⟩
  · rw [Document.kind, set.label, Document.kind]
  · rw [name?, set.label, name?]
    rfl

/-- A change of a label by a rename or a new value. -/
theorem stepped_of_setLabel {target : NodeId} {action : Action NodeId} {label : Label}
    (h : Underway base (⟨target, action⟩ :: rest) d)
    (change : (∃ name, action = .rename name ∧ (d.label target).rename? name = some label) ∨
      ∃ value, action = .replaceValue value ∧ (d.label target).setValue? value = some label) :
    Stepped ⟨target, action⟩ d (d.setLabel target label) := by
  have kind : label.kind = d.kind target := by
    rcases change with ⟨name, -, changed⟩ | ⟨value, -, changed⟩
    · exact Label.kind_of_rename? changed
    · exact Label.kind_of_setValue? changed
  have quiet : ∀ i, ¬ Update.Detaches ⟨target, action⟩ d i := by
    rcases change with ⟨name, rfl, -⟩ | ⟨value, rfl, -⟩ <;> exact fun i => id
  refine ⟨h.wellFormed.setLabel target kind, (size_setLabel target label).ge,
    fun i => kind_setLabel target i kind, fun i _ ne => ?_, fun isAttribute => ?_,
    fun i _ _ detaches => absurd detaches (quiet i), fun i _ _ _ => parent?_setLabel target i label,
    fun p _ _ => ?_, fun text replaces => ?_⟩
  · rw [label_setLabel, if_neg fun e => ne e.1]
  · show (d.setLabel target label).name? target = action.renamed (d.name? target)
    rw [name?, label_setLabel, if_pos ⟨rfl, h.has_target⟩, name?]
    change (d.label target).kind = .attribute at isAttribute
    rcases change with ⟨name, rfl, changed⟩ | ⟨value, rfl, changed⟩ <;>
      cases hl : d.label target <;> rw [hl] at isAttribute changed <;> cases isAttribute <;>
      cases changed <;> rfl
  · rw [children_setLabel]
    rcases change with ⟨name, rfl, -⟩ | ⟨value, rfl, -⟩ <;> rfl
  · subst replaces
    simp at change

theorem carryOut_rename {target : NodeId} {name : Name}
    (h : Underway base (⟨target, .rename name⟩ :: rest) d) :
    ∃ d', Edit.carryOut ⟨target, .rename name⟩ d = .ok () d' ∧
      Stepped ⟨target, .rename name⟩ d d' := by
  obtain ⟨label, changed⟩ : ∃ label, (d.label target).rename? name = some label := by
    have suits : (d.label target).kind.isNamed := h.suits_head
    cases hl : d.label target <;> rw [hl] at suits <;> first | exact ⟨_, rfl⟩ | cases suits
  exact ⟨_, Edit.relabel_ok h.has_target changed, h.stepped_of_setLabel (Or.inl ⟨name, rfl, changed⟩)⟩

theorem carryOut_replaceValue {target : NodeId} {value : String}
    (h : Underway base (⟨target, .replaceValue value⟩ :: rest) d) :
    ∃ d', Edit.carryOut ⟨target, .replaceValue value⟩ d = .ok () d' ∧
      Stepped ⟨target, .replaceValue value⟩ d d' := by
  obtain ⟨label, changed⟩ : ∃ label, (d.label target).setValue? value = some label := by
    have suits : (d.label target).kind.hasValue := h.suits_head
    cases hl : d.label target <;> rw [hl] at suits <;> first | exact ⟨_, rfl⟩ | cases suits
  exact ⟨_, Edit.relabel_ok h.has_target changed, h.stepped_of_setLabel (Or.inr ⟨value, rfl, changed⟩)⟩

theorem carryOut_delete {target : NodeId} (h : Underway base (⟨target, .delete⟩ :: rest) d) :
    ∃ d', Edit.carryOut ⟨target, .delete⟩ d = .ok () d' ∧ Stepped ⟨target, .delete⟩ d d' := by
  have parent := fun i => parent?_detach (d := d) target i
  refine ⟨_, Edit.remove_ok h.has_target, h.wellFormed.detach target, (size_detach target).ge,
    fun i => kind_detach target i, fun i _ _ => label_detach target i, fun _ => ?_,
    fun i _ _ detaches => ?_, fun i _ _ stays => ?_, fun p _ _ => ?_,
    fun text replaces => by cases replaces⟩
  · rw [name?, label_detach, name?]
    rfl
  · rw [parent]
    exact if_pos detaches
  · rw [parent]
    exact if_neg stays
  · rw [children_detach target h.wellFormed]
    exact expandEntry_empty.symm

/-- A child makes room for the nodes that replace it. -/
theorem carryOut_replaceChild {target : NodeId} {nodes : List NodeId}
    (h : Underway base (⟨target, .replaceNode nodes⟩ :: rest) d) (isChild : (d.kind target).isChild)
    (children : ∀ n ∈ nodes, (d.kind n).isChild) :
    ∃ d', Edit.carryOut ⟨target, .replaceNode nodes⟩ d = .ok () d' ∧
      Stepped ⟨target, .replaceNode nodes⟩ d d' := by
  have has : base.Has target := h.target _ List.mem_cons_self
  have notAttribute := (Kind.isChild_iff.1 isChild).1
  obtain ⟨p, parent⟩ : ∃ p, d.parent? target = some p := Option.isSome_iff_exists.1
    (h.anchored _ List.mem_cons_self trivial notAttribute)
  have mem := (h.wellFormed.mem_children _ _).2 ⟨parent, notAttribute⟩
  have target_new : target ∉ nodes := fun hn => (h.content_head hn).1 has
  obtain ⟨d₁, insert, inserted⟩ : ∃ d₁, Edit.insertAll p nodes (some target) d = .ok () d₁ ∧
      d.Inserted p nodes (some target) d₁ :=
    h.insertAll (h.inside _ _ has parent) (h.wellFormed.isParent _ _ parent notAttribute) children
      fun r hr => Option.some.inj hr ▸ mem
  have run : Edit.carryOut ⟨target, .replaceNode nodes⟩ d = .ok () (d₁.detach target) := by
    show (Edit.parentOf target >>= _) d = _
    rw [bind_of_ok (Edit.parentOf_ok parent)]
    show (if d.kind target = .attribute then _ else _ : Edit Unit) d = _
    rw [if_neg notAttribute]
    show (Edit.insertAll p nodes (some target) >>= fun _ => Edit.remove target) d = _
    rw [bind_of_ok insert]
    exact Edit.remove_ok (Nat.lt_of_lt_of_le h.has_target inserted.size_eq.ge)
  have detaches : ∀ i, Update.Detaches ⟨target, .replaceNode nodes⟩ d i ↔ i = target := fun i => by
    simp [Update.Detaches, notAttribute]
  refine ⟨_, run, inserted.wellFormed.detach target, ?_, fun i => ?_, fun i _ _ => ?_,
    fun isAttribute => absurd isAttribute notAttribute, fun i _ _ hd => ?_, fun i _ hi hd => ?_,
    fun q absent _ => ?_, fun text replaces => by cases replaces⟩
  · rw [size_detach, inserted.size_eq]
  · rw [kind_detach, Document.kind, inserted.label, Document.kind]
  · rw [label_detach, inserted.label]
  · rw [parent?_detach, if_pos ((detaches i).1 hd)]
  · rw [parent?_detach, if_neg ((detaches i).not.1 hd), inserted.parent?]
    exact if_neg hi
  · show _ = expandEntry target nodes (d.children q)
    rw [children_detach target inserted.wellFormed, inserted.children q absent]
    split_ifs with hq
    · rw [hq, insertEntries_before nodes mem (h.wellFormed.nodup_children p)]
      exact filter_expandEntry nodes target_new
    · have other : target ∉ d.children q := fun mem => hq
        (Option.some.inj ((h.wellFormed.parent_of_mem_children mem).symm.trans parent))
      rw [← expandEntry_empty, expandEntry_of_not_mem _ other, expandEntry_of_not_mem _ other]

/-- An attribute makes room for the attributes that replace it. -/
theorem carryOut_replaceAttribute {target o : NodeId} {nodes : List NodeId}
    (h : Underway base (⟨target, .replaceNode nodes⟩ :: rest) d)
    (isAttribute : d.kind target = .attribute) (attributes : ∀ n ∈ nodes, d.kind n = .attribute)
    (parent : d.parent? target = some o) :
    ∃ d', Edit.carryOut ⟨target, .replaceNode nodes⟩ d = .ok () d' ∧
      Stepped ⟨target, .replaceNode nodes⟩ d d' := by
  have hasOwner := h.has (h.inside _ _ (h.target _ List.mem_cons_self) parent)
  have isElement := h.wellFormed.isElement _ _ parent isAttribute
  obtain ⟨d', setAll, set⟩ : ∃ d', Edit.setAttributes o nodes (d.detach target) = .ok () d' ∧
      (d.detach target).AttributesSet o nodes d' :=
    Edit.setAttributes_ok (h.wellFormed.detach target) fun n hn =>
      ⟨by simpa using hasOwner, by simpa using (h.content_head hn).2, by simpa using isElement,
        by simpa using attributes n hn⟩
  have run : Edit.carryOut ⟨target, .replaceNode nodes⟩ d = .ok () d' := by
    show (Edit.parentOf target >>= _) d = _
    rw [bind_of_ok (Edit.parentOf_ok parent)]
    show (if d.kind target = .attribute then _ else _ : Edit Unit) d = _
    rw [if_pos isAttribute]
    show (Edit.remove target >>= fun _ => Edit.setAttributes o nodes) d = _
    rw [bind_of_ok (Edit.remove_ok h.has_target)]
    exact setAll
  have names : ∀ a b, (d.detach target).SameName a b ↔ d.SameName a b := fun a b =>
    SameName.congr fun i => label_detach target i
  have displaces : ∀ i, (d.detach target).Displaces o nodes i ↔
      i ≠ target ∧ d.Displaces o nodes i := fun i => by
    by_cases hi : i = target <;> simp [Displaces, hi, names]
  have detaches : ∀ i, Update.Detaches ⟨target, .replaceNode nodes⟩ d i ↔
      i = target ∨ d.Displaces o nodes i := fun i => by
    simp [Update.Detaches, isAttribute, parent]
  refine ⟨d', run, set.wellFormed, ?_, fun i => ?_, fun i _ _ => ?_, fun _ => ?_,
    fun i _ hi hd => ?_, fun i _ hi hd => ?_, fun q absent _ => ?_,
    fun text replaces => by cases replaces⟩
  · rw [set.size_eq, size_detach]
  · rw [Document.kind, set.label, label_detach, Document.kind]
  · rw [set.label, label_detach]
  · rw [name?, set.label, label_detach, name?]
    rfl
  · by_cases ht : i = target
    · rw [set.undisplaced i hi fun hd => ((displaces i).1 hd).1 ht, parent?_detach, if_pos ht]
    · exact set.displaced i hi ((displaces i).2 ⟨ht, ((detaches i).1 hd).resolve_left ht⟩)
  · obtain ⟨ht, hd⟩ := not_or.1 ((detaches i).not.1 hd)
    rw [set.undisplaced i hi fun hd' => hd ((displaces i).1 hd').2, parent?_detach, if_neg ht]
  · have other : target ∉ d.children q := fun mem =>
      h.wellFormed.kind_of_mem_children mem isAttribute
    show _ = expandEntry target nodes (d.children q)
    rw [set.children, children_detach target h.wellFormed, ← expandEntry_empty,
      expandEntry_of_not_mem _ other, expandEntry_of_not_mem _ other]

/-- The children of an element make room for a text, if there is one. -/
theorem carryOut_replaceContent {target : NodeId} {text : Option String}
    (h : Underway base (⟨target, .replaceElementContent text⟩ :: rest) d) :
    ∃ d', Edit.carryOut ⟨target, .replaceElementContent text⟩ d = .ok () d' ∧
      Stepped ⟨target, .replaceElementContent text⟩ d d' := by
  have isElement : d.kind target = .element := h.suits_head
  obtain ⟨e, he⟩ : ∃ e, e = (d.children target).foldl detach d := ⟨_, rfl⟩
  have emptied : d.Emptied target e := he ▸ emptied_foldl_detach h.wellFormed target
  have kind_e : ∀ i, e.kind i = d.kind i := fun i => by
    rw [Document.kind, emptied.label, Document.kind]
  have has_e : ∀ i, d.Has i → e.Has i := fun i hi => Nat.lt_of_lt_of_le hi emptied.size_eq.ge
  have removed : (d.children target).forM Edit.remove d = .ok ⟨⟩ e := by
    rw [he]
    exact Edit.forM_remove_ok fun c hc => has_of_parent (h.wellFormed.parent_of_mem_children hc)
  have start : Edit.carryOut ⟨target, .replaceElementContent text⟩ d =
    ((d.children target).forM Edit.remove >>= _) d := rfl
  rw [start, bind_of_ok removed]
  cases filled : text.filter (· ≠ "") with
  | none =>
    refine ⟨e, rfl, emptied.wellFormed, emptied.size_eq.ge, kind_e, fun i _ _ => emptied.label i,
      fun _ => ?_, fun i _ _ hd => ?_, fun i _ _ hd => ?_, fun p _ other => ?_, fun _ replaces => ?_⟩
    · rw [name?, emptied.label, name?]
      rfl
    · rw [emptied.parent?]
      exact if_pos hd
    · rw [emptied.parent?]
      exact if_neg hd
    · rw [emptied.children]
      exact if_neg (other text rfl)
    · cases replaces
      rw [HoldsText, filled]
      exact (emptied.children target).trans (if_pos rfl)
  | some data =>
    obtain ⟨n, d', run, appended⟩ := Edit.appendText_ok emptied.wellFormed (has_e _ h.has_target)
      (by rw [kind_e]; show (d.kind target).isParent; rw [isElement]; rfl) data
    refine ⟨d', run, appended.wellFormed, emptied.size_eq.ge.trans appended.size_le,
      fun i => (appended.kind i).trans (kind_e i), fun i hi _ => ?_, fun isAttribute => ?_,
      fun i hi _ hd => ?_, fun i hi _ hd => ?_, fun p _ other => ?_, fun _ replaces => ?_⟩
    · rw [appended.label i (has_e i hi), emptied.label]
    · rw [isElement] at isAttribute
      cases isAttribute
    · rw [appended.parent? i (has_e i hi), emptied.parent?]
      exact if_pos hd
    · rw [appended.parent? i (has_e i hi), emptied.parent?]
      exact if_neg hd
    · have hp : p ≠ target := other text rfl
      rw [appended.children, if_neg hp, emptied.children, if_neg hp]
      rfl
    · cases replaces
      rw [HoldsText, filled]
      refine ⟨n, fun hn => appended.fresh (has_e n hn), appended.has, appended.label_new, ?_⟩
      rw [appended.children, emptied.children, if_pos rfl, if_pos rfl]
      rfl

/-- A step succeeds and does what it should, unless it is to replace an attribute that has lost its
element. -/
theorem carryOut (h : Underway base (u :: rest) d) :
    (∃ d', Edit.carryOut u d = .ok () d' ∧ Stepped u d d') ∨
      (∃ nodes, u.action = .replaceNode nodes) ∧ d.kind u.target = .attribute ∧
        d.parent? u.target = none ∧ Edit.carryOut u d = .error .lostParent d := by
  obtain ⟨target, action⟩ := u
  cases action with
  | insert place nodes => exact Or.inl h.carryOut_insert
  | insertAttributes nodes => exact Or.inl h.carryOut_insertAttributes
  | rename name => exact Or.inl h.carryOut_rename
  | replaceValue value => exact Or.inl h.carryOut_replaceValue
  | replaceElementContent text => exact Or.inl h.carryOut_replaceContent
  | delete => exact Or.inl h.carryOut_delete
  | put uri => exact h.suits_head.elim
  | replaceNode nodes =>
    rcases h.suits_head with ⟨isAttribute, attributes⟩ | ⟨isChild, children⟩
    · cases parent : d.parent? target with
      | some o => exact Or.inl (h.carryOut_replaceAttribute isAttribute attributes parent)
      | none =>
        have run : Edit.carryOut ⟨target, .replaceNode nodes⟩ d = .error .lostParent d :=
          bind_of_error (Edit.parentOf_error parent)
        exact Or.inr ⟨⟨nodes, rfl⟩, isAttribute, rfl, run⟩
    · exact Or.inl (h.carryOut_replaceChild isChild children)

/-! ## The invariant after a step -/

/-- No step takes a child away from its parent that a later update needs there. -/
theorem not_detaches (h : Underway base (u :: rest) d) {v : Update NodeId} (hv : v ∈ rest)
    (needs : v.action.NeedsParent) (notAttribute : d.kind v.target ≠ .attribute) :
    ¬ u.Detaches d v.target := by
  have precedes := (List.pairwise_cons.1 h.ordered).1 v hv
  have stage_le := precedes.stage_le
  have early : v.action.stage ≤ 2 := by
    obtain ⟨target, action⟩ := v
    cases action with
    | insert place nodes => rcases needs with rfl | rfl <;> simp [Action.stage]
    | replaceNode nodes => exact Nat.le_refl 2
    | delete | insertAttributes | rename | replaceValue | replaceElementContent | put =>
      exact needs.elim
  obtain ⟨target, action⟩ := u
  cases action with
  | insertAttributes nodes => exact fun displaced => notAttribute displaced.2.1
  | replaceNode nodes =>
    rintro (same | ⟨-, o, -, displaced⟩)
    · have kind : v.kind = .replaceNode := by
        have late : 2 ≤ v.action.stage := stage_le
        obtain ⟨target', action⟩ := v
        cases action with
        | replaceNode nodes => rfl
        | insert place nodes => rcases needs with rfl | rfl <;> simp [Action.stage] at late
        | delete | insertAttributes | rename | replaceValue | replaceElementContent | put =>
          exact needs.elim
      exact precedes.target_ne kind.symm (Or.inl rfl) same.symm
    · exact notAttribute displaced.2.1
  | replaceElementContent text =>
    have : 3 ≤ v.action.stage := stage_le
    omega
  | delete =>
    have : 4 ≤ v.action.stage := stage_le
    omega
  | insert | rename | replaceValue | put => exact id

/-- After a step the rest of the list can be carried out. -/
theorem tail (h : Underway base (u :: rest) d) {d' : Document} (step : Stepped u d d') :
    Underway base rest d' := by
  have old_new : ∀ {i}, base.Has i → i ∉ u.content := fun hi hn => (h.content_head hn).1 hi
  have nodup := h.nodup
  rw [List.flatMap_cons, List.nodup_append] at nodup
  have later : ∀ {n}, n ∈ rest.flatMap Update.content → n ∈ (u :: rest).flatMap Update.content :=
    fun hn => by
      rw [List.flatMap_cons]
      exact List.mem_append_right _ hn
  have parent : ∀ {i p}, d.Has i → i ∉ u.content → d'.parent? i = some p → d.parent? i = some p := by
    intro i p hi hu hp
    by_cases detached : u.Detaches d i
    · rw [step.detached i hi hu detached] at hp
      cases hp
    · rwa [step.parent i hi hu detached] at hp
  refine ⟨step.wellFormed, h.size_le.trans step.size_le, fun i p hi hp => ?_, fun v hv => ?_,
    fun v hv => ?_, fun v hv needs kind => ?_, fun n hn => ?_, fun n hn p hp => ?_, nodup.2.1,
    (List.pairwise_cons.1 h.ordered).2⟩
  · exact h.inside i p hi (parent (h.has hi) (old_new hi) hp)
  · exact h.target v (List.mem_cons_of_mem u hv)
  · rw [step.kind]
    exact (h.suits v (List.mem_cons_of_mem u hv)).congr fun n _ => step.kind n
  · have hv' := List.mem_cons_of_mem u hv
    have has := h.target v hv'
    rw [step.kind] at kind
    rw [step.parent _ (h.has has) (old_new has) (h.not_detaches hv needs kind)]
    exact h.anchored v hv' needs kind
  · obtain ⟨fresh, has⟩ := h.content n (later hn)
    exact ⟨fresh, Nat.lt_of_lt_of_le has step.size_le⟩
  · have hu : n ∉ u.content := fun hu => nodup.2.2 n hu n hn rfl
    exact h.loose n (later hn) p (parent (h.content n (later hn)).2 hu hp)

end Underway

end VirtualTree
