import VirtualTree.Proofs.Update.Names
import VirtualTree.Proofs.Update.Provided
import VirtualTree.Proofs.Update.Run

/-!
# Attributes after an application

A set attribute takes the last place and displaces those of its expanded name (`setEntry`), a
deletion takes away one attribute, whoever shares its name, and no other update touches a list of
attributes, as long as none of them is renamed or replaced (`Update.settle`).  Deletions take away
nothing that the list brings in, so it does not matter when they come.  That gives the attributes of
every node after an application (`Evaluate.attributes_of_applyUpdates`): those that were neither
deleted nor displaced, in their order, and after them the inserted ones, of each name the last.
-/

namespace VirtualTree

open Document

namespace Document

variable {d r : Document} {i : NodeId} {nodes : List NodeId}

/-! ## Names -/

/-- What a document does not have looks like a text. -/
theorem has_of_attribute (h : d.kind i = .attribute) : d.Has i := by
  by_contra absent
  rw [kind, label, record_of_not_has absent] at h
  cases h

/-- The attributes of `d` have the names that they have in `r`. -/
def NamedAs (r d : Document) : Prop :=
  ∀ i, d.kind i = .attribute → d.name? i = r.name? i

/-! ## Attributes that are set -/

/-- The list after an attribute was set: those of its name make room, and it comes last. -/
def setEntry (d : Document) (l : List NodeId) (n : NodeId) : List NodeId :=
  l.filter (fun a => ¬ d.SameName a n) ++ [n]

/-- Of the nodes with one name only the last. -/
def lastNamed (d : Document) : List NodeId → List NodeId
  | [] => []
  | n :: nodes => if ∀ b ∈ nodes, ¬ d.SameName n b then n :: d.lastNamed nodes else d.lastNamed nodes

theorem lastNamed_subset (nodes : List NodeId) : d.lastNamed nodes ⊆ nodes := by
  induction nodes with
  | nil => exact List.Subset.refl _
  | cons n nodes ih =>
    rw [lastNamed]
    split_ifs
    · exact List.cons_subset_cons n ih
    · exact List.subset_cons_of_subset n ih

theorem foldl_setEntry (nodes l : List NodeId) : nodes.foldl d.setEntry l =
    l.filter (fun a => ∀ b ∈ nodes, ¬ d.SameName a b) ++ d.lastNamed nodes := by
  induction nodes generalizing l with
  | nil => simp [lastNamed]
  | cons n nodes ih =>
    rw [List.foldl_cons, ih, setEntry, List.filter_append, List.filter_filter, List.append_assoc,
      lastNamed]
    congr 1
    · exact List.filter_congr fun a _ => by simp [Bool.and_comm]
    · -- what is set first stays if nothing of its name is set later
      by_cases last : ∀ b ∈ nodes, ¬ d.SameName n b
      · rw [if_pos last, List.filter_singleton, decide_eq_true last]
        rfl
      · rw [if_neg last, List.filter_singleton, decide_eq_false last]
        rfl

/-- Taking out an attribute that is not set commutes with setting others. -/
theorem foldl_setEntry_filter {q : NodeId → Bool} (hq : ∀ n ∈ nodes, q n) (l : List NodeId) :
    nodes.foldl d.setEntry (l.filter q) = (nodes.foldl d.setEntry l).filter q := by
  induction nodes generalizing l with
  | nil => rfl
  | cons n nodes ih =>
    rw [List.forall_mem_cons] at hq
    rw [List.foldl_cons, List.foldl_cons, ← ih hq.2]
    congr 1
    rw [setEntry, setEntry, List.filter_append, List.filter_cons_of_pos hq.1, List.filter_nil,
      List.filter_comm]

/-- Of the nodes with the name of a given one the last remains. -/
theorem filter_sameName_lastNamed (a : NodeId) (nodes : List NodeId) :
    (d.lastNamed nodes).filter (fun b => d.SameName a b) =
      (nodes.filter fun b => d.SameName a b).getLast?.toList := by
  induction nodes with
  | nil => rfl
  | cons n nodes ih =>
    rw [lastNamed]
    by_cases last : ∀ b ∈ nodes, ¬ d.SameName n b
    · rw [if_pos last, List.filter_cons, List.filter_cons, ih]
      split_ifs with same
      · have alone : nodes.filter (fun b => d.SameName a b) = [] := List.filter_eq_nil_iff.2
          fun b hb same' => last b hb ((of_decide_eq_true same).symm.trans (of_decide_eq_true same'))
        rw [alone]
        rfl
      · rfl
    · rw [if_neg last, ih, List.filter_cons]
      split_ifs with same
      · push Not at last
        obtain ⟨b, hb, later⟩ := last
        have mem : b ∈ nodes.filter fun b => d.SameName a b :=
          List.mem_filter.2 ⟨hb, decide_eq_true ((of_decide_eq_true same).trans later)⟩
        rw [List.getLast?_cons_of_ne_nil (List.ne_nil_of_mem mem)]
      · rfl

theorem NamedAs.putAttribute {owner n : NodeId} (named : NamedAs r d) :
    NamedAs r (d.putAttribute owner n) := fun i isAttribute => by
  rw [kind_putAttribute] at isAttribute
  rw [name?, label_putAttribute, ← name?, named i isAttribute]

theorem attributes_putAttribute_owner (wf : d.WellFormed) (named : NamedAs r d) {owner n : NodeId}
    (ok : d.Settable owner n) :
    (d.putAttribute owner n).attributes owner = r.setEntry (d.attributes owner) n := by
  rw [attributes_putAttribute wf ok.hasOwner, if_pos rfl, setEntry]
  congr 1
  refine List.filter_congr fun a ha => decide_eq_decide.2 ?_
  have same : r.SameName a n ↔ d.SameName a n := by
    rw [SameName, SameName, named a (wf.kind_of_mem_attributes ha), named n ok.isAttribute]
  rw [same, mem_overwritten wf]
  constructor
  · rintro ⟨ne, stays⟩ same
    exact stays ⟨ha, ne, same⟩
  · intro apart
    refine ⟨fun eq => apart ?_, fun out => apart out.2.2⟩
    rw [eq]
    exact sameName_self ok.isAttribute

/-- Other elements lose only the attribute that is set, if it was theirs. -/
theorem attributes_putAttribute_of_ne (wf : d.WellFormed) {owner n p : NodeId}
    (ok : d.Settable owner n) (ne : p ≠ owner) (absent : n ∉ d.attributes p) :
    (d.putAttribute owner n).attributes p = d.attributes p := by
  rw [attributes_putAttribute wf ok.hasOwner, if_neg ne, List.append_nil]
  refine List.filter_eq_self.2 fun a ha =>
    decide_eq_true ⟨fun eq => absent (eq ▸ ha), fun out => ne ?_⟩
  have parent := wf.parent_of_mem_attributes ((mem_overwritten wf).1 out).1
  exact Option.some.inj ((wf.parent_of_mem_attributes ha).symm.trans parent)

theorem attributes_of_setAttributes {d' : Document} (wf : d.WellFormed) (named : NamedAs r d)
    {owner : NodeId} (settable : ∀ n ∈ nodes, d.Settable owner n)
    (run : Edit.setAttributes owner nodes d = .ok () d') :
    d'.attributes owner = nodes.foldl r.setEntry (d.attributes owner) ∧
      ∀ p, p ≠ owner → (∀ n ∈ nodes, n ∉ d.attributes p) → d'.attributes p = d.attributes p := by
  induction nodes generalizing d with
  | nil =>
    cases run
    exact ⟨rfl, fun _ _ _ => rfl⟩
  | cons n nodes ih =>
    rw [List.forall_mem_cons] at settable
    obtain ⟨ok, later⟩ := settable
    have rest : Edit.setAttributes owner nodes (d.putAttribute owner n) = .ok () d' := by
      rwa [Edit.setAttributes, forM_cons_of_ok (Edit.setAttribute_ok ok)] at run
    obtain ⟨own, others⟩ := ih (wf.putAttribute ok.hasOwner ok.hasAttr ok.isElement ok.isAttribute)
      named.putAttribute (fun m hm => (later m hm).putAttribute) rest
    refine ⟨?_, fun p ne absent => ?_⟩
    · rw [own, attributes_putAttribute_owner wf named ok, List.foldl_cons]
    · rw [List.forall_mem_cons] at absent
      have same := attributes_putAttribute_of_ne wf ok ne absent.1
      rw [others p ne (by rw [same]; exact absent.2), same]

/-! ## Edits that leave attributes alone -/

/-- `d'` is a forest in which all nodes have the kinds and attributes that they have in `d`. -/
structure AttributesKept (d d' : Document) : Prop where
  wellFormed : d'.WellFormed
  kind : ∀ i, d'.kind i = d.kind i
  attributes : ∀ p, d'.attributes p = d.attributes p

end Document

namespace Edit

/-- Attributes stay where they are as long as none is set and none is moved. -/
theorem childFrame_attributesKept (d : Document) :
    ChildFrame d.AttributesKept (fun _ => True) fun i => d.kind i ≠ .attribute where
  parent _ _ _ _ _ _ := trivial
  child d' h p c _ hc := by
    rw [← h.kind]
    exact h.wellFormed.kind_of_mem_children hc
  createText data d' h := by
    refine ⟨⟨h.wellFormed.alloc _, fun i => (kind_alloc_text i data).trans (h.kind i), fun p =>
      (links_alloc p _).2.2.trans (h.attributes p)⟩, ?_⟩
    show d.kind (d'.alloc (.text data)).1 ≠ .attribute
    rw [← h.kind, ← kind_alloc_text _ data, kind, label, record_alloc_self]
    nofun
  insertBefore _ _ reference? _ _ := keeps_insertBefore_of (fun _ h => h.wellFormed) fun _ h ok =>
    ⟨h.wellFormed.insertChild reference? ok.hasParent ok.hasChild ok.isParent ok.notAttribute
      ok.notDocument ok.outside, fun i => (kind_insertChild reference? i).trans (h.kind i), fun p =>
        (attributes_insertChild reference? h.wellFormed ok.notAttribute p).trans (h.attributes p)⟩
  remove id notAttribute := keeps_remove_of fun d' h => by
    refine ⟨h.wellFormed.detach id, fun i => (kind_detach id i).trans (h.kind i), fun p => ?_⟩
    rw [attributes_detach id h.wellFormed, ← h.attributes]
    refine List.filter_eq_self.2 fun a ha => decide_eq_true fun eq => notAttribute ?_
    rw [← h.kind, ← eq]
    exact h.wellFormed.kind_of_mem_attributes ha

/-- New labels leave attributes alone. -/
theorem keeps_relabel_attributesKept {d : Document} {id : NodeId} {change : Label → Option Label}
    {fault : Kind → Error} (kind : ∀ l m, change l = some m → m.kind = l.kind) :
    Keeps d.AttributesKept (relabel id change fault) fun _ => True :=
  keeps_relabel_of kind fun _ label h same => ⟨h.wellFormed.setLabel id same,
    fun i => (kind_setLabel id i same).trans (h.kind i),
    fun p => (attributes_setLabel id p label).trans (h.attributes p)⟩

end Edit

/-! ## Updates -/

namespace Update

variable {d r : Document} {p : NodeId} {u : Update NodeId} {updates : List (Update NodeId)}

/-- The nodes that an update inserts as attributes of `p`. -/
def attributesFor? (p : NodeId) (u : Update NodeId) : Option (List NodeId) :=
  match u.action with
  | .insertAttributes nodes => if u.target = p then some nodes else none
  | _ => none

/-- The nodes that are inserted as attributes of `p`, in list and content order. -/
def attributesFor (p : NodeId) (updates : List (Update NodeId)) : List NodeId :=
  (updates.filterMap (attributesFor? p)).flatten

/-- The attributes of `p` after an update that replaces no attribute.  Names are those in `r`. -/
def settle (r : Document) (p : NodeId) (l : List NodeId) (u : Update NodeId) : List NodeId :=
  match u.action with
  | .insertAttributes nodes => if u.target = p then nodes.foldl r.setEntry l else l
  | .delete => l.filter (· ≠ u.target)
  | _ => l

theorem attributesFor_inStages (p : NodeId) (updates : List (Update NodeId)) :
    attributesFor p (inStages updates) = attributesFor p updates := by
  unfold attributesFor
  rw [filterMap_inStages 0 (fun u inserts => ?_) (by decide)]
  obtain ⟨target, action⟩ := u
  cases action with
  | insertAttributes nodes => rfl
  | delete | insert | rename | replaceNode | replaceValue | replaceElementContent | put => cases inserts

theorem attributesFor_subset : attributesFor p updates ⊆ updates.flatMap content := by
  intro b hb
  obtain ⟨nodes, hn, hb⟩ := List.mem_flatten.1 hb
  obtain ⟨u, hu, inserts⟩ := List.mem_filterMap.1 hn
  refine List.mem_flatMap.2 ⟨u, hu, ?_⟩
  obtain ⟨target, action⟩ := u
  cases action with
  | insertAttributes nodes =>
    change (if target = p then _ else _) = _ at inserts
    split_ifs at inserts
    cases inserts
    exact hb
  | delete | insert | rename | replaceNode | replaceValue | replaceElementContent | put => cases inserts

theorem attributesFor_cons :
    attributesFor p (u :: updates) = (u.attributesFor? p).getD [] ++ attributesFor p updates := by
  unfold attributesFor
  rw [List.filterMap_cons]
  cases attributesFor? p u <;> rfl

/-- What is no deletion sets attributes, if any. -/
theorem settle_eq_foldl (keeps : u.action ≠ .delete) (l : List NodeId) :
    settle r p l u = ((u.attributesFor? p).getD []).foldl r.setEntry l := by
  obtain ⟨target, action⟩ := u
  cases action with
  | delete => exact absurd rfl keeps
  | insertAttributes nodes =>
    unfold settle attributesFor?
    dsimp only
    split_ifs <;> rfl
  | insert | rename | replaceNode | replaceValue | replaceElementContent | put => rfl

/-- Deletions may wait until all attributes are set, as they take away none of those. -/
theorem foldl_settle_eq (kept : ∀ b ∈ attributesFor p updates, ⟨b, .delete⟩ ∉ updates)
    (l : List NodeId) : updates.foldl (settle r p) l =
      ((attributesFor p updates).foldl r.setEntry l).filter fun a => ⟨a, .delete⟩ ∉ updates := by
  induction updates generalizing l with
  | nil => simp [attributesFor]
  | cons u updates ih =>
    rw [attributesFor_cons] at kept ⊢
    have later : ∀ b ∈ attributesFor p updates, ⟨b, .delete⟩ ∉ updates := fun b hb mem =>
      kept b (List.mem_append_right _ hb) (List.mem_cons_of_mem u mem)
    rw [List.foldl_cons, ih later]
    by_cases deletes : u.action = .delete
    · obtain ⟨target, action⟩ := u
      obtain rfl : action = .delete := deletes
      have apart : ∀ b ∈ attributesFor p updates, decide (b ≠ target) = true := fun b hb =>
        decide_eq_true fun eq => kept b (List.mem_append_right _ hb) (eq ▸ List.mem_cons_self)
      show ((attributesFor p updates).foldl r.setEntry (l.filter (· ≠ target))).filter _ =
        ((attributesFor p updates).foldl r.setEntry l).filter _
      rw [foldl_setEntry_filter apart, List.filter_filter]
      exact List.filter_congr fun a _ => by simp [Bool.and_comm]
    · have same : ∀ a, (⟨a, .delete⟩ : Update NodeId) ∈ u :: updates ↔ ⟨a, .delete⟩ ∈ updates :=
        fun a => List.mem_cons.trans (or_iff_right fun eq => deletes (eq ▸ rfl))
      rw [settle_eq_foldl deletes, List.foldl_append]
      simp only [same]

theorem foldl_settle (kept : ∀ b ∈ attributesFor p updates, ⟨b, .delete⟩ ∉ updates)
    (l : List NodeId) : updates.foldl (settle r p) l =
      l.filter (fun a => ⟨a, .delete⟩ ∉ updates ∧ ∀ b ∈ attributesFor p updates, ¬ r.SameName a b) ++
        r.lastNamed (attributesFor p updates) := by
  rw [foldl_settle_eq kept, foldl_setEntry, List.filter_append, List.filter_filter]
  congr 1
  · exact List.filter_congr fun a _ => by simp
  · exact List.filter_eq_self.2 fun b hb => decide_eq_true (kept b (lastNamed_subset _ hb))

end Update

/-- The update neither renames nor replaces an attribute. -/
def Update.SparesAttributes (d : Document) (u : Update NodeId) : Prop :=
  d.kind u.target = .attribute → u.kind ≠ .rename ∧ u.kind ≠ .replaceNode

section Run

variable {base d d₁ d' r : Document} {u : Update NodeId} {done rest : List (Update NodeId)}
  {p : NodeId}

theorem Stepped.sparesAttributes_iff (step : Stepped u d d₁) {v : Update NodeId} :
    v.SparesAttributes d₁ ↔ v.SparesAttributes d := by
  rw [Update.SparesAttributes, step.kind, Update.SparesAttributes]

theorem Stepped.namedAs (step : Stepped u d d₁) (spares : u.SparesAttributes d)
    (named : NamedAs r d) : NamedAs r d₁ := by
  intro i isAttribute
  rw [step.kind] at isAttribute
  rw [← named i isAttribute]
  by_cases eq : i = u.target
  · rw [eq] at isAttribute ⊢
    rw [step.name isAttribute]
    have notRenamed := (spares isAttribute).1
    obtain ⟨target, action⟩ := u
    cases action with
    | rename name => exact absurd rfl notRenamed
    | delete | insert | insertAttributes | replaceNode | replaceValue | replaceElementContent | put =>
      rfl
  · rw [name?, step.label i (has_of_attribute isAttribute) eq, name?]

/-- What one update does to the attributes of a node. -/
theorem Underway.attributes_of_carryOut (h : Underway base (u :: rest) d) (has : base.Has p)
    (spares : u.SparesAttributes d) (named : NamedAs r d) (run : Edit.carryOut u d = .ok () d₁) :
    d₁.attributes p = Update.settle r p (d.attributes p) u := by
  have suits := h.suits_head
  -- Updates that set no attribute stay within the edits that leave attributes alone.
  have quiet (within : u.Within (fun _ => True) fun i => d.kind i ≠ .attribute)
      (sets : ∀ nodes, u.action ≠ .insertAttributes nodes) : d₁.attributes p = d.attributes p := by
    have keeps := (Edit.childFrame_attributesKept d).keeps_carryOut within
      (fun nodes action => absurd action (sets nodes))
      (fun nodes action _ kept isAttribute => by
        refine absurd ?_ (spares (kept.kind _ ▸ isAttribute)).2
        rw [Update.kind, action]
        rfl)
      (fun name _ => Edit.keeps_relabel_attributesKept fun _ _ => Label.kind_of_rename?)
      fun value _ => Edit.keeps_relabel_attributesKept fun _ _ => Label.kind_of_setValue?
    exact (keeps.ok ⟨h.wellFormed, fun _ => rfl, fun _ => rfl⟩ run).1.attributes p
  obtain ⟨target, action⟩ := u
  cases action with
  | delete =>
    have removed : Edit.remove target d = .ok () d₁ := run
    rw [Edit.remove_ok h.has_target] at removed
    cases removed
    exact attributes_detach target h.wellFormed p
  | insertAttributes nodes =>
    obtain ⟨isElement, isAttribute⟩ := suits
    obtain ⟨own, others⟩ := attributes_of_setAttributes h.wellFormed named
      (fun n hn => ⟨h.has_target, (h.content_head hn).2, isElement, isAttribute n hn⟩) run
    show _ = if target = p then nodes.foldl r.setEntry (d.attributes p) else d.attributes p
    split_ifs with eq
    · rw [← eq]
      exact own
    · refine others p (Ne.symm eq) fun n hn mem => ?_
      exact h.loose n (List.mem_flatMap_of_mem List.mem_cons_self hn) p
        (h.wellFormed.parent_of_mem_attributes mem) has
  | insert place nodes =>
    obtain ⟨fits, children⟩ := suits
    refine quiet ⟨fun beside => ?_, fun _ => trivial, fun n hn =>
      (Kind.isChild_iff.1 (children n hn)).1⟩ fun _ sets => by cases sets
    change place = .before ∨ place = .after at beside
    rw [if_pos beside] at fits
    exact (Kind.isChild_iff.1 fits).1
  | replaceNode nodes =>
    have notAttribute : d.kind target ≠ .attribute := fun isAttribute => (spares isAttribute).2 rfl
    obtain ⟨-, children⟩ := suits.resolve_left fun attributes => notAttribute attributes.1
    exact quiet ⟨fun _ => notAttribute, fun _ => trivial, fun n hn =>
      (Kind.isChild_iff.1 (children n hn)).1⟩ fun _ sets => by cases sets
  | rename | replaceValue | replaceElementContent | put =>
    exact quiet ⟨fun moves => moves.elim, fun _ => trivial, fun n hn => by cases hn⟩ fun _ sets => by
      cases sets

namespace CarriedOut

theorem namedAs (h : CarriedOut base rest done d d') (spares : ∀ u ∈ done, u.SparesAttributes d)
    (named : NamedAs r d) : NamedAs r d' := by
  induction h with
  | nil => exact named
  | cons _ _ step _ ih =>
    rw [List.forall_mem_cons] at spares
    exact ih (fun v hv => step.sparesAttributes_iff.2 (spares.2 v hv)) (step.namedAs spares.1 named)

/-- The attributes of a node are settled update by update. -/
theorem attributes (h : CarriedOut base rest done d d') (has : base.Has p)
    (spares : ∀ u ∈ done, u.SparesAttributes d) (named : NamedAs r d) :
    d'.attributes p = done.foldl (Update.settle r p) (d.attributes p) := by
  induction h with
  | nil => rfl
  | cons start first step _ ih =>
    rw [List.forall_mem_cons] at spares
    rw [List.foldl_cons, ← start.attributes_of_carryOut has spares.1 named first]
    exact ih (fun v hv => step.sparesAttributes_iff.2 (spares.2 v hv)) (step.namedAs spares.1 named)

end CarriedOut

end Run

namespace Evaluate

open Evaluation

variable {e e' : Evaluation} {o : Options} {updates : List (Update Pointer)}

/-- Let a list be applied with success that renames and replaces no attribute.  Attributes keep their
names, and the attributes of each node that was there are those that it had before, in their order,
but for those that were deleted and those with the name of an inserted one; after them come the
inserted ones, in list and content order, of each name the last one only.  So whatever was deleted,
of the name of an inserted attribute there is one attribute in the end, the last one inserted.  If
names were distinct before, the inserted attributes are what navigation shows at the pointers. -/
theorem attributes_of_applyUpdates (wf : e.document.WellFormed) (memo : e.memo = .empty)
    (copy : o.copyInsertedContent = true)
    (targets : ∀ u ∈ updates, ∀ id, u.target.plainNode? = some id → e.document.Has id)
    (spares : ∀ u ∈ updates, ∀ id, u.target.plainNode? = some id → e.document.kind id = .attribute →
      u.kind ≠ .rename ∧ u.kind ≠ .replaceNode)
    (run : applyUpdates updates o e = .ok () e') :
    ∃ prepared s, e.prepareAll o updates = .ok prepared s ∧
      List.Forall₂ Update.Realizes prepared updates ∧
      (e.Regular → (∀ u ∈ updates, ∀ q ∈ u.content, e.Denotes q) →
        List.Forall₂ (fun v u => u.kind = .insertAttributes →
          List.Forall₂ (fun b q => e'.document.label b = (e.shown q).label) v.content u.content)
          prepared updates) ∧
      (∀ i, e'.document.kind i = .attribute → e'.document.name? i = s.document.name? i) ∧
      ∀ p, e.document.Has p →
        e'.document.attributes p =
          (e.document.attributes p).filter (fun a => ⟨a, .delete⟩ ∉ prepared ∧
            ∀ b ∈ Update.attributesFor p prepared, ¬ s.document.SameName a b) ++
          s.document.lastNamed (Update.attributesFor p prepared) ∧
        ∀ b ∈ Update.attributesFor p prepared,
          (e'.document.attributes p).filter (fun c => s.document.SameName b c) =
            ((Update.attributesFor p prepared).filter fun c =>
              s.document.SameName b c).getLast?.toList := by
  obtain ⟨compatible, prepared, s, d, prepare, carryOut, rfl⟩ := applyUpdates_ok run
  obtain ⟨stock, grown, realize, suit⟩ := prepareAll_ok wf memo copy targets prepare
  have carried := (underway wf memo copy targets compatible prepare).carriedOut carryOut
  have sparing : ∀ v ∈ inStages prepared, v.SparesAttributes s.document := fun v hv isAttribute => by
    have hv := mem_inStages.1 hv
    obtain ⟨u, hu, realizes⟩ := exists_of_forall₂ realize hv
    rw [grown.kind_eq (suit v hv).1] at isAttribute
    rw [realizes.kind]
    exact spares u hu v.target realizes.target isAttribute
  have fresh : ∀ b ∈ prepared.flatMap Update.content, ∀ v ∈ prepared, v.target ≠ b :=
    fun b hb v hv eq => (stock.chosen b hb).1 (eq ▸ (suit v hv).1)
  refine ⟨prepared, s, prepare, realize, fun regular denotes => ?_,
    carried.namedAs sparing fun _ _ => rfl, fun p has => ?_⟩
  · have stand := prepareAll_attributes regular memo copy denotes prepare
    refine ((List.forall₂_and_left _ _).2 ⟨fun _ => id, stand⟩).imp fun v u ⟨hv, stand⟩ inserts => ?_
    refine ((List.forall₂_and_left _ _).2 ⟨fun _ => id, stand inserts⟩).imp fun b q ⟨hb, stands⟩ => ?_
    have brought := List.mem_flatMap_of_mem hv hb
    rw [← stands.tree, label_tree grown.wellFormed]
    exact carried.label stands.top.has fun w hw => fresh b brought w (mem_inStages.1 hw)
  · -- The stages change nothing: insertions are of one stage, and deletions commute with them.
    have inserted : Update.attributesFor p (inStages prepared) = Update.attributesFor p prepared :=
      Update.attributesFor_inStages p prepared
    have kept : ∀ b ∈ Update.attributesFor p (inStages prepared), ⟨b, .delete⟩ ∉ inStages prepared :=
      fun b hb deleted => by
        rw [inserted] at hb
        exact fresh b (Update.attributesFor_subset hb) _ (mem_inStages.1 deleted) rfl
    have settled : d.attributes p = _ := (carried.attributes has sparing fun _ _ => rfl).trans
      (Update.foldl_settle kept _)
    simp only [inserted, mem_inStages, grown.attributes_eq has] at settled
    refine ⟨settled, fun b hb => ?_⟩
    show (d.attributes p).filter _ = _
    rw [settled, List.filter_append, filter_sameName_lastNamed, List.filter_eq_nil_iff.2,
      List.nil_append]
    intro a ha same
    exact (of_decide_eq_true (List.mem_filter.1 ha).2).2 b hb (of_decide_eq_true same).symm

/-- Two insertions at an element whose attributes make room for one of a name with another qualifier,
for one that is inserted twice, and for a copy; one of them is deleted besides, and one changes its
value. -/
theorem attributes_of_mixed_updates :
    let t : Tree := .node (.element (.unqualified "e")) [.leaf (.attribute ⟨some "a", "x", some "n"⟩ "1"),
      .leaf (.attribute (.unqualified "y") "2"), .leaf (.attribute (.unqualified "w") "3"),
      .leaf (.attribute (.unqualified "z") "4")] []
    let first := Arena.empty.alloc (.attribute ⟨some "b", "x", some "n"⟩ "5") (by decide)
    let second := first.2.alloc (.attribute (.unqualified "y") "6") (by decide)
    let third := second.2.alloc (.attribute (.unqualified "y") "7") (by decide)
    let e : Evaluation := { Evaluation.start (holding t) with arena := third.2 }
    let updates : List (Update Pointer) :=
      [⟨.real ⟨0⟩, .insertAttributes [.silhouette first.1, .silhouette second.1]⟩,
        ⟨.real ⟨1⟩, .delete⟩, ⟨.real ⟨3⟩, .replaceValue "8"⟩, ⟨.real ⟨0⟩, .rename (.unqualified "f")⟩,
        ⟨.real ⟨0⟩, .insertAttributes [.real ⟨4⟩, .silhouette third.1]⟩]
    let e' := endState (applyUpdates updates {} e)
    e.Regular ∧ applyUpdates updates {} e = .ok () e' ∧
      e'.document.toXml ⟨0⟩ = "<f w=\"8\" b:x=\"5\" z=\"4\" y=\"7\"/>" ∧
      ∃ prepared s, e.prepareAll {} updates = .ok prepared s ∧
        List.Forall₂ (fun v u => u.kind = .insertAttributes →
          List.Forall₂ (fun b q => e'.document.label b = (e.shown q).label) v.content u.content)
          prepared updates ∧
        e'.document.attributes ⟨0⟩ =
          (e.document.attributes ⟨0⟩).filter (fun a => ⟨a, .delete⟩ ∉ prepared ∧
            ∀ b ∈ Update.attributesFor ⟨0⟩ prepared, ¬ s.document.SameName a b) ++
          s.document.lastNamed (Update.attributesFor ⟨0⟩ prepared) := by
  intro t first second third e updates e'
  have wf : e.document.WellFormed := wellFormed_holding t
  have regular : e.Regular :=
    .of_silhouettes wf (.of_nodes (by decide +kernel)) (by decide +kernel)
  have virtual (id : SilhouetteId) : e.Denotes (.silhouette id) := ⟨.silhouette id, trivial⟩
  have denotes : ∀ u ∈ updates, ∀ q ∈ u.content, e.Denotes q := by
    refine List.forall_mem_cons.2 ⟨?_, List.forall_mem_cons.2 ⟨nofun, List.forall_mem_cons.2 ⟨nofun,
      List.forall_mem_cons.2 ⟨nofun, List.forall_mem_singleton.2 ?_⟩⟩⟩⟩
    · exact List.forall_mem_cons.2 ⟨virtual _, List.forall_mem_singleton.2 (virtual _)⟩
    · have has : e.document.Has ⟨4⟩ := by decide +kernel
      exact List.forall_mem_cons.2
        ⟨⟨.real _ (by decide +kernel), has⟩, List.forall_mem_singleton.2 (virtual _)⟩
  have spared : ∀ u ∈ updates, u.target.plainNode?.all fun id =>
      e.document.kind id = .attribute → u.kind ≠ .rename ∧ u.kind ≠ .replaceNode := by
    decide +kernel
  have run : applyUpdates updates {} e = .ok () e' := ok_endState (by decide +kernel)
  obtain ⟨prepared, s, prepare, -, labels, -, attributes⟩ := attributes_of_applyUpdates wf rfl rfl
    (targets_of_all (by decide +kernel))
    (fun u hu id plain => by
      have spares := spared u hu
      rw [plain] at spares
      exact of_decide_eq_true spares) run
  exact ⟨regular, run, by decide +kernel, prepared, s, prepare, labels regular denotes,
    (attributes ⟨0⟩ (by decide +kernel)).1⟩

end Evaluate

end VirtualTree
