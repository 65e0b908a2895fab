import Mathlib.Data.List.Pairwise
import VirtualTree.Proofs.Tree.Build
import VirtualTree.Proofs.Update.Atomicity
import VirtualTree.Proofs.Update.Batch
import VirtualTree.Proofs.Update.Undisturbed

/-!
# Names of attributes

Setting an attribute displaces the other attributes of its name, and every other change of links only
takes attributes away from where they were.  So no two attributes of an element come to have one expanded
name when trees are built (`LinkFrame.keeps_build`) or when an update is carried out, unless it renames
one of them (`Edit.clash_of_carryOut`): a renaming does not look at the other attributes of the element.
The names are distinct after an application of updates exactly when every such collision was resolved by
a later update of the list (`Evaluate.distinct_iff_collisions_resolved`).
-/

namespace VirtualTree

open Document

/-- A new value leaves the name as it is. -/
theorem Label.name?_of_setValue? {l m : Label} {value : String} (h : l.setValue? value = some m) :
    m.name? = l.name? := by
  cases l <;> cases h <;> rfl

namespace Document

instance (d : Document) (a b : NodeId) : Decidable (d.SameName a b) :=
  decidable_of_iff (∃ n ∈ d.name? a, ∃ m ∈ d.name? b, n.SameExpanded m) <| by
    simp only [SameName, Option.mem_def, ← exists_and_left]

/-- The nodes are different attributes of one element and have the same expanded name. -/
def Clash (d : Document) (a b : NodeId) : Prop :=
  a ≠ b ∧ d.SameName a b ∧ ∃ p, a ∈ d.attributes p ∧ b ∈ d.attributes p

variable {d e : Document} {a b : NodeId}

theorem SameName.symm (h : d.SameName a b) : d.SameName b a := by
  obtain ⟨n, m, ha, hb, same⟩ := h
  exact ⟨m, n, hb, ha, same.1.symm, same.2.symm⟩

theorem SameName.trans {c : NodeId} (h : d.SameName a b) (h' : d.SameName b c) : d.SameName a c := by
  obtain ⟨n, m, hn, hm, same⟩ := h
  obtain ⟨m', k, hm', hk, same'⟩ := h'
  rw [hm] at hm'
  cases hm'
  exact ⟨n, k, hn, hk, same.1.trans same'.1, same.2.trans same'.2⟩

/-- Attributes have names. -/
theorem sameName_self (h : d.kind a = .attribute) : d.SameName a a := by
  change (d.label a).kind = .attribute at h
  cases hl : d.label a <;> rw [hl] at h <;> cases h
  exact ⟨_, _, congrArg Label.name? hl, congrArg Label.name? hl, rfl, rfl⟩

theorem Clash.symm (h : d.Clash a b) : d.Clash b a :=
  ⟨h.1.symm, h.2.1.symm, h.2.2.imp fun _ ⟨ha, hb⟩ => ⟨hb, ha⟩⟩

theorem distinctAttributes_iff (wf : d.WellFormed) :
    d.DistinctAttributes ↔ ∀ a b, ¬ d.Clash a b := by
  constructor
  · rintro distinct a b ⟨ne, ⟨n, m, hn, hm, same⟩, p, ha, hb⟩
    have : Std.Symm fun x y => ∀ n ∈ d.name? x, ∀ m ∈ d.name? y, ¬ n.SameExpanded m :=
      ⟨fun x y apart n hn m hm same => apart m hm n hn ⟨same.1.symm, same.2.symm⟩⟩
    exact (distinct p).forall ha hb ne n hn m hm same
  · intro apart p
    refine (wf.nodup_attributes p).pairwise_of_forall_ne fun a ha b hb ne n hn m hm same => ?_
    exact apart a b ⟨ne, ⟨n, m, hn, hm, same⟩, p, ha, hb⟩

/-! ## Elementary changes -/

/-- A document without other attributes or other names has no other clashes. -/
theorem Clash.of_subset (h : e.Clash a b) (attributes : ∀ p, e.attributes p ⊆ d.attributes p)
    (name : ∀ p, ∀ i ∈ e.attributes p, e.name? i = d.name? i) : d.Clash a b := by
  obtain ⟨ne, same, p, ha, hb⟩ := h
  refine ⟨ne, ?_, p, attributes p ha, attributes p hb⟩
  rwa [SameName, name p a ha, name p b hb] at same

theorem Clash.of_detach (wf : d.WellFormed) {id : NodeId} (h : (d.detach id).Clash a b) :
    d.Clash a b := by
  refine h.of_subset (fun p => ?_) fun p i _ => by rw [name?, label_detach, name?]
  rw [attributes_detach id wf]
  exact List.filter_subset_self _

theorem Clash.of_insertChild (wf : d.WellFormed) {parent child : NodeId} {reference? : Option NodeId}
    (ok : d.Insertable parent child reference?)
    (h : (d.insertChild parent child reference?).Clash a b) : d.Clash a b := by
  refine h.of_subset (fun p => ?_) fun p i _ => by rw [name?, label_insertChild, name?]
  rw [attributes_insertChild reference? wf ok.notAttribute]
  exact List.Subset.refl _

theorem Clash.of_alloc (wf : d.WellFormed) {label : Label} (h : (d.alloc label).2.Clash a b) :
    d.Clash a b := by
  have attributes : ∀ p, (d.alloc label).2.attributes p = d.attributes p := fun p =>
    (links_alloc p label).2.2
  refine h.of_subset (fun p => attributes p ▸ List.Subset.refl _) fun p i hi => ?_
  rw [attributes] at hi
  have has := has_of_parent (wf.parent_of_mem_attributes hi)
  rw [name?, Document.label, record_alloc_of_ne i label fun eq => not_has_alloc label (eq ▸ has)]
  rfl

/-- A set attribute clashes with no other, for what would clash with it makes room. -/
theorem Clash.of_putAttribute (wf : d.WellFormed) {owner attr : NodeId} (ok : d.Settable owner attr)
    (h : (d.putAttribute owner attr).Clash a b) : d.Clash a b := by
  obtain ⟨ne, same, p, ha, hb⟩ := h
  rw [SameName.congr fun i => label_putAttribute i] at same
  have stays : ∀ x, x ∈ (d.putAttribute owner attr).attributes p →
      (x ∈ d.attributes p ∧ x ≠ attr ∧ x ∉ d.overwritten owner attr) ∨ p = owner ∧ x = attr := by
    intro x hx
    rw [attributes_putAttribute wf ok.hasOwner, List.mem_append, List.mem_filter] at hx
    refine hx.imp (fun ⟨mem, out⟩ => ⟨mem, of_decide_eq_true out⟩) fun new => ?_
    split_ifs at new with eq
    · exact ⟨eq, List.mem_singleton.1 new⟩
    · cases new
  have room : ∀ x, x ∈ d.attributes owner → x ≠ attr → d.SameName x attr →
      x ∈ d.overwritten owner attr := fun x mem ne same => (mem_overwritten wf).2 ⟨mem, ne, same⟩
  rcases stays a ha with ⟨memA, neA, inA⟩ | ⟨rfl, rfl⟩ <;>
    rcases stays b hb with ⟨memB, neB, inB⟩ | ⟨eq, rfl⟩
  · exact ⟨ne, same, p, memA, memB⟩
  · subst eq
    exact absurd (room a memA neA same) inA
  · exact absurd (room b memB neB same.symm) inB
  · exact absurd rfl ne

/-- The links of `d` describe a forest, and what clashes in it clashed in `base` already. -/
structure NoNewClash (base d : Document) : Prop where
  wellFormed : d.WellFormed
  old : ∀ a b, d.Clash a b → base.Clash a b

theorem WellFormed.noNewClash (wf : d.WellFormed) : NoNewClash d d := ⟨wf, fun _ _ h => h⟩

end Document

/-! ## Changes of links -/

namespace Edit

variable {base : Document}

/-- No clash comes from a change of links. -/
theorem linkFrame_noNewClash : LinkFrame (NoNewClash base) (fun _ => True) fun _ => True where
  parent _ _ _ _ _ _ := trivial
  child _ _ _ _ _ _ := trivial
  create label _ h :=
    ⟨⟨h.wellFormed.alloc label, fun a b clash => h.old a b (clash.of_alloc h.wellFormed)⟩, trivial⟩
  insertBefore _ _ reference? _ _ := keeps_insertBefore_of (fun _ h => h.wellFormed) fun _ h ok =>
    ⟨h.wellFormed.insertChild reference? ok.hasParent ok.hasChild ok.isParent ok.notAttribute
      ok.notDocument ok.outside, fun a b clash => h.old a b (clash.of_insertChild h.wellFormed ok)⟩
  setAttribute _ _ _ _ := keeps_setAttribute_of fun _ h ok =>
    ⟨h.wellFormed.putAttribute ok.hasOwner ok.hasAttr ok.isElement ok.isAttribute,
      fun a b clash => h.old a b (clash.of_putAttribute h.wellFormed ok)⟩
  remove id _ := keeps_remove_of fun _ h =>
    ⟨h.wellFormed.detach id, fun a b clash => h.old a b (clash.of_detach h.wellFormed)⟩

namespace LinkFrame

variable {I : Document → Prop} (frame : LinkFrame I (fun _ => True) fun _ => True)

include frame

mutual

/-- Trees are built from fresh nodes and links alone. -/
theorem keeps_build : (t : Tree) → Keeps I t.build fun _ => True
  | .node label attributes children => by
    rw [Tree.build]
    split_ifs
    · exact keeps_throw _
    · refine (frame.create label).bind fun id _ => ?_
      refine (keeps_buildAttributes id attributes).bind fun _ _ => ?_
      exact (keeps_buildChildren id (label.kind = .document) children).bind fun _ _ =>
        keeps_pure trivial

theorem keeps_buildAttributes (owner : NodeId) :
    (ts : List Tree) → Keeps I (Tree.buildAttributes owner ts) fun _ => True
  | [] => by
    rw [Tree.buildAttributes]
    exact keeps_pure trivial
  | t :: ts => by
    rw [Tree.buildAttributes]
    refine (keeps_build t).bind fun id _ => ?_
    exact (frame.setAttribute owner id trivial trivial).bind fun _ _ => keeps_buildAttributes owner ts

theorem keeps_buildChildren (parent : NodeId) (skipTypes : Bool) :
    (ts : List Tree) → Keeps I (Tree.buildChildren parent skipTypes ts) fun _ => True
  | [] => by
    rw [Tree.buildChildren]
    exact keeps_pure trivial
  | t :: ts => by
    rw [Tree.buildChildren]
    split_ifs
    · exact keeps_buildChildren parent skipTypes ts
    · refine (keeps_build t).bind fun id _ => ?_
      exact (frame.insertBefore parent id none trivial trivial).bind fun _ _ =>
        keeps_buildChildren parent skipTypes ts

end

end LinkFrame

/-- A new value leaves the name as it is. -/
theorem keeps_setValue_noNewClash (id : NodeId) (value : String) :
    Keeps (NoNewClash base) (setValue id value) fun _ => True :=
  keeps_relabel_of_changed fun d label h changed => by
    refine ⟨h.wellFormed.setLabel id (Label.kind_of_setValue? changed), fun a b clash => ?_⟩
    refine h.old a b (clash.of_subset (fun p => ?_) fun p i _ =>
      name?_setLabel id i (Label.name?_of_setValue? changed))
    rw [attributes_setLabel]
    exact List.Subset.refl _

end Edit

/-! ## Renaming -/

/-- The update gives its target the name of another attribute of the same element. -/
def Update.Collides (u : Update NodeId) (d : Document) (b : NodeId) : Prop :=
  ∃ name, u.action = .rename name ∧ u.target ≠ b ∧
    (∃ p, u.target ∈ d.attributes p ∧ b ∈ d.attributes p) ∧
    ∃ m, d.name? b = some m ∧ name.SameExpanded m

namespace Edit

variable {d d' : Document} {u : Update NodeId} {a b : NodeId}

/-- A renamed attribute has the new name, and all other names and the links are as they were. -/
theorem rename_ok {id : NodeId} {name : Name} (run : rename id name d = .ok () d') :
    (∀ p, d'.attributes p = d.attributes p) ∧ (∀ i, i ≠ id → d'.name? i = d.name? i) ∧
      (d.kind id = .attribute → d'.name? id = some name) := by
  by_cases ok : d.Has id ∧ ((d.label id).rename? name).isSome
  · obtain ⟨label, changed⟩ := Option.isSome_iff_exists.1 ok.2
    have renamed : rename id name d = _ := relabel_ok ok.1 changed
    rw [renamed] at run
    cases run
    refine ⟨fun p => attributes_setLabel id p label, fun i ne => ?_, fun isAttribute => ?_⟩
    · rw [name?, label_setLabel, if_neg fun eq => ne eq.1, name?]
    · rw [name?, label_setLabel, if_pos ⟨rfl, ok.1⟩]
      change (d.label id).kind = .attribute at isAttribute
      cases hl : d.label id <;> rw [hl] at isAttribute changed <;> cases isAttribute
      cases changed
      rfl
  · obtain ⟨e, -, failed⟩ := relabel_error ok
    rw [show rename id name d = _ from failed] at run
    cases run

theorem wellFormed_of_carryOut (wf : d.WellFormed) (run : carryOut u d = .ok () d') : d'.WellFormed :=
  have all : carryOutAll [u] d = .ok () d' := (bind_of_ok run).trans rfl
  (wellFormed_of_carryOutAll wf all).1

/-- The target of a renaming clashes with another attribute after it exactly if it collides. -/
theorem clash_iff_collides (wf : d.WellFormed) {name : Name} (action : u.action = .rename name)
    (run : rename u.target name d = .ok () d') : d'.Clash u.target b ↔ u.Collides d b := by
  obtain ⟨attributes, others, renamed⟩ := rename_ok run
  constructor
  · rintro ⟨ne, ⟨n, m, hn, hm, same⟩, p, target, hb⟩
    rw [attributes] at target hb
    rw [renamed (wf.kind_of_mem_attributes target)] at hn
    cases hn
    exact ⟨name, action, ne, ⟨p, target, hb⟩, m, (others b ne.symm).symm.trans hm, same⟩
  · rintro ⟨name', action', ne, ⟨p, target, hb⟩, m, hm, same⟩
    rw [action] at action'
    cases action'
    refine ⟨ne, ⟨name, m, renamed (wf.kind_of_mem_attributes target), ?_, same⟩, p, ?_, ?_⟩
    · rw [others b ne.symm, hm]
    · rwa [attributes]
    · rwa [attributes]

/-- After an update two attributes clash only if they did before, or if it gave one of them the name of
the other. -/
theorem clash_of_carryOut (wf : d.WellFormed) (run : carryOut u d = .ok () d') (clash : d'.Clash a b) :
    d.Clash a b ∨ u.target = a ∧ u.Collides d b ∨ u.target = b ∧ u.Collides d a := by
  by_cases renames : ∃ name, u.action = .rename name
  · obtain ⟨name, action⟩ := renames
    have rename_run : rename u.target name d = .ok () d' := by
      rw [← run, carryOut, action]
    have collides : ∀ c, d'.Clash u.target c → u.Collides d c := fun c =>
      (clash_iff_collides wf action rename_run).1
    by_cases targetA : u.target = a
    · exact Or.inr (Or.inl ⟨targetA, collides b (targetA ▸ clash)⟩)
    by_cases targetB : u.target = b
    · exact Or.inr (Or.inr ⟨targetB, collides a (targetB ▸ clash.symm)⟩)
    · obtain ⟨attributes, others, -⟩ := rename_ok rename_run
      obtain ⟨ne, same, p, ha, hb⟩ := clash
      rw [attributes] at ha hb
      rw [SameName, others a (Ne.symm targetA), others b (Ne.symm targetB)] at same
      exact Or.inl ⟨ne, same, p, ha, hb⟩
  · have keeps : Keeps (NoNewClash d) (carryOut u) fun _ => True :=
      linkFrame_noNewClash.keeps_carryOut
        ⟨fun _ => trivial, fun _ => trivial, fun _ _ => trivial⟩
        (fun name action => absurd ⟨name, action⟩ renames)
        fun value _ => keeps_setValue_noNewClash u.target value
    exact Or.inl ((keeps.ok wf.noNewClash run).1.old a b clash)

/-- Every clash after a list of updates was there before the list or goes back to a collision. -/
theorem clash_of_carryOutAll {l : List (Update NodeId)} (wf : d.WellFormed)
    (run : carryOutAll l d = .ok () d') (clash : d'.Clash a b) : d.Clash a b ∨
      ∃ before u after d₁, l = before ++ u :: after ∧ carryOutAll before d = .ok () d₁ ∧
        (u.target = a ∧ u.Collides d₁ b ∨ u.target = b ∧ u.Collides d₁ a) := by
  induction l generalizing d with
  | nil =>
    cases run
    exact Or.inl clash
  | cons u l ih =>
    obtain ⟨_, d₁, first, rest⟩ := bind_ok run
    rcases ih (wellFormed_of_carryOut wf first) rest with
      early | ⟨before, v, after, d₂, rfl, run₂, collides⟩
    · exact (clash_of_carryOut wf first early).imp_right fun collides =>
        ⟨[], u, l, d, rfl, rfl, collides⟩
    · exact Or.inr ⟨u :: before, v, after, d₂, rfl, (bind_of_ok first).trans run₂, collides⟩

end Edit

/-! ## Applications -/

namespace Edit

/-- Nodes keep their kind. -/
theorem frame_kind {k : Kind} {i : NodeId} :
    Frame (fun d => d.WellFormed ∧ d.Has i ∧ d.kind i = k) (fun _ => True) fun _ => True where
  parent _ _ _ _ _ _ := trivial
  child _ _ _ _ _ _ := trivial
  create label d h := by
    have grown := h.1.extends_self.alloc label
    exact ⟨⟨grown.wellFormed, grown.has h.2.1, (grown.kind_eq h.2.1).trans h.2.2⟩, trivial⟩
  insertBefore _ _ reference? _ _ := keeps_insertBefore_of (fun _ h => h.1) fun _ h ok =>
    ⟨h.1.insertChild reference? ok.hasParent ok.hasChild ok.isParent ok.notAttribute ok.notDocument
      ok.outside, (has_insertChild reference? i).2 h.2.1, (kind_insertChild reference? i).trans h.2.2⟩
  setAttribute _ _ _ _ := keeps_setAttribute_of fun _ h ok =>
    ⟨h.1.putAttribute ok.hasOwner ok.hasAttr ok.isElement ok.isAttribute,
      (has_putAttribute i).2 h.2.1, (kind_putAttribute i).trans h.2.2⟩
  remove id _ := keeps_remove_of fun _ h =>
    ⟨h.1.detach id, (has_detach id i).2 h.2.1, (kind_detach id i).trans h.2.2⟩
  relabel id _ _ _ kind := keeps_relabel_of kind fun _ label h same =>
    ⟨h.1.setLabel id same, (has_setLabel id i label).2 h.2.1, (kind_setLabel id i same).trans h.2.2⟩

theorem kind_of_carryOutAll {d d' : Document} {l : List (Update NodeId)} {i : NodeId}
    (wf : d.WellFormed) (has : d.Has i) (run : carryOutAll l d = .ok () d') : d'.kind i = d.kind i :=
  ((frame_kind.keeps_carryOutAll fun _ _ =>
    ⟨fun _ => trivial, fun _ => trivial, fun _ _ => trivial⟩).ok ⟨wf, has, rfl⟩ run).1.2.2

end Edit

namespace Evaluate

variable {e e' : Evaluation} {o : Options} {updates : List (Update Pointer)}

/-- Preparing updates makes no attributes clash, and what is prepared are the updates of the list. -/
theorem noNewClash_of_prepareAll (wf : e.document.WellFormed) {prepared : List (Update NodeId)}
    {s : Construction} (run : e.prepareAll o updates = .ok prepared s) :
    NoNewClash e.document s.document ∧ ∀ v ∈ prepared, ∃ u ∈ updates, v.Realizes u := by
  have build : ∀ t : Tree, Keeps (NoNewClash e.document) t.build fun _ => True :=
    Edit.linkFrame_noNewClash.keeps_build
  have prepare : Keeps (fun s => NoNewClash e.document s.document)
      (updates.mapM (Construct.prepare (e.setting o)))
      fun vs => ∀ v ∈ vs, ∃ u ∈ updates, v.Realizes u :=
    keeps_mapM fun u hu => (Construct.keeps_prepare_of_build build u).mono fun v hv => ⟨u, hu, hv⟩
  exact prepare.ok wf.noNewClash run

/-- After an application of updates no element has two attributes of one expanded name exactly when
every collision of the list was resolved by its end; a list that renames no attribute has none. -/
theorem distinct_iff_collisions_resolved (wf : e.document.WellFormed) (distinct : e.document.DistinctAttributes)
    (run : applyUpdates updates o e = .ok () e') :
    (∃ prepared s, e.prepareAll o updates = .ok prepared s ∧
      (e'.document.DistinctAttributes ↔ ∀ before u after d b, inStages prepared = before ++ u :: after →
        Edit.carryOutAll before s.document = .ok () d → u.Collides d b →
          ¬ e'.document.Clash u.target b)) ∧
    ((∀ u ∈ updates, ∀ name, u.action = .rename name → ∀ id, u.target.plainNode? = some id →
      e.document.Has id ∧ e.document.kind id ≠ .attribute) → e'.document.DistinctAttributes) := by
  obtain ⟨-, prepared, s, d', prepare, carryOut, rfl⟩ := applyUpdates_ok run
  obtain ⟨⟨wfs, old⟩, realize⟩ := noNewClash_of_prepareAll wf prepare
  have wf' := (Edit.wellFormed_of_carryOutAll wfs carryOut).1
  have exact_cause : d'.DistinctAttributes ↔ ∀ before u after d b,
      inStages prepared = before ++ u :: after → Edit.carryOutAll before s.document = .ok () d →
        u.Collides d b → ¬ d'.Clash u.target b := by
    rw [Document.distinctAttributes_iff wf']
    refine ⟨fun apart _ u _ _ b _ _ _ => apart u.target b, fun resolved a b clash => ?_⟩
    rcases Edit.clash_of_carryOutAll wfs carryOut clash with early | ⟨before, u, after, d, eq, run, cause⟩
    · exact (Document.distinctAttributes_iff wf).1 distinct a b (old a b early)
    rcases cause with ⟨rfl, collides⟩ | ⟨rfl, collides⟩
    · exact resolved before u after d b eq run collides clash
    · exact resolved before u after d a eq run collides clash.symm
  refine ⟨⟨prepared, s, prepare, exact_cause⟩, fun others => exact_cause.2 ?_⟩
  rintro before v after d b eq run ⟨name, action, -, ⟨p, target, -⟩, -⟩
  obtain ⟨u, hu, realizes⟩ := realize v (mem_inStages.1 (by rw [eq]; simp))
  have renames : u.action = .rename name := by
    have same := realizes.action
    rw [action] at same
    cases hu : u.action <;> rw [hu] at same <;> cases same
    rfl
  obtain ⟨has, kind⟩ := others u hu name renames v.target realizes.target
  have grown : e.document.Extends s.document := by
    have extends_end : e.document.Extends (endState (e.prepareAll o updates)).document :=
      Evaluation.extends_prepareAll wf
    rwa [prepare] at extends_end
  refine absurd ?_ kind
  rw [← grown.kind_eq has, ← Edit.kind_of_carryOutAll wfs (grown.has has) run]
  exact (Edit.wellFormed_of_carryOutAll wfs run).1.kind_of_mem_attributes target

/-- Two attributes swap their names: the first renaming collides, and the second resolves that. -/
theorem names_swapped :
    let t : Tree := .node (.element (.unqualified "e"))
      [.leaf (.attribute (.unqualified "a") "1"), .leaf (.attribute (.unqualified "b") "2")] []
    let e := Evaluation.start (holding t)
    let updates : List (Update Pointer) :=
      [⟨.real ⟨1⟩, .rename (.unqualified "b")⟩, ⟨.real ⟨2⟩, .rename (.unqualified "a")⟩]
    ∃ e', applyUpdates updates {} e = .ok () e' ∧
      e'.document.toXml ⟨0⟩ = "<e b=\"1\" a=\"2\"/>" ∧
      (⟨⟨1⟩, .rename (.unqualified "b")⟩ : Update NodeId).Collides e.document ⟨2⟩ ∧
      ∃ prepared s, e.prepareAll {} updates = .ok prepared s ∧
        ∀ before u after d b, inStages prepared = before ++ u :: after →
          Edit.carryOutAll before s.document = .ok () d → u.Collides d b →
            ¬ e'.document.Clash u.target b := by
  intro t e updates
  have wf : e.document.WellFormed := wellFormed_holding t
  have distinct : e.document.DistinctAttributes := .of_nodes (by decide +kernel)
  have run := ok_endState (r := applyUpdates updates {} e) (by decide +kernel)
  obtain ⟨⟨prepared, s, prepare, resolved⟩, -⟩ :=
    distinct_iff_collisions_resolved wf distinct run
  have again : (endState (applyUpdates updates {} e)).document.DistinctAttributes :=
    .of_nodes (by decide +kernel)
  refine ⟨_, run, by decide +kernel, ?_, prepared, s, prepare, resolved.1 again⟩
  exact ⟨_, rfl, by decide, ⟨⟨0⟩, by decide +kernel⟩, _, by decide +kernel, ⟨rfl, rfl⟩⟩

/-- An attribute is given the name of another attribute of its element, and both keep it. -/
theorem clash_after_renaming :
    let t : Tree := .node (.element (.unqualified "e"))
      [.leaf (.attribute (.unqualified "a") "1"), .leaf (.attribute (.unqualified "b") "2")] []
    let e := Evaluation.start (holding t)
    let updates : List (Update Pointer) := [⟨.real ⟨1⟩, .rename (.unqualified "b")⟩]
    e.document.WellFormed ∧ e.document.DistinctAttributes ∧
      ∃ e', applyUpdates updates {} e = .ok () e' ∧ ¬ e'.document.DistinctAttributes ∧
        e'.document.toXml ⟨0⟩ = "<e b=\"1\" b=\"2\"/>" := by
  intro t e updates
  have run := ok_endState (r := applyUpdates updates {} e) (by decide +kernel)
  refine ⟨wellFormed_holding t, .of_nodes (by decide +kernel), _, run, fun distinct => ?_,
    by decide +kernel⟩
  exact absurd (distinct ⟨0⟩) (by decide +kernel)

end Evaluate

end VirtualTree
