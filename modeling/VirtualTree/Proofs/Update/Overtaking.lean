import VirtualTree.Proofs.Update.Early
import VirtualTree.Proofs.Update.Run

/-!
# Overtaken replacements

Setting an attribute displaces an attribute of the same name.  So an attribute that is to be replaced
may lose its element first, to an attribute that another update of the list sets (`Overtakes`), and
then its own replacement fails when other updates were made already.  A list that was checked and
prepared fails for this reason and for no other (`Underway.carryOutAll_error_iff`).
-/

namespace VirtualTree

open Document

namespace Update

/-- The name that the renames of a list leave an attribute with. -/
def nameAfter (l : List (Update NodeId)) (x : NodeId) (name? : Option Name) : Option Name :=
  (l.filter fun u => u.target = x).foldl (fun name? u => u.action.renamed name?) name?

/-- The element on which an update sets attributes, if it does. -/
def owner? (d : Document) (u : Update NodeId) : Option NodeId :=
  match u.action with
  | .insertAttributes _ => some u.target
  | .replaceNode _ => if d.kind u.target = .attribute then d.parent? u.target else none
  | _ => none

/-- The update `v` sets an attribute on the element of the attribute `x`, of the name that `x` has
after the updates `earlier`. -/
def Overtakes (d : Document) (earlier : List (Update NodeId)) (v : Update NodeId) (x : NodeId) : Prop :=
  ∃ o, v.owner? d = some o ∧ d.parent? x = some o ∧ ∃ a ∈ v.content, ∃ n m,
    nameAfter earlier x (d.name? x) = some n ∧ d.name? a = some m ∧ n.SameExpanded m

/-- Some update of a list overtakes the replacement of an attribute later in the list. -/
def Overtaken (d : Document) (l : List (Update NodeId)) : Prop :=
  ∃ earlier v between x nodes later,
    l = earlier ++ v :: (between ++ ⟨x, .replaceNode nodes⟩ :: later) ∧ d.kind x = .attribute ∧
      v.Overtakes d earlier x

end Update

open Update

section Step

variable {base d d₁ : Document} {u v : Update NodeId} {rest earlier : List (Update NodeId)}
  {x : NodeId}

/-- An attribute loses its element when it is removed or replaced, or to one of its name. -/
theorem Update.detaches_attribute_iff (wf : d.WellFormed) (isAttribute : d.kind x = .attribute) :
    u.Detaches d x ↔ u.target = x ∧ (u.action = .delete ∨ ∃ nodes, u.action = .replaceNode nodes) ∨
      ∃ o, u.owner? d = some o ∧ d.Displaces o u.content x := by
  obtain ⟨target, action⟩ := u
  cases action with
  | insertAttributes nodes => simp [Detaches, owner?, Update.content, Action.content]
  | replaceNode nodes =>
    by_cases kind : d.kind target = .attribute <;>
      simp [Detaches, owner?, Update.content, Action.content, kind, eq_comm]
  | replaceElementContent text =>
    have : x ∉ d.children target := fun mem => wf.kind_of_mem_children mem isAttribute
    simp [Detaches, owner?, this]
  | delete => simp [Detaches, owner?, eq_comm]
  | insert | rename | replaceValue | put => simp [Detaches, owner?]

theorem nameAfter_cons (name? : Option Name) : nameAfter (u :: earlier) x name? =
    nameAfter earlier x (if u.target = x then u.action.renamed name? else name?) := by
  unfold nameAfter
  rw [List.filter_cons]
  by_cases target : u.target = x <;> simp [target]

variable (start : Underway base (u :: rest) d) (step : Stepped u d d₁)

include start step

theorem Stepped.nameAfter_cons (has : base.Has x) (isAttribute : d.kind x = .attribute) :
    nameAfter (u :: earlier) x (d.name? x) = nameAfter earlier x (d₁.name? x) := by
  rw [VirtualTree.nameAfter_cons]
  split_ifs with target
  · subst target
    rw [step.name isAttribute]
  · rw [Document.name?, ← step.label x (start.has has) (Ne.symm target), Document.name?]

/-- What later updates bring in keeps its name. -/
theorem Stepped.name?_content (hv : v ∈ rest) {a : NodeId} (ha : a ∈ v.content) :
    d₁.name? a = d.name? a := by
  obtain ⟨fresh, has⟩ := start.content a
    (List.mem_flatMap_of_mem (List.mem_cons_of_mem u hv) ha)
  rw [Document.name?, step.label a has fun e => fresh (e ▸ start.target u List.mem_cons_self),
    Document.name?]

/-- Whether a later update overtakes a replacement does not change while both attributes concerned
keep their element. -/
theorem Stepped.overtakes_iff (hv : v ∈ rest) (has : base.Has x)
    (isAttribute : d.kind x = .attribute) (owner : v.owner? d₁ = v.owner? d)
    (parent : d₁.parent? x = d.parent? x) :
    v.Overtakes d (u :: earlier) x ↔ v.Overtakes d₁ earlier x := by
  unfold Overtakes
  rw [owner, parent, step.nameAfter_cons start has isAttribute]
  apply exists_congr
  intro o
  apply and_congr_right
  intro _
  apply and_congr_right
  intro _
  apply exists_congr
  intro a
  apply and_congr_right
  intro ha
  rw [step.name?_content start hv ha]

/-- An update that still sets attributes on an element did so before. -/
theorem Stepped.owner?_eq (has : base.Has v.target) {o : NodeId} (owner : v.owner? d₁ = some o) :
    v.owner? d = some o := by
  unfold owner? at owner ⊢
  split at owner
  · exact owner
  · rw [step.kind] at owner
    split_ifs at owner ⊢ with isAttribute
    rcases step.parent?_eq_or start has with same | lost
    · rwa [same] at owner
    · rw [lost] at owner
      cases owner
  · cases owner

end Step

namespace CarriedOut

variable {base d d' : Document} {done rest : List (Update NodeId)} {x : NodeId}

/-- An attribute that was replaced had an element all the time before. -/
theorem attached {nodes : List NodeId} (h : CarriedOut base rest done d d')
    (mem : ⟨x, .replaceNode nodes⟩ ∈ done) : (d.parent? x).isSome := by
  induction h with
  | nil => cases mem
  | @cons u done d d₁ d' start run step carried ih =>
    have has : base.Has x := start.target _ (List.mem_append_left rest mem)
    rcases List.mem_cons.1 mem with rfl | mem
    · rw [← Option.ne_none_iff_isSome]
      intro parent
      have failed : Edit.carryOut ⟨x, .replaceNode nodes⟩ d = .error .lostParent d :=
        bind_of_error (Edit.parentOf_error parent)
      rw [run] at failed
      cases failed
    · have attached := ih mem
      rcases step.parent?_eq_or start has with same | lost
      · rwa [same] at attached
      · rw [lost] at attached
        cases attached

/-- No replacement was overtaken in a list that was carried out. -/
theorem not_overtaken (h : CarriedOut base rest done d d') : ¬ Overtaken d done := by
  induction h with
  | nil =>
    rintro ⟨earlier, v, between, x, nodes, later, eq, -⟩
    simp at eq
  | @cons u done d d₁ d' start _ step carried ih =>
    rintro ⟨earlier, v, between, x, nodes, later, eq, isAttribute, overtakes⟩
    have mem : ⟨x, .replaceNode nodes⟩ ∈ u :: done := by
      rw [eq]
      simp
    have has : base.Has x := start.target _ (List.mem_append_left rest mem)
    cases earlier with
    | nil =>
      -- The first update takes the element away, which the replacement needs later.
      obtain ⟨rfl, rfl⟩ := List.cons.inj eq
      obtain ⟨o, owner, parent, a, ha, n, m, name, name', same⟩ := overtakes
      have detached : u.Detaches d x := (detaches_attribute_iff start.wellFormed isAttribute).2
        (Or.inr ⟨o, owner, parent, isAttribute, a, ha, n, m, name, name', same⟩)
      have lost := step.detached x (start.has has) (fun hn => (start.content_head hn).1 has) detached
      have later_mem : ⟨x, .replaceNode nodes⟩ ∈ between ++ ⟨x, .replaceNode nodes⟩ :: later := by simp
      have attached := carried.attached later_mem
      rw [lost] at attached
      cases attached
    | cons w earlier =>
      obtain ⟨rfl, rfl⟩ := List.cons.inj eq
      have same : ∀ y nodes', ⟨y, .replaceNode nodes'⟩ ∈ earlier ++ v :: (between ++
          ⟨x, .replaceNode nodes⟩ :: later) → d₁.parent? y = d.parent? y := fun y nodes' mem => by
        have attached := carried.attached mem
        refine (step.parent?_eq_or start ?_).resolve_right fun lost => ?_
        · exact start.target ⟨y, .replaceNode nodes'⟩
            (List.mem_cons_of_mem u (List.mem_append_left rest mem))
        · rw [lost] at attached
          cases attached
      have owner : v.owner? d₁ = v.owner? d := by
        obtain ⟨target, action⟩ := v
        cases action with
        | replaceNode nodes' => simp only [owner?, step.kind, same target nodes' (by simp)]
        | insert | insertAttributes | rename | delete | replaceValue | replaceElementContent | put =>
          rfl
      refine ih ⟨earlier, v, between, x, nodes, later, rfl, (step.kind x).trans isAttribute, ?_⟩
      exact (step.overtakes_iff start (List.mem_append_left rest (by simp)) has isAttribute owner
        (same x nodes (by simp))).1 overtakes

/-- An attribute that lost its element, and was neither removed nor replaced, was overtaken. -/
theorem exists_overtakes (h : CarriedOut base rest done d d') (has : base.Has x)
    (isAttribute : d.kind x = .attribute) (parent : (d.parent? x).isSome) (lost : d'.parent? x = none)
    (spared : ∀ u ∈ done, u.target = x → u.action ≠ .delete ∧ ∀ nodes, u.action ≠ .replaceNode nodes) :
    ∃ earlier v between, done = earlier ++ v :: between ∧ v.Overtakes d earlier x := by
  induction h with
  | nil =>
    rw [lost] at parent
    cases parent
  | @cons u done d d₁ d' start _ step carried ih =>
    by_cases detached : u.Detaches d x
    · rcases (detaches_attribute_iff start.wellFormed isAttribute).1 detached with
        ⟨target, delete | ⟨nodes, replaceNode⟩⟩ | ⟨o, owner, hp, -, a, ha, n, m, name, name', same⟩
      · exact absurd delete (spared u List.mem_cons_self target).1
      · exact absurd replaceNode ((spared u List.mem_cons_self target).2 nodes)
      · exact ⟨[], u, done, rfl, o, owner, hp, a, ha, n, m, name, name', same⟩
    · have same := step.parent x (start.has has) (fun hn => (start.content_head hn).1 has) detached
      obtain ⟨earlier, v, between, rfl, overtakes⟩ := ih ((step.kind x).trans isAttribute)
        (by rwa [same]) lost fun v hv => spared v (List.mem_cons_of_mem u hv)
      refine ⟨u :: earlier, v, between, rfl, ?_⟩
      have hv : v ∈ earlier ++ v :: between ++ rest := List.mem_append_left rest (by simp)
      have owner : v.owner? d₁ = v.owner? d := by
        obtain ⟨o, owner, -⟩ := overtakes
        rw [owner, step.owner?_eq start (start.target v (List.mem_cons_of_mem u hv)) owner]
      exact (step.overtakes_iff start hv has isAttribute owner same).2 overtakes

end CarriedOut

/-- A list that can be carried out fails exactly when a replacement is overtaken; the attribute that
was to be replaced has lost its element then. -/
theorem Underway.carryOutAll_error_iff {base d : Document} {l : List (Update NodeId)}
    (h : Underway base l d)
    (attached : ∀ u ∈ l, u.action.NeedsParent → (d.parent? u.target).isSome) :
    (∃ cause d', Edit.carryOutAll l d = .error cause d') ↔ Overtaken d l := by
  constructor
  · rintro ⟨cause, d', run⟩
    rcases h.carryOutAll with ⟨_, run', -⟩ | ⟨done, x, nodes, rest, d₁, rfl, carried, kind, lost, -⟩
    · rw [run] at run'
      cases run'
    · have mem : ⟨x, .replaceNode nodes⟩ ∈ done ++ ⟨x, .replaceNode nodes⟩ :: rest := by simp
      rw [carried.kind] at kind
      obtain ⟨earlier, v, between, rfl, overtakes⟩ := carried.exists_overtakes (h.target _ mem) kind
        (attached _ mem trivial) lost fun u hu target => by
          have precedes := (List.pairwise_append.1 h.ordered).2.2 u hu _ List.mem_cons_self
          refine ⟨fun delete => ?_, fun nodes' replaceNode => ?_⟩
          · have := precedes.stage_le
            rw [delete] at this
            simp [Action.stage] at this
          · have same : u.kind = .replaceNode := by rw [Update.kind, replaceNode]; rfl
            exact precedes.target_ne same (Or.inl same) target
      exact ⟨earlier, v, between, x, nodes, rest, by simp, kind, overtakes⟩
  · intro overtaken
    rcases h.carryOutAll with ⟨_, -, carried⟩ | ⟨_, _, _, _, d', -, -, -, -, run⟩
    · exact absurd overtaken carried.not_overtaken
    · exact ⟨_, d', run⟩

end VirtualTree
