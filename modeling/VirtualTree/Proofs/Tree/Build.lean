import VirtualTree.Proofs.Document.Tree
import VirtualTree.Proofs.Tree.Copy

/-!
# Building copies

Building succeeds for what can be copied, in every document, and gives a node with the copy below it
(`Copyable.buildsCopy`), and it succeeds for nothing else (`copyableIfBuilt`).  So a faithful tree is built
as it is (`Faithful.buildsAsIs`): no attribute displaces another and nothing is left out.
-/

namespace VirtualTree

open Document

theorem Tree.label_of_tree {d : Document} (wf : d.WellFormed) {id : NodeId} {t : Tree}
    (h : d.tree id = t) : d.label id = t.label := by
  rw [← h, wf.tree_eq]
  rfl

namespace Document

theorem label_tree {d : Document} (wf : d.WellFormed) (id : NodeId) : (d.tree id).label = d.label id :=
  (Tree.label_of_tree wf rfl).symm

theorem kind_tree {d : Document} (wf : d.WellFormed) (id : NodeId) : (d.tree id).kind = d.kind id :=
  congrArg Label.kind (label_tree wf id)

/-- Of the trees below nodes those are copied that are not to be skipped. -/
theorem taken_map_tree {d : Document} (wf : d.WellFormed) (skipTypes : Bool) (l : List NodeId) :
    Tree.taken skipTypes (l.map d.tree) =
      (l.filter fun c => !(skipTypes && d.kind c = .documentType)).map d.tree := by
  rw [Tree.taken, List.filter_map]
  refine congrArg _ (List.filter_congr fun c _ => ?_)
  rw [Function.comp_apply, kind_tree wf]

/-! ## Trees on a node after an edit -/

variable {d : Document} {owner n : NodeId}

/-- A top stands at or below no other node. -/
theorem Top.eq_of_atOrAbove (top : d.Top owner) (above : d.AtOrAbove owner n) : n = owner := by
  rcases atOrAbove_iff.1 above with eq | ⟨p, hp, -⟩
  · exact eq
  · rw [top.parent] at hp
    cases hp

theorem Top.not_atOrAbove (top : d.Top owner) (ne : owner ≠ n) : ¬ d.AtOrAbove owner n := fun above =>
  ne (top.eq_of_atOrAbove above).symm

theorem Top.children_filter (wf : d.WellFormed) (top : d.Top n) (i : NodeId) :
    (d.children i).filter (· ≠ n) = d.children i :=
  List.filter_eq_self.2 fun c hc => by
    simpa using fun eq : c = n => wf.not_mem_children_of_parent_none top.parent i (eq ▸ hc)

theorem Top.not_mem_attributes (wf : d.WellFormed) (top : d.Top n) (i : NodeId) :
    n ∉ d.attributes i :=
  wf.not_mem_attributes_of_parent_none top.parent i

/-- A fresh node has nothing below it. -/
theorem trees_alloc (d : Document) (label : Label) :
    (d.alloc label).2.label (d.alloc label).1 = label ∧
      (d.alloc label).2.attributeTrees (d.alloc label).1 = [] ∧
      (d.alloc label).2.childTrees (d.alloc label).1 = [] := by
  rw [Document.label, attributeTrees, childTrees, attributes, children, record_alloc_self]
  exact ⟨rfl, rfl, rfl⟩

section Insert

variable (wf : d.WellFormed) (fresh : d.Top n) (ok : d.Insertable owner n none)

include wf fresh ok

/-- An insertion shows only in trees that the parent stands in. -/
theorem tree_insertChild {x : NodeId} (apart : ¬ d.AtOrAbove owner x) :
    (d.insertChild owner n none).tree x = d.tree x := by
  have wf' := wf.insertChild none ok.hasParent ok.hasChild ok.isParent ok.notAttribute
    ok.notDocument ok.outside
  refine tree_congr wf wf' fun i hi => ⟨label_insertChild none i,
    attributes_insertChild none wf ok.notAttribute i, ?_⟩
  rw [children_insertChild none wf ok.hasParent, if_neg fun eq : i = owner => apart (eq ▸ hi)]
  exact fresh.children_filter wf i

theorem attributeTrees_insertChild :
    (d.insertChild owner n none).attributeTrees owner = d.attributeTrees owner := by
  rw [attributeTrees, attributes_insertChild none wf ok.notAttribute]
  exact List.map_congr_left fun c hc => tree_insertChild wf fresh ok
    (wf.not_atOrAbove_parent (wf.parent_of_mem_attributes hc))

theorem childTrees_insertChild :
    (d.insertChild owner n none).childTrees owner = d.childTrees owner ++ [d.tree n] := by
  have others : (d.children owner).map (d.insertChild owner n none).tree = d.childTrees owner :=
    List.map_congr_left fun c hc => tree_insertChild wf fresh ok
      (wf.not_atOrAbove_parent (wf.parent_of_mem_children hc))
  rw [childTrees, children_insertChild none wf ok.hasParent, if_pos rfl, fresh.children_filter wf,
    insertEntry, List.map_append, others, List.map_singleton,
    tree_insertChild wf fresh ok ok.outside]

end Insert

/-- The attributes with other names stay. -/
theorem not_mem_overwritten_iff (wf : d.WellFormed) (fresh : d.Top n) {a : NodeId}
    (ha : a ∈ d.attributes owner) : a ∉ d.overwritten owner n ↔ (d.tree a).Apart (d.tree n) := by
  have other : a ≠ n := fun eq => fresh.not_mem_attributes wf owner (eq ▸ ha)
  rw [mem_overwritten wf, Tree.Apart, label_tree wf, label_tree wf]
  refine ⟨fun stays n hn m hm same => stays ⟨ha, other, n, m, hn, hm, same⟩, ?_⟩
  rintro apart ⟨-, -, n, m, hn, hm, same⟩
  exact apart n hn m hm same

section PutAttribute

variable (wf : d.WellFormed) (fresh : d.Top n) (ok : d.Settable owner n)

include wf fresh ok

theorem attributes_putAttribute_of_top (i : NodeId) : (d.putAttribute owner n).attributes i =
    (d.attributes i).filter (· ∉ d.overwritten owner n) ++ if i = owner then [n] else [] := by
  rw [attributes_putAttribute wf ok.hasOwner]
  congr 1
  refine List.filter_congr fun a ha => ?_
  have ne : a ≠ n := fun eq => fresh.not_mem_attributes wf i (eq ▸ ha)
  simp [ne]

/-- Setting an attribute shows only in trees that the owner stands in. -/
theorem tree_putAttribute {x : NodeId} (apart : ¬ d.AtOrAbove owner x) :
    (d.putAttribute owner n).tree x = d.tree x := by
  have wf' := wf.putAttribute ok.hasOwner ok.hasAttr ok.isElement ok.isAttribute
  refine tree_congr wf wf' fun i hi => ⟨label_putAttribute i, ?_,
    children_putAttribute wf ok.isAttribute i⟩
  have ne : i ≠ owner := fun eq => apart (eq ▸ hi)
  rw [attributes_putAttribute_of_top wf fresh ok, if_neg ne, List.append_nil]
  refine List.filter_eq_self.2 fun a ha => decide_eq_true fun gone => ne ?_
  have parent := wf.parent_of_mem_attributes ((mem_overwritten wf).1 gone).1
  exact Option.some.inj ((wf.parent_of_mem_attributes ha).symm.trans parent)

/-- The attribute joins those that have other names. -/
theorem attributeTrees_putAttribute : (d.putAttribute owner n).attributeTrees owner =
    (d.attributeTrees owner).filter (·.Apart (d.tree n)) ++ [d.tree n] := by
  have ne : n ≠ owner := fun eq => by
    have kind := ok.isAttribute
    rw [eq, ok.isElement] at kind
    cases kind
  have others : ((d.attributes owner).filter (· ∉ d.overwritten owner n)).map
      (d.putAttribute owner n).tree = (d.attributeTrees owner).filter (·.Apart (d.tree n)) := by
    rw [attributeTrees, List.filter_map, List.filter_congr fun a ha =>
      decide_eq_decide.2 (not_mem_overwritten_iff wf fresh ha)]
    exact List.map_congr_left fun a ha => tree_putAttribute wf fresh ok
      (wf.not_atOrAbove_parent (wf.parent_of_mem_attributes (List.mem_of_mem_filter ha)))
  rw [attributeTrees, attributes_putAttribute_of_top wf fresh ok, if_pos rfl, List.map_append, others,
    List.map_singleton, tree_putAttribute wf fresh ok (wf.not_atOrAbove_attribute ok.isAttribute ne)]

theorem childTrees_putAttribute :
    (d.putAttribute owner n).childTrees owner = d.childTrees owner := by
  rw [childTrees, children_putAttribute wf ok.isAttribute]
  exact List.map_congr_left fun c hc => tree_putAttribute wf fresh ok
    (wf.not_atOrAbove_parent (wf.parent_of_mem_children hc))

end PutAttribute

end Document

/-! ## Copies that are built -/

namespace Tree

/-- Building the tree succeeds in every document and gives a node with the copy below it. -/
def BuildsCopy (t : Tree) : Prop :=
  ∀ d : Document, d.WellFormed → ∃ n d', t.build d = .ok n d' ∧ d'.tree n = t.copied

/-- The parts of what can be built as it is can be built as they are. -/
theorem Faithful.of_mem_links {d : Document} (wf : d.WellFormed) {id : NodeId}
    (h : (d.tree id).Faithful) : ∀ c ∈ d.links id, (d.tree c).Faithful := by
  rw [wf.tree_eq] at h
  cases h with
  | node _ _ _ _ _ _ below =>
    intro c hc
    rw [← List.map_append] at below
    exact below _ (List.mem_map_of_mem hc)

section Loops

variable {d : Document} {owner : NodeId} {ts : List Tree}

/-- The copies join the children of a top, in order. -/
theorem exists_buildChildren {skipTypes : Bool} (builds : ∀ t ∈ taken skipTypes ts, t.BuildsCopy)
    (isChild : ∀ t ∈ taken skipTypes ts, t.kind ≠ .attribute ∧ t.kind ≠ .document)
    (wf : d.WellFormed) (top : d.Top owner)
    (isParent : taken skipTypes ts ≠ [] → (d.kind owner).isParent) :
    ∃ d', buildChildren owner skipTypes ts d = .ok () d' ∧ d'.label owner = d.label owner ∧
      d'.attributeTrees owner = d.attributeTrees owner ∧
      d'.childTrees owner = d.childTrees owner ++ (taken skipTypes ts).map copied := by
  induction ts generalizing d with
  | nil => exact ⟨d, by rw [buildChildren]; rfl, rfl, rfl, (List.append_nil _).symm⟩
  | cons t ts ih =>
    by_cases skip : skipTypes && t.kind = .documentType
    · rw [taken_cons_of_skipped skip] at builds isChild isParent ⊢
      obtain ⟨d', run, rest⟩ := ih builds isChild wf top isParent
      refine ⟨d', ?_, rest⟩
      rw [buildChildren, if_pos skip]
      exact run
    rw [taken_cons_of_not_skipped skip] at builds isChild isParent ⊢
    rw [List.forall_mem_cons] at builds isChild
    obtain ⟨n, d₁, built, tree⟩ := builds.1 d wf
    obtain ⟨grown, outside⟩ := (keeps_build t).ok wf.extends_self built
    have top₁ := grown.top top
    have ne : n ≠ owner := fun eq => outside (eq ▸ top.has)
    have kind : d₁.kind n = t.kind := by rw [← kind_copied, ← tree, kind_tree grown.wellFormed]
    have open₁ : (d₁.kind owner).isParent := by
      rw [grown.kind_eq top.has]
      exact isParent (List.cons_ne_nil _ _)
    have fresh := top_of_build wf built
    have ok : d₁.Insertable owner n none := {
      hasParent := top₁.has
      hasChild := fresh.has
      isParent := open₁
      notAttribute := kind ▸ isChild.1.1
      notDocument := kind ▸ isChild.1.2
      outside := top₁.not_atOrAbove ne.symm
      position := by simp }
    have wf₂ := grown.wellFormed.insertChild none ok.hasParent ok.hasChild ok.isParent
      ok.notAttribute ok.notDocument ok.outside
    obtain ⟨d', run, label, attributes, children⟩ := ih builds.2 isChild.2 wf₂
      (top₁.insertChild ok ne) fun _ => by rwa [kind_insertChild]
    refine ⟨d', ?_, ?_, ?_, ?_⟩
    · rw [buildChildren, if_neg skip]
      have attach := Edit.insertBefore_none_ok grown.wellFormed ok
      exact (bind_of_ok built).trans ((bind_of_ok attach).trans run)
    · rw [label, label_insertChild, grown.label_eq top.has]
    · rw [attributes, attributeTrees_insertChild grown.wellFormed fresh ok,
        grown.attributeTrees_eq top.has]
    · rw [children, childTrees_insertChild grown.wellFormed fresh ok, tree,
        grown.childTrees_eq top.has, List.append_assoc, List.singleton_append, List.map_cons]

/-- The copies join the attributes of a top, and each displaces those with its name. -/
theorem exists_buildAttributes (builds : ∀ t ∈ ts, t.BuildsCopy)
    (isAttribute : ∀ t ∈ ts, t.kind = .attribute)
    (wf : d.WellFormed) (top : d.Top owner) (isElement : ts ≠ [] → d.kind owner = .element)
    (apart : (d.attributeTrees owner).Pairwise Apart) :
    ∃ d', buildAttributes owner ts d = .ok () d' ∧ d'.label owner = d.label owner ∧
      d'.attributeTrees owner = (d.attributeTrees owner ++ ts.map copied).pwFilter Apart ∧
      d'.childTrees owner = d.childTrees owner := by
  induction ts generalizing d with
  | nil =>
    refine ⟨d, by rw [buildAttributes]; rfl, rfl, ?_, rfl⟩
    rw [List.map_nil, List.append_nil, List.pwFilter_eq_self.2 apart]
  | cons t ts ih =>
    rw [List.forall_mem_cons] at builds isAttribute
    obtain ⟨n, d₁, built, tree⟩ := builds.1 d wf
    obtain ⟨grown, outside⟩ := (keeps_build t).ok wf.extends_self built
    have top₁ := grown.top top
    have ne : n ≠ owner := fun eq => outside (eq ▸ top.has)
    have kind : d₁.kind n = t.kind := by rw [← kind_copied, ← tree, kind_tree grown.wellFormed]
    have element₁ : d₁.kind owner = .element := by
      rw [grown.kind_eq top.has]
      exact isElement (List.cons_ne_nil _ _)
    have fresh := top_of_build wf built
    have ok : d₁.Settable owner n := {
      hasOwner := top₁.has
      hasAttr := fresh.has
      isElement := element₁
      isAttribute := kind.trans isAttribute.1 }
    have wf₂ := grown.wellFormed.putAttribute ok.hasOwner ok.hasAttr ok.isElement ok.isAttribute
    have joined := attributeTrees_putAttribute grown.wellFormed fresh ok
    rw [tree, grown.attributeTrees_eq top.has] at joined
    have apart₂ : ((d₁.putAttribute owner n).attributeTrees owner).Pairwise Apart := by
      rw [joined]
      refine List.pairwise_append.2 ⟨apart.filter _, List.pairwise_singleton _ _, fun u hu v hv => ?_⟩
      rw [List.mem_singleton.1 hv]
      exact of_decide_eq_true (List.mem_filter.1 hu).2
    obtain ⟨d', run, label, attributes, children⟩ := ih builds.2 isAttribute.2 wf₂
      (top₁.putAttribute ok ne) (fun _ => (kind_putAttribute owner).trans element₁) apart₂
    refine ⟨d', ?_, ?_, ?_, ?_⟩
    · rw [buildAttributes]
      exact (bind_of_ok built).trans ((bind_of_ok (Edit.setAttribute_ok ok)).trans run)
    · rw [label, label_putAttribute, grown.label_eq top.has]
    · rw [attributes, joined, List.append_assoc, List.singleton_append, List.map_cons,
        pwFilter_filter_append (R := Apart) Apart.split]
    · rw [children, childTrees_putAttribute grown.wellFormed fresh ok,
        grown.childTrees_eq top.has]

end Loops

/-- What can be copied is built as its copy. -/
theorem Copyable.buildsCopy {t : Tree} (h : t.Copyable) : t.BuildsCopy := by
  induction h with
  | @node label attributes children visible isElement isParent isAttribute isChild _ ih =>
    intro d wf
    rw [List.forall_mem_append] at ih
    have wf₀ := wf.alloc label
    have top₀ := d.top_alloc label
    obtain ⟨label₀, attributes₀, children₀⟩ := d.trees_alloc label
    obtain ⟨d₁, run₁, label₁, attributes₁, children₁⟩ := exists_buildAttributes ih.1 isAttribute wf₀
      top₀ (fun some => by rw [Document.kind, label₀, isElement some]) (attributes₀ ▸ .nil)
    obtain ⟨wf₁, top₁⟩ := ((keeps_buildAttributes_top attributes).ok ⟨wf₀, top₀⟩ run₁).1
    obtain ⟨d₂, run₂, label₂, attributes₂, children₂⟩ := exists_buildChildren ih.2 isChild wf₁ top₁
      fun some => by rw [Document.kind, label₁, label₀]; exact isParent some
    have wf₂ := ((keeps_buildChildren_top _ children).ok ⟨wf₁, top₁⟩ run₂).1.1
    refine ⟨(d.alloc label).1, d₂, ?_, ?_⟩
    · rw [build, if_neg visible]
      have created := Edit.create_ok (d := d) label
      exact (bind_of_ok created).trans ((bind_of_ok run₁).trans ((bind_of_ok run₂).trans rfl))
    · rw [wf₂.tree_eq_node, label₂, label₁, label₀, attributes₂, attributes₁, attributes₀, children₂,
        children₁, children₀, copied_node]
      rfl

/-- A faithful tree is built as it is. -/
theorem Faithful.buildsAsIs {t : Tree} (h : t.Faithful) {d : Document} (wf : d.WellFormed) :
    ∃ n d', t.build d = .ok n d' ∧ d'.tree n = t := by
  obtain ⟨n, d', run, tree⟩ := h.copyable.buildsCopy d wf
  exact ⟨n, d', run, tree.trans h.copied_eq⟩

theorem Copyable.tree_of_build {t : Tree} (h : t.Copyable) {d d' : Document} {n : NodeId}
    (wf : d.WellFormed) (run : t.build d = .ok n d') : d'.tree n = t.copied := by
  obtain ⟨m, e, run', tree⟩ := h.buildsCopy d wf
  rw [run] at run'
  cases run'
  exact tree

/-! ## Only what can be copied is built -/

/-- The tree can be copied if it was built in some document. -/
def CopyableIfBuilt (t : Tree) : Prop :=
  ∀ d n d', d.WellFormed → t.build d = .ok n d' → t.Copyable

section Loops

variable {d d' : Document} {owner : NodeId} {ts : List Tree}

theorem copyable_of_buildAttributes (copyable : ∀ t ∈ ts, t.CopyableIfBuilt) (wf : d.WellFormed)
    (has : d.Has owner) (run : buildAttributes owner ts d = .ok () d') :
    (ts ≠ [] → d.kind owner = .element) ∧ ∀ t ∈ ts, t.kind = .attribute ∧ t.Copyable := by
  induction ts generalizing d with
  | nil => exact ⟨fun some => absurd rfl some, List.forall_mem_nil _⟩
  | cons t ts ih =>
    rw [buildAttributes] at run
    obtain ⟨n, d₁, built, run⟩ := bind_ok run
    obtain ⟨_, d₂, set, run⟩ := bind_ok run
    rw [List.forall_mem_cons] at copyable
    have copies := copyable.1 d n d₁ wf built
    have grown := ((keeps_build t).ok wf.extends_self built).1
    obtain ⟨ok, rfl⟩ := Edit.settable_of_ok set
    have wf₂ := grown.wellFormed.putAttribute ok.hasOwner ok.hasAttr ok.isElement ok.isAttribute
    obtain ⟨-, rest⟩ := ih copyable.2 wf₂ ((has_putAttribute owner).2 ok.hasOwner) run
    refine ⟨fun _ => ?_, List.forall_mem_cons.2 ⟨⟨?_, copies⟩, rest⟩⟩
    · rw [← grown.kind_eq has]
      exact ok.isElement
    · rw [← kind_copied, ← copies.tree_of_build wf built, kind_tree grown.wellFormed]
      exact ok.isAttribute

theorem copyable_of_buildChildren {skipTypes : Bool} (copyable : ∀ t ∈ ts, t.CopyableIfBuilt)
    (wf : d.WellFormed) (has : d.Has owner) (run : buildChildren owner skipTypes ts d = .ok () d') :
    (taken skipTypes ts ≠ [] → (d.kind owner).isParent) ∧
      ∀ t ∈ taken skipTypes ts, (t.kind ≠ .attribute ∧ t.kind ≠ .document) ∧ t.Copyable := by
  induction ts generalizing d with
  | nil => exact ⟨fun some => absurd rfl some, List.forall_mem_nil _⟩
  | cons t ts ih =>
    rw [buildChildren] at run
    rw [List.forall_mem_cons] at copyable
    split_ifs at run with skip
    · rw [taken_cons_of_skipped skip]
      exact ih copyable.2 wf has run
    obtain ⟨n, d₁, built, run⟩ := bind_ok run
    obtain ⟨_, d₂, inserted, run⟩ := bind_ok run
    have copies := copyable.1 d n d₁ wf built
    have grown := ((keeps_build t).ok wf.extends_self built).1
    obtain ⟨ok, rfl⟩ := Edit.insertable_of_ok grown.wellFormed inserted
    have wf₂ := grown.wellFormed.insertChild none ok.hasParent ok.hasChild ok.isParent
      ok.notAttribute ok.notDocument ok.outside
    have kind : d₁.kind n = t.kind := by
      rw [← kind_copied, ← copies.tree_of_build wf built, kind_tree grown.wellFormed]
    obtain ⟨-, rest⟩ := ih copyable.2 wf₂ ((has_insertChild none owner).2 ok.hasParent) run
    rw [taken_cons_of_not_skipped skip]
    refine ⟨fun _ => ?_, List.forall_mem_cons.2 ⟨⟨⟨?_, ?_⟩, copies⟩, rest⟩⟩
    · rw [← grown.kind_eq has]
      exact ok.isParent
    · rw [← kind]
      exact ok.notAttribute
    · rw [← kind]
      exact ok.notDocument

end Loops

theorem copyableIfBuilt_node {label : Label} {attributes children : List Tree}
    (ofAttributes : ∀ t ∈ attributes, t.CopyableIfBuilt) (ofChildren : ∀ t ∈ children, t.CopyableIfBuilt) :
    (node label attributes children).CopyableIfBuilt := by
  intro d n d' wf run
  rw [build] at run
  split_ifs at run with documentType
  · cases run
  obtain ⟨id, d₀, created, run⟩ := bind_ok run
  obtain ⟨_, d₁, withAttributes, run⟩ := bind_ok run
  obtain ⟨_, d₂, withChildren, -⟩ := bind_ok run
  obtain ⟨rfl, rfl⟩ : (d.alloc label).1 = id ∧ (d.alloc label).2 = d₀ :=
    EStateM.Result.ok.inj ((Edit.create_ok label).symm.trans created)
  have wf₀ := wf.alloc label
  have top₀ := d.top_alloc label
  obtain ⟨label₀, attributes₀, -⟩ := d.trees_alloc label
  obtain ⟨isElement, below⟩ := copyable_of_buildAttributes ofAttributes wf₀ top₀.has withAttributes
  obtain ⟨wf₁, top₁⟩ := ((keeps_buildAttributes_top attributes).ok ⟨wf₀, top₀⟩ withAttributes).1
  obtain ⟨isParent, below'⟩ := copyable_of_buildChildren ofChildren wf₁ top₁.has withChildren
  obtain ⟨_, run₁, label₁, -⟩ := exists_buildAttributes (fun t ht => (below t ht).2.buildsCopy)
    (fun t ht => (below t ht).1) wf₀ top₀ isElement (attributes₀ ▸ .nil)
  rw [withAttributes] at run₁
  cases run₁
  rw [Document.kind, label₀] at isElement
  rw [Document.kind, label₁, label₀] at isParent
  exact .node documentType isElement isParent (fun t ht => (below t ht).1) (fun t ht => (below' t ht).1)
    (List.forall_mem_append.2 ⟨fun t ht => (below t ht).2, fun t ht => (below' t ht).2⟩)

mutual

/-- What was built can be copied. -/
theorem copyableIfBuilt : (t : Tree) → t.CopyableIfBuilt
  | .node _ attributes children =>
    copyableIfBuilt_node (copyableIfBuilt_all attributes) (copyableIfBuilt_all children)

theorem copyableIfBuilt_all : (ts : List Tree) → ∀ t ∈ ts, t.CopyableIfBuilt
  | [] => List.forall_mem_nil _
  | t :: ts => List.forall_mem_cons.2 ⟨copyableIfBuilt t, copyableIfBuilt_all ts⟩

end

end Tree

namespace Document

variable {d : Document}

/-- No node has two attributes of one expanded name. -/
def DistinctAttributes (d : Document) : Prop :=
  ∀ p, (d.attributes p).Pairwise fun a b =>
    ∀ n ∈ d.name? a, ∀ m ∈ d.name? b, ¬ n.SameExpanded m

/-- Only the nodes of the document have attributes. -/
theorem DistinctAttributes.of_nodes (h : ∀ i < d.size, (d.attributes ⟨i⟩).Pairwise fun a b =>
    ∀ n ∈ d.name? a, ∀ m ∈ d.name? b, ¬ n.SameExpanded m) : d.DistinctAttributes := by
  intro p
  by_cases has : d.Has p
  · exact h p.index has
  · rw [attributes, record_of_not_has has]
    exact .nil

/-- The attributes of a faithful node have different names. -/
theorem nodup_names_of_faithful (wf : d.WellFormed) {id : NodeId} (h : (d.tree id).Faithful) :
    ((d.attributes id).filterMap d.name?).Nodup := by
  rw [wf.tree_eq] at h
  cases h with
  | node _ _ _ _ _ apart =>
    exact Tree.nodup_names (fun a _ => congrArg Label.name? (label_tree wf a)) apart

end Document

end VirtualTree
