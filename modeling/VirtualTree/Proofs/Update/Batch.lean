import VirtualTree.Proofs.Document.Edit
import VirtualTree.Update.Apply

/-!
# Edits of many nodes

An update places its nodes one after the other.  Placing one leaves the condition for placing the next
as it was, so all are placed: `insertAll_ok` for children and `setAttributes_ok` for attributes say that
this succeeds and what the document is afterwards, `forM_remove_ok` says it for removals.
-/

namespace VirtualTree

open Document

variable {d : Document}

namespace Document

/-! ## Children -/

/-- A list with more entries, before a reference or at the end. -/
def insertEntries (nodes : List NodeId) : Option NodeId → List NodeId → List NodeId
  | none, l => l ++ nodes
  | some r, l => l.takeWhile (· ≠ r) ++ nodes ++ l.dropWhile (· ≠ r)

theorem insertEntries_nil (reference? : Option NodeId) (l : List NodeId) :
    insertEntries [] reference? l = l := by
  cases reference? with
  | none => exact List.append_nil l
  | some r => simp [insertEntries]

theorem insertEntries_cons {n : NodeId} {ns : List NodeId} {reference? : Option NodeId}
    (ne : reference? ≠ some n) (l : List NodeId) :
    insertEntries ns reference? (insertEntry n reference? l) =
      insertEntries (n :: ns) reference? l := by
  cases reference? with
  | none => simp [insertEntries, insertEntry]
  | some r =>
    have hn : n ≠ r := fun e => ne (by rw [e])
    simp only [insertEntries, insertEntry]
    induction l with
    | nil => simp [hn]
    | cons a l ih =>
      by_cases ha : a = r
      · simp [ha, hn]
      · simpa [ha] using ih

/-- `d'` is `d` with nodes moved, in order, to one place among the children of a node. -/
structure Inserted (d : Document) (parent : NodeId) (nodes : List NodeId)
    (reference? : Option NodeId) (d' : Document) : Prop where
  wellFormed : d'.WellFormed
  size_eq : d'.size = d.size
  label : ∀ i, d'.label i = d.label i
  parent? : ∀ i, d'.parent? i = if i ∈ nodes then some parent else d.parent? i
  children : ∀ p, (∀ n ∈ nodes, n ∉ d.children p) →
    d'.children p = if p = parent then insertEntries nodes reference? (d.children p) else d.children p

/-- Going up from the new parent, nothing changed. -/
theorem atOrAbove_of_insertChild {parent child a : NodeId} {reference? : Option NodeId}
    (has : d.Has child) (outside : ¬ d.AtOrAbove parent child)
    (h : (d.insertChild parent child reference?).AtOrAbove parent a) : d.AtOrAbove parent a := by
  induction h with
  | refl => exact AtOrAbove.refl _
  | @tail b c _ hc ih =>
    rw [parent?_insertChild reference? has, if_neg fun e : b = child => outside (e ▸ ih)] at hc
    exact Relation.ReflTransGen.tail ih hc

/-- After one insertion another node may be inserted under the same parent as before. -/
theorem Insertable.insertChild {parent n m : NodeId} {reference? : Option NodeId}
    (hn : d.Insertable parent n none) (hm : d.Insertable parent m none) :
    (d.insertChild parent n reference?).Insertable parent m none where
  hasParent := (has_insertChild reference? parent).2 hm.hasParent
  hasChild := (has_insertChild reference? m).2 hm.hasChild
  isParent := by
    rw [kind_insertChild]
    exact hm.isParent
  notAttribute := by
    rw [kind_insertChild]
    exact hm.notAttribute
  notDocument := by
    rw [kind_insertChild]
    exact hm.notDocument
  outside h := hm.outside (atOrAbove_of_insertChild hn.hasChild hn.outside h)
  position r h := by cases h

/-! ## Attributes -/

/-- Two nodes have the same expanded name. -/
def SameName (d : Document) (a b : NodeId) : Prop :=
  ∃ n m, d.name? a = some n ∧ d.name? b = some m ∧ n.SameExpanded m

theorem SameName.congr {d' : Document} (h : ∀ i, d'.label i = d.label i) {a b : NodeId} :
    d'.SameName a b ↔ d.SameName a b := by
  simp only [SameName, name?, h]

/-- An attribute of an element has the same name as one of the given nodes. -/
def Displaces (d : Document) (owner : NodeId) (nodes : List NodeId) (a : NodeId) : Prop :=
  d.parent? a = some owner ∧ d.kind a = .attribute ∧ ∃ b ∈ nodes, d.SameName a b

theorem displaces_cons {owner n i : NodeId} {ns : List NodeId} :
    d.Displaces owner (n :: ns) i ↔ d.Displaces owner [n] i ∨ d.Displaces owner ns i := by
  simp only [Displaces, List.mem_cons, List.not_mem_nil, or_false, exists_eq_left, exists_eq_or_imp]
  tauto

theorem mem_overwritten_iff_displaces (wf : d.WellFormed) {owner n i : NodeId} (ne : i ≠ n) :
    i ∈ d.overwritten owner n ↔ d.Displaces owner [n] i := by
  rw [mem_overwritten wf, wf.mem_attributes]
  simp [Displaces, SameName, ne, and_assoc]

/-- After an attribute was set another node may be set as an attribute of the same element as before. -/
theorem Settable.putAttribute {owner m n : NodeId} (h : d.Settable owner n) :
    (d.putAttribute owner m).Settable owner n :=
  ⟨by simpa using h.hasOwner, by simpa using h.hasAttr, by simpa using h.isElement,
    by simpa using h.isAttribute⟩

/-- `d'` is `d` with attributes of an element set, in order. -/
structure AttributesSet (d : Document) (owner : NodeId) (nodes : List NodeId) (d' : Document) :
    Prop where
  wellFormed : d'.WellFormed
  size_eq : d'.size = d.size
  label : ∀ i, d'.label i = d.label i
  displaced : ∀ i, i ∉ nodes → d.Displaces owner nodes i → d'.parent? i = none
  undisplaced : ∀ i, i ∉ nodes → ¬ d.Displaces owner nodes i → d'.parent? i = d.parent? i
  children : ∀ p, d'.children p = d.children p

/-! ## Replaced content -/

/-- `d'` is `d` with the children of a node taken away. -/
structure Emptied (d : Document) (p : NodeId) (d' : Document) : Prop where
  wellFormed : d'.WellFormed
  size_eq : d'.size = d.size
  label : ∀ i, d'.label i = d.label i
  parent? : ∀ i, d'.parent? i = if i ∈ d.children p then none else d.parent? i
  children : ∀ q, d'.children q = if q = p then [] else d.children q

theorem emptied_foldl_detach (wf : d.WellFormed) (p : NodeId) :
    d.Emptied p ((d.children p).foldl detach d) := by
  refine ⟨wf.foldl_detach _, size_foldl_detach _, fun i => label_foldl_detach i _,
    fun i => parent?_foldl_detach i _, fun q => ?_⟩
  rw [children_foldl_detach _ wf]
  split_ifs with hq
  · rw [hq, List.filter_eq_nil_iff]
    exact fun c hc => by simpa using hc
  · apply List.filter_eq_self.2
    intro c hc
    have : c ∉ d.children p := fun hc' => hq <| Option.some.inj <|
      (wf.parent_of_mem_children hc).symm.trans (wf.parent_of_mem_children hc')
    simpa using this

/-- `d'` is `d` with a fresh text as the last child of a node. -/
structure TextAppended (d : Document) (p : NodeId) (data : String) (n : NodeId) (d' : Document) :
    Prop where
  wellFormed : d'.WellFormed
  size_le : d.size ≤ d'.size
  fresh : ¬ d.Has n
  has : d'.Has n
  kind : ∀ i, d'.kind i = d.kind i
  label : ∀ i, d.Has i → d'.label i = d.label i
  label_new : d'.label n = .text data
  parent? : ∀ i, d.Has i → d'.parent? i = d.parent? i
  children : ∀ q, d'.children q = if q = p then d.children p ++ [n] else d.children q

end Document

namespace Edit

/-- Nodes that may each be inserted are all inserted. -/
theorem insertAll_ok (wf : d.WellFormed) {parent : NodeId} {nodes : List NodeId}
    {reference? : Option NodeId} (nodup : nodes.Nodup)
    (insertable : ∀ n ∈ nodes, d.Insertable parent n none)
    (absent : ∀ n ∈ nodes, n ∉ d.children parent)
    (position : ∀ r, reference? = some r → r ∈ d.children parent) :
    ∃ d', insertAll parent nodes reference? d = .ok () d' ∧ d.Inserted parent nodes reference? d' := by
  induction nodes generalizing d with
  | nil =>
    refine ⟨d, rfl, wf, rfl, fun _ => rfl, fun i => by simp, fun p _ => ?_⟩
    rw [insertEntries_nil, ite_self]
  | cons n ns ih =>
    have ok := insertable n List.mem_cons_self
    obtain ⟨new, nodup⟩ := List.nodup_cons.1 nodup
    have ne : reference? ≠ some n := fun e => absent n List.mem_cons_self (position n e)
    have run : insertBefore parent n reference? d =
        .ok () (d.insertChild parent n reference?) := by
      have ok' : d.Insertable parent n reference? :=
        { ok with position := fun r hr => Or.inr ((wf.mem_children r parent).1 (position r hr)) }
      rw [insertBefore_ok wf ok', if_neg ne]
    have wf₁ := wf.insertChild reference? ok.hasParent ok.hasChild ok.isParent ok.notAttribute
      ok.notDocument ok.outside
    have children₁ : ∀ p, n ∉ d.children p → (d.insertChild parent n reference?).children p =
        if p = parent then insertEntry n reference? (d.children p) else d.children p := by
      intro p hp
      have : (d.children p).filter (· ≠ n) = d.children p :=
        List.filter_eq_self.2 fun c hc => by simpa using fun e : c = n => hp (e ▸ hc)
      rw [children_insertChild reference? wf ok.hasParent]
      split_ifs with h
      · rw [← h, this]
      · exact this
    have absent₁ : ∀ m ∈ ns, ∀ p, (∀ m ∈ n :: ns, m ∉ d.children p) →
        m ∉ (d.insertChild parent n reference?).children p := by
      intro m hm p hp
      rw [children₁ p (hp n List.mem_cons_self)]
      have := hp m (List.mem_cons_of_mem n hm)
      split_ifs
      · rw [mem_insertEntry, not_or]
        exact ⟨fun e => new (e ▸ hm), this⟩
      · exact this
    obtain ⟨d', rest, inserted⟩ := ih wf₁ nodup
      (fun m hm => ok.insertChild (insertable m (List.mem_cons_of_mem n hm)))
      (fun m hm => absent₁ m hm parent absent)
      (fun r hr => by
        rw [children₁ parent (absent n List.mem_cons_self), if_pos rfl, mem_insertEntry]
        exact Or.inr (position r hr))
    refine ⟨d', ?_, inserted.wellFormed, ?_, fun i => ?_, fun i => ?_, fun p hp => ?_⟩
    · exact (forM_cons_of_ok (f := fun n => insertBefore parent n reference?) run).trans rest
    · rw [inserted.size_eq, size_insertChild]
    · rw [inserted.label, label_insertChild]
    · rw [inserted.parent?, parent?_insertChild reference? ok.hasChild]
      by_cases hi : i = n <;> simp [hi]
    · rw [inserted.children p fun m hm => absent₁ m hm p hp, children₁ p (hp n List.mem_cons_self)]
      split_ifs with h
      · exact insertEntries_cons ne _
      · rfl

/-- Nodes that may each be set as attributes are all set. -/
theorem setAttributes_ok (wf : d.WellFormed) {owner : NodeId} {nodes : List NodeId}
    (settable : ∀ n ∈ nodes, d.Settable owner n) :
    ∃ d', setAttributes owner nodes d = .ok () d' ∧ d.AttributesSet owner nodes d' := by
  induction nodes generalizing d with
  | nil =>
    refine ⟨d, rfl, wf, rfl, fun _ => rfl, fun i _ h => ?_, fun _ _ _ => rfl, fun _ => rfl⟩
    obtain ⟨-, -, b, hb, -⟩ := h
    cases hb
  | cons n ns ih =>
    have ok := settable n List.mem_cons_self
    have wf₁ := wf.putAttribute ok.hasOwner ok.hasAttr ok.isElement ok.isAttribute
    obtain ⟨d', rest, set⟩ := ih wf₁ fun m hm =>
      (settable m (List.mem_cons_of_mem n hm)).putAttribute
    have parent₁ : ∀ i, i ≠ n → (d.Displaces owner [n] i → (d.putAttribute owner n).parent? i = none) ∧
        (¬ d.Displaces owner [n] i → (d.putAttribute owner n).parent? i = d.parent? i) := by
      intro i hi
      rw [parent?_putAttribute i ok.hasAttr, if_neg hi, ← mem_overwritten_iff_displaces wf hi]
      exact ⟨fun h => if_pos h, fun h => if_neg h⟩
    have later : ∀ i, (d.putAttribute owner n).parent? i = d.parent? i →
        ((d.putAttribute owner n).Displaces owner ns i ↔ d.Displaces owner ns i) := by
      intro i same
      simp only [Displaces, same, kind_putAttribute, SameName.congr fun j => label_putAttribute j]
    refine ⟨d', ?_, set.wellFormed, ?_, fun i => ?_, fun i hi => ?_, fun i hi => ?_, fun p => ?_⟩
    · exact (forM_cons_of_ok (f := fun n => setAttribute owner n) (setAttribute_ok ok)).trans rest
    · rw [set.size_eq, size_putAttribute]
    · rw [set.label, label_putAttribute]
    · obtain ⟨hn, hns⟩ := not_or.1 (List.mem_cons.not.1 hi)
      intro displaced
      by_cases h : d.Displaces owner [n] i
      · have gone := (parent₁ i hn).1 h
        rw [set.undisplaced i hns fun h' => by simp [Displaces, gone] at h', gone]
      · refine set.displaced i hns ((later i ((parent₁ i hn).2 h)).2 ?_)
        exact (displaces_cons.1 displaced).resolve_left h
    · obtain ⟨hn, hns⟩ := not_or.1 (List.mem_cons.not.1 hi)
      intro undisplaced
      obtain ⟨h, h'⟩ := not_or.1 (displaces_cons.not.1 undisplaced)
      have same := (parent₁ i hn).2 h
      rw [set.undisplaced i hns ((later i same).not.2 h'), same]
    · rw [set.children, children_putAttribute wf ok.isAttribute]

/-- Nodes of the document are all removed. -/
theorem forM_remove_ok {nodes : List NodeId} (has : ∀ n ∈ nodes, d.Has n) :
    nodes.forM remove d = .ok () (nodes.foldl detach d) := by
  induction nodes generalizing d with
  | nil => rfl
  | cons n ns ih =>
    rw [forM_cons_of_ok (remove_ok (has n List.mem_cons_self))]
    exact ih fun m hm => (has_detach n m).2 (has m (List.mem_cons_of_mem n hm))

/-- A fresh text can be appended wherever children are allowed. -/
theorem appendText_ok (wf : d.WellFormed) {p : NodeId} (hp : d.Has p) (isParent : (d.kind p).isParent)
    (data : String) : ∃ n d', (create (.text data) >>= fun n => insertBefore p n none) d = .ok () d' ∧
      d.TextAppended p data n d' := by
  obtain ⟨n, hn⟩ : ∃ n, n = (d.alloc (.text data)).1 := ⟨_, rfl⟩
  obtain ⟨e, he⟩ : ∃ e, e = (d.alloc (.text data)).2 := ⟨_, rfl⟩
  have created : create (.text data) d = .ok n e := by rw [create_ok, hn, he]
  have wf_e : e.WellFormed := he ▸ wf.alloc _
  have fresh : ¬ d.Has n := hn ▸ not_has_alloc _
  have has_e : ∀ i, d.Has i → e.Has i := fun i hi => he ▸ (has_alloc i _).2 (Or.inl hi)
  have has_n : e.Has n := he ▸ (has_alloc n _).2 (Or.inr hn)
  have record_e : ∀ i, i ≠ n → e.record i = d.record i := fun i hi =>
    he ▸ record_alloc_of_ne i _ (hn ▸ hi)
  have label_n : e.label n = .text data := by
    rw [he, hn, Document.label, record_alloc_self]
    rfl
  have kind_e : ∀ i, e.kind i = d.kind i := fun i => he ▸ kind_alloc_text i data
  have links_e := fun i => he ▸ links_alloc (d := d) i (.text data)
  have ne_n : ∀ i, d.Has i → i ≠ n := fun i hi e => fresh (e ▸ hi)
  have ok : e.Insertable p n none := by
    refine ⟨has_e p hp, has_n, by rw [kind_e]; exact isParent, ?_, ?_, fun above => ?_,
      fun r hr => by cases hr⟩
    · simp [Document.kind, label_n, Label.kind]
    · simp [Document.kind, label_n, Label.kind]
    · -- Nothing has the fresh node for a parent.
      rcases Relation.ReflTransGen.cases_tail above with rfl | ⟨c, -, hc⟩
      · exact fresh hp
      · rw [(links_e c).1] at hc
        exact fresh (wf.has_parent c n hc)
  have absent : ∀ q, (e.children q).filter (· ≠ n) = d.children q := fun q => by
    rw [(links_e q).2.1]
    apply List.filter_eq_self.2
    intro c hc
    simpa using ne_n c (has_of_parent (wf.parent_of_mem_children hc))
  refine ⟨n, e.insertChild p n none, ?_, wf_e.insertChild none ok.hasParent ok.hasChild ok.isParent
    ok.notAttribute ok.notDocument ok.outside, ?_, fresh, (has_insertChild none n).2 has_n,
    fun i => ?_, fun i hi => ?_, ?_, fun i hi => ?_, fun q => ?_⟩
  · rw [bind_of_ok created]
    exact insertBefore_none_ok wf_e ok
  · rw [size_insertChild, he, size_alloc]
    omega
  · rw [kind_insertChild, kind_e]
  · rw [label_insertChild, Document.label, record_e i (ne_n i hi)]
    rfl
  · rw [label_insertChild, label_n]
  · rw [parent?_insertChild none has_n, if_neg (ne_n i hi), (links_e i).1]
  · rw [children_insertChild none wf_e ok.hasParent, absent]
    split_ifs with hq
    · rfl
    · exact absent q

end Edit

end VirtualTree
