import VirtualTree.Proofs.Document.WellFormed

/-!
# Links after an edit

What the elementary edits do to the parent, the children and the attributes of every node of a well
formed document, and that the document stays well formed.  Detaching a node takes it out of all lists
(`children_detach`, `attributes_detach`); `insertChild` and `putAttribute` also put it into one.
-/

namespace VirtualTree

namespace Document

variable {d : Document}

/-! ## Changing one record -/

variable (id : NodeId) {f : Record → Record} (i : NodeId)

@[simp] theorem has_update : (d.update id f).Has i ↔ d.Has i := by
  rw [Has, size_update, Has]

theorem label_update (h : ∀ r, (f r).label = r.label) : (d.update id f).label i = d.label i := by
  rw [label, record_update]
  split_ifs
  · exact h _
  · rfl

theorem parent?_update : (d.update id f).parent? i =
    if i = id ∧ d.Has id then (f (d.record i)).parent? else d.parent? i := by
  rw [parent?, record_update]
  split_ifs <;> rfl

theorem parent?_update_of_eq (h : ∀ r, (f r).parent? = r.parent?) :
    (d.update id f).parent? i = d.parent? i := by
  rw [parent?_update, h]
  exact ite_self _

theorem children_update : (d.update id f).children i =
    if i = id ∧ d.Has id then (f (d.record i)).children else d.children i := by
  rw [children, record_update]
  split_ifs <;> rfl

theorem children_update_of_eq (h : ∀ r, (f r).children = r.children) :
    (d.update id f).children i = d.children i := by
  rw [children_update, h]
  exact ite_self _

theorem attributes_update : (d.update id f).attributes i =
    if i = id ∧ d.Has id then (f (d.record i)).attributes else d.attributes i := by
  rw [attributes, record_update]
  split_ifs <;> rfl

theorem attributes_update_of_eq (h : ∀ r, (f r).attributes = r.attributes) :
    (d.update id f).attributes i = d.attributes i := by
  rw [attributes_update, h]
  exact ite_self _

/-! ## Detaching -/

@[simp] theorem size_detach : (d.detach id).size = d.size := by
  unfold detach
  split
  · rfl
  · dsimp only
    split_ifs <;> simp

@[simp] theorem has_detach : (d.detach id).Has i ↔ d.Has i := by
  rw [Has, size_detach, Has]

@[simp] theorem label_detach : (d.detach id).label i = d.label i := by
  unfold detach
  split
  · rfl
  · dsimp only
    split_ifs <;> simp only [label_update, implies_true]

@[simp] theorem kind_detach : (d.detach id).kind i = d.kind i := by
  rw [kind, label_detach, kind]

@[simp] theorem parent?_detach :
    (d.detach id).parent? i = if i = id then none else d.parent? i := by
  unfold detach
  split
  · rename_i h
    split_ifs with hi
    · rw [hi, h]
    · rfl
  · rename_i p h
    have has := has_of_parent h
    rw [parent?_update]
    by_cases hi : i = id
    · rw [if_pos hi, if_pos ⟨hi, by split_ifs <;> simpa using has⟩]
    · rw [if_neg hi, if_neg fun e => hi e.1]
      split_ifs <;> exact parent?_update_of_eq _ i fun _ => rfl

/-- Only the record of its parent lists a node. -/
theorem children_detach (wf : d.WellFormed) (p : NodeId) :
    (d.detach id).children p = (d.children p).filter (· ≠ id) := by
  have absent : id ∉ d.children p → (d.children p).filter (· ≠ id) = d.children p := fun h =>
    List.filter_eq_self.2 fun c hc => by simpa using fun e : c = id => h (e ▸ hc)
  unfold detach
  split
  · rename_i h
    exact (absent (wf.not_mem_children_of_parent_none h p)).symm
  · rename_i q h
    simp only [children_update_of_eq, implies_true]
    split_ifs with kind
    · rw [absent fun hc => wf.kind_of_mem_children hc kind]
      exact children_update_of_eq _ p fun _ => rfl
    · rw [children_update]
      split_ifs with hp
      · rfl
      · refine (absent fun hc => hp ⟨?_, wf.has_parent _ _ h⟩).symm
        exact Option.some.inj ((wf.parent_of_mem_children hc).symm.trans h)

theorem attributes_detach (wf : d.WellFormed) (p : NodeId) :
    (d.detach id).attributes p = (d.attributes p).filter (· ≠ id) := by
  have absent : id ∉ d.attributes p → (d.attributes p).filter (· ≠ id) = d.attributes p := fun h =>
    List.filter_eq_self.2 fun c hc => by simpa using fun e : c = id => h (e ▸ hc)
  unfold detach
  split
  · rename_i h
    exact (absent (wf.not_mem_attributes_of_parent_none h p)).symm
  · rename_i q h
    simp only [attributes_update_of_eq, implies_true]
    split_ifs with kind
    · rw [attributes_update]
      split_ifs with hp
      · rfl
      · refine (absent fun hc => hp ⟨?_, wf.has_parent _ _ h⟩).symm
        exact Option.some.inj ((wf.parent_of_mem_attributes hc).symm.trans h)
    · rw [absent fun hc => kind (wf.kind_of_mem_attributes hc)]
      exact attributes_update_of_eq _ p fun _ => rfl

theorem WellFormed.detach (wf : d.WellFormed) : (d.detach id).WellFormed where
  mem_children c p := by
    rw [children_detach id wf, List.mem_filter, wf.mem_children, parent?_detach, kind_detach]
    by_cases h : c = id <;> simp [h]
  mem_attributes a p := by
    rw [attributes_detach id wf, List.mem_filter, wf.mem_attributes, parent?_detach, kind_detach]
    by_cases h : a = id <;> simp [h]
  nodup_children p := by
    rw [children_detach id wf]
    exact (wf.nodup_children p).filter _
  nodup_attributes p := by
    rw [attributes_detach id wf]
    exact (wf.nodup_attributes p).filter _
  isParent c p h kind := by
    rw [parent?_detach] at h
    rw [kind_detach] at kind ⊢
    split_ifs at h
    exact wf.isParent c p h kind
  isElement a p h kind := by
    rw [parent?_detach] at h
    rw [kind_detach] at kind ⊢
    split_ifs at h
    exact wf.isElement a p h kind
  parent_of_document c kind := by
    rw [kind_detach] at kind
    rw [parent?_detach, wf.parent_of_document c kind, ite_self]
  has_parent c p h := by
    rw [parent?_detach] at h
    split_ifs at h
    exact (has_detach id p).2 (wf.has_parent c p h)
  acyclic := by
    refine Subrelation.wf (fun {p c} h => ?_) wf.acyclic
    rw [parent?_detach] at h
    split_ifs at h
    exact h

/-! ## Moving one node -/

/-- Following parents still ends when one node moves to a place outside its own tree. -/
theorem WellFormed.acyclic_of_moved (wf : d.WellFormed) {e : Document} {moved target : NodeId}
    (above : ¬ d.AtOrAbove target moved) (self : ∀ p, e.parent? moved = some p → p = target)
    (other : ∀ x p, x ≠ moved → e.parent? x = some p → d.parent? x = some p) :
    WellFounded fun p c => e.parent? c = some p := by
  -- Outside the tree of `moved` nothing changed, so all of it and then `moved` can be left upwards.
  have outside : ∀ x, ¬ d.AtOrAbove x moved → Acc (fun p c => e.parent? c = some p) x := by
    intro x
    induction x using wf.acyclic.induction with
    | _ x ih =>
      intro hx
      refine ⟨x, fun p h => ?_⟩
      have hp := other x p (fun e => hx (e ▸ AtOrAbove.refl _)) h
      exact ih p hp fun up => hx (AtOrAbove.head hp up)
  refine ⟨fun x => ?_⟩
  induction x using wf.acyclic.induction with
  | _ x ih =>
    refine ⟨x, fun p h => ?_⟩
    by_cases hx : x = moved
    · rw [self p (hx ▸ h)]
      exact outside target above
    · exact ih p (other x p hx h)

/-- Nothing has an attribute for a parent. -/
theorem WellFormed.not_atOrAbove_attribute (wf : d.WellFormed) {x a : NodeId}
    (isAttribute : d.kind a = .attribute) (ne : a ≠ x) : ¬ d.AtOrAbove x a := fun h => by
  rcases Relation.ReflTransGen.cases_tail h with rfl | ⟨c, -, hc⟩
  · exact ne rfl
  · by_cases kind : d.kind c = .attribute
    · have := wf.isElement c a hc kind
      rw [isAttribute] at this
      cases this
    · have := wf.isParent c a hc kind
      rw [isAttribute] at this
      cases this

/-! ## Inserting a child -/

/-- A list with one more entry, before a reference or at the end. -/
def insertEntry (child : NodeId) : Option NodeId → List NodeId → List NodeId
  | none, l => l ++ [child]
  | some reference, l => l.takeWhile (· ≠ reference) ++ child :: l.dropWhile (· ≠ reference)

theorem insertEntry_perm (child : NodeId) (reference? : Option NodeId) (l : List NodeId) :
    (insertEntry child reference? l).Perm (child :: l) := by
  cases reference? with
  | none => exact List.perm_append_singleton child l
  | some reference =>
    have := List.takeWhile_append_dropWhile (p := (· ≠ reference)) (l := l)
    conv => rhs; rw [← this]
    exact List.perm_middle

theorem mem_insertEntry {child : NodeId} {reference? : Option NodeId} {l : List NodeId}
    {x : NodeId} : x ∈ insertEntry child reference? l ↔ x = child ∨ x ∈ l := by
  rw [(insertEntry_perm child reference? l).mem_iff, List.mem_cons]

/-- The document after moving a node into a child list. -/
def insertChild (d : Document) (parent child : NodeId) (reference? : Option NodeId) : Document :=
  (d.detach child).placeChild parent child
    (insertEntry child reference? ((d.detach child).children parent))

section Insert

variable {parent child : NodeId} (reference? : Option NodeId)

@[simp] theorem size_insertChild : (d.insertChild parent child reference?).size = d.size := by
  simp [insertChild, placeChild]

@[simp] theorem has_insertChild (i : NodeId) :
    (d.insertChild parent child reference?).Has i ↔ d.Has i := by
  rw [Has, size_insertChild, Has]

@[simp] theorem label_insertChild (i : NodeId) :
    (d.insertChild parent child reference?).label i = d.label i := by
  simp only [insertChild, placeChild, label_update, label_detach, implies_true]

@[simp] theorem kind_insertChild (i : NodeId) :
    (d.insertChild parent child reference?).kind i = d.kind i := by
  rw [kind, label_insertChild, kind]

theorem parent?_insertChild (has : d.Has child) (i : NodeId) :
    (d.insertChild parent child reference?).parent? i =
      if i = child then some parent else d.parent? i := by
  rw [insertChild, placeChild, parent?_update]
  by_cases h : i = child
  · rw [if_pos ⟨h, by simpa using has⟩, if_pos h]
  · simp only [h, false_and, if_false, parent?_update_of_eq, parent?_detach, implies_true]

/-- The child stands in the list of its new parent, and nowhere else. -/
theorem children_insertChild (wf : d.WellFormed) (has : d.Has parent) (i : NodeId) :
    (d.insertChild parent child reference?).children i =
      if i = parent then insertEntry child reference? ((d.children parent).filter (· ≠ child))
      else (d.children i).filter (· ≠ child) := by
  simp only [insertChild, placeChild, children_update_of_eq, implies_true]
  rw [children_update]
  by_cases h : i = parent
  · rw [if_pos ⟨h, by simpa using has⟩, if_pos h, children_detach child wf]
  · rw [if_neg fun e => h e.1, if_neg h, children_detach child wf]

theorem attributes_insertChild (wf : d.WellFormed) (hk : d.kind child ≠ .attribute) (i : NodeId) :
    (d.insertChild parent child reference?).attributes i = d.attributes i := by
  simp only [insertChild, placeChild, attributes_update_of_eq, implies_true]
  rw [attributes_detach child wf]
  apply List.filter_eq_self.2
  intro a ha
  simpa using fun e : a = child => hk (e ▸ wf.kind_of_mem_attributes ha)

/-- A forest stays one when a node moves to a place outside its own tree. -/
theorem WellFormed.insertChild (wf : d.WellFormed) (hasParent : d.Has parent) (hasChild : d.Has child)
    (isParent : (d.kind parent).isParent) (notAttribute : d.kind child ≠ .attribute)
    (notDocument : d.kind child ≠ .document) (above : ¬ d.AtOrAbove parent child) :
    (d.insertChild parent child reference?).WellFormed where
  mem_children c p := by
    rw [children_insertChild reference? wf hasParent, parent?_insertChild reference? hasChild,
      kind_insertChild]
    by_cases hp : p = parent
    · by_cases hc : c = child <;> simp [hp, hc, mem_insertEntry, wf.mem_children, notAttribute]
    · by_cases hc : c = child <;> simp [hp, hc, wf.mem_children, Ne.symm hp]
  mem_attributes a p := by
    rw [attributes_insertChild reference? wf notAttribute, parent?_insertChild reference? hasChild,
      kind_insertChild, wf.mem_attributes]
    by_cases ha : a = child <;> simp [ha, notAttribute]
  nodup_children p := by
    rw [children_insertChild reference? wf hasParent]
    split_ifs
    · refine (insertEntry_perm _ _ _).nodup_iff.2 (List.nodup_cons.2 ⟨?_, ?_⟩)
      · simp
      · exact (wf.nodup_children _).filter _
    · exact (wf.nodup_children p).filter _
  nodup_attributes p := by
    rw [attributes_insertChild reference? wf notAttribute]
    exact wf.nodup_attributes p
  isParent c p h kind := by
    rw [parent?_insertChild reference? hasChild] at h
    rw [kind_insertChild] at kind ⊢
    split_ifs at h
    · obtain rfl := Option.some.inj h
      exact isParent
    · exact wf.isParent c p h kind
  isElement a p h kind := by
    rw [parent?_insertChild reference? hasChild] at h
    rw [kind_insertChild] at kind ⊢
    split_ifs at h with ha
    · exact absurd (ha ▸ kind) notAttribute
    · exact wf.isElement a p h kind
  parent_of_document c kind := by
    rw [kind_insertChild] at kind
    rw [parent?_insertChild reference? hasChild, if_neg fun e : c = child => notDocument (e ▸ kind)]
    exact wf.parent_of_document c kind
  has_parent c p h := by
    rw [parent?_insertChild reference? hasChild] at h
    rw [has_insertChild]
    split_ifs at h
    · obtain rfl := Option.some.inj h
      exact hasParent
    · exact wf.has_parent c p h
  acyclic := by
    refine wf.acyclic_of_moved above (fun p h => ?_) fun x p ne h => ?_
    · rw [parent?_insertChild reference? hasChild, if_pos rfl] at h
      exact (Option.some.inj h).symm
    · rwa [parent?_insertChild reference? hasChild, if_neg ne] at h

end Insert

/-! ## Setting an attribute -/

section DetachAll

variable (l : List NodeId)

@[simp] theorem size_foldl_detach : (l.foldl detach d).size = d.size := by
  induction l generalizing d with
  | nil => rfl
  | cons a l ih => rw [List.foldl_cons, ih, size_detach]

@[simp] theorem has_foldl_detach : (l.foldl detach d).Has i ↔ d.Has i := by
  rw [Has, size_foldl_detach, Has]

@[simp] theorem label_foldl_detach : (l.foldl detach d).label i = d.label i := by
  induction l generalizing d with
  | nil => rfl
  | cons a l ih => rw [List.foldl_cons, ih, label_detach]

theorem parent?_foldl_detach :
    (l.foldl detach d).parent? i = if i ∈ l then none else d.parent? i := by
  induction l generalizing d with
  | nil => rfl
  | cons a l ih =>
    rw [List.foldl_cons, ih, parent?_detach]
    by_cases h : i = a <;> simp [h]

theorem WellFormed.foldl_detach (wf : d.WellFormed) : (l.foldl Document.detach d).WellFormed := by
  induction l generalizing d with
  | nil => exact wf
  | cons a l ih => exact ih (wf.detach a)

theorem children_foldl_detach (wf : d.WellFormed) (p : NodeId) :
    (l.foldl detach d).children p = (d.children p).filter (· ∉ l) := by
  induction l generalizing d with
  | nil => simp
  | cons a l ih =>
    rw [List.foldl_cons, ih (wf.detach a), children_detach a wf, List.filter_filter]
    apply List.filter_congr
    intro x _
    simp [Bool.and_comm]

theorem attributes_foldl_detach (wf : d.WellFormed) (p : NodeId) :
    (l.foldl detach d).attributes p = (d.attributes p).filter (· ∉ l) := by
  induction l generalizing d with
  | nil => simp
  | cons a l ih =>
    rw [List.foldl_cons, ih (wf.detach a), attributes_detach a wf, List.filter_filter]
    apply List.filter_congr
    intro x _
    simp [Bool.and_comm]

end DetachAll

section AppendAttribute

variable {owner attr : NodeId}

@[simp] theorem size_appendAttribute : (d.appendAttribute owner attr).size = d.size := by
  simp [appendAttribute]

@[simp] theorem has_appendAttribute : (d.appendAttribute owner attr).Has i ↔ d.Has i := by
  rw [Has, size_appendAttribute, Has]

@[simp] theorem label_appendAttribute : (d.appendAttribute owner attr).label i = d.label i := by
  simp only [appendAttribute, label_update, implies_true]

@[simp] theorem kind_appendAttribute : (d.appendAttribute owner attr).kind i = d.kind i := by
  rw [kind, label_appendAttribute, kind]

theorem parent?_appendAttribute (has : d.Has attr) :
    (d.appendAttribute owner attr).parent? i = if i = attr then some owner else d.parent? i := by
  rw [appendAttribute, parent?_update]
  by_cases h : i = attr
  · rw [if_pos ⟨h, by simpa using has⟩, if_pos h]
  · simp only [h, false_and, if_false, parent?_update_of_eq, implies_true]

@[simp] theorem children_appendAttribute :
    (d.appendAttribute owner attr).children i = d.children i := by
  simp only [appendAttribute, children_update_of_eq, implies_true]

theorem attributes_appendAttribute (has : d.Has owner) :
    (d.appendAttribute owner attr).attributes i =
      d.attributes i ++ if i = owner then [attr] else [] := by
  simp only [appendAttribute, attributes_update_of_eq, implies_true]
  rw [attributes_update]
  by_cases h : i = owner
  · rw [if_pos ⟨h, has⟩, if_pos h]
    rfl
  · simp [h]

/-- A forest stays one when an attribute without a parent gets an element. -/
theorem WellFormed.appendAttribute (wf : d.WellFormed) (hasOwner : d.Has owner)
    (hasAttr : d.Has attr) (isElement : d.kind owner = .element) (hk : d.kind attr = .attribute)
    (top : d.parent? attr = none) : (d.appendAttribute owner attr).WellFormed where
  mem_children c p := by
    rw [children_appendAttribute, wf.mem_children, parent?_appendAttribute c hasAttr,
      kind_appendAttribute]
    by_cases hc : c = attr <;> simp [hc, hk]
  mem_attributes a p := by
    rw [attributes_appendAttribute p hasOwner, parent?_appendAttribute a hasAttr,
      kind_appendAttribute, List.mem_append, wf.mem_attributes]
    by_cases ha : a = attr
    · by_cases hp : p = owner
      · simp [ha, hp, hk]
      · simp [ha, hp, top, Ne.symm hp]
    · by_cases hp : p = owner <;> simp [ha, hp]
  nodup_children p := by
    rw [children_appendAttribute]
    exact wf.nodup_children p
  nodup_attributes p := by
    rw [attributes_appendAttribute p hasOwner]
    have fresh : attr ∉ d.attributes p := wf.not_mem_attributes_of_parent_none top p
    split_ifs
    · exact (List.perm_append_singleton _ _).nodup_iff.2
        (List.nodup_cons.2 ⟨fresh, wf.nodup_attributes p⟩)
    · rw [List.append_nil]
      exact wf.nodup_attributes p
  isParent c p h kind := by
    rw [parent?_appendAttribute c hasAttr] at h
    rw [kind_appendAttribute] at kind ⊢
    split_ifs at h with hc
    · exact absurd (hc ▸ hk) kind
    · exact wf.isParent c p h kind
  isElement a p h kind := by
    rw [parent?_appendAttribute a hasAttr] at h
    rw [kind_appendAttribute] at kind ⊢
    split_ifs at h
    · obtain rfl := Option.some.inj h
      exact isElement
    · exact wf.isElement a p h kind
  parent_of_document c kind := by
    rw [kind_appendAttribute] at kind
    rw [parent?_appendAttribute c hasAttr, if_neg, wf.parent_of_document c kind]
    rintro rfl
    rw [hk] at kind
    cases kind
  has_parent c p h := by
    rw [parent?_appendAttribute c hasAttr] at h
    rw [has_appendAttribute]
    split_ifs at h
    · obtain rfl := Option.some.inj h
      exact hasOwner
    · exact wf.has_parent c p h
  acyclic := by
    have above : ¬ d.AtOrAbove owner attr := wf.not_atOrAbove_attribute hk fun e => by
      rw [← e, hk] at isElement
      cases isElement
    refine wf.acyclic_of_moved above (fun p h => ?_) fun x p ne h => ?_
    · rw [parent?_appendAttribute attr hasAttr, if_pos rfl] at h
      exact (Option.some.inj h).symm
    · rwa [parent?_appendAttribute x hasAttr, if_neg ne] at h

end AppendAttribute

/-- The attributes that make room when a node becomes an attribute of an element. -/
def overwritten (d : Document) (owner attr : NodeId) : List NodeId :=
  (d.detach attr).displaced owner (d.name? attr)

/-- The document after moving a node into an attribute list. -/
def putAttribute (d : Document) (owner attr : NodeId) : Document :=
  ((d.overwritten owner attr).foldl detach (d.detach attr)).appendAttribute owner attr

section PutAttribute

variable {owner attr : NodeId}

/-- Other attributes of the owner make room if they have the same expanded name. -/
theorem mem_overwritten (wf : d.WellFormed) {a : NodeId} :
    a ∈ d.overwritten owner attr ↔ a ∈ d.attributes owner ∧ a ≠ attr ∧
      ∃ n m, d.name? a = some n ∧ d.name? attr = some m ∧ n.SameExpanded m := by
  have name : (d.detach attr).name? a = d.name? a := by rw [name?, label_detach, name?]
  rw [overwritten, displaced, List.mem_filter, attributes_detach attr wf, List.mem_filter, name]
  cases d.name? a <;> cases d.name? attr <;> simp [and_assoc]

@[simp] theorem size_putAttribute : (d.putAttribute owner attr).size = d.size := by
  simp [putAttribute]

@[simp] theorem has_putAttribute : (d.putAttribute owner attr).Has i ↔ d.Has i := by
  rw [Has, size_putAttribute, Has]

@[simp] theorem label_putAttribute : (d.putAttribute owner attr).label i = d.label i := by
  simp [putAttribute]

@[simp] theorem kind_putAttribute : (d.putAttribute owner attr).kind i = d.kind i := by
  rw [kind, label_putAttribute, kind]

theorem parent?_putAttribute (has : d.Has attr) :
    (d.putAttribute owner attr).parent? i =
      if i = attr then some owner
      else if i ∈ d.overwritten owner attr then none else d.parent? i := by
  rw [putAttribute, parent?_appendAttribute i (by simpa using has)]
  split_ifs with h displaced
  · rfl
  · rw [parent?_foldl_detach, if_pos displaced]
  · rw [parent?_foldl_detach, if_neg displaced, parent?_detach, if_neg h]

theorem children_putAttribute (wf : d.WellFormed) (hk : d.kind attr = .attribute) (p : NodeId) :
    (d.putAttribute owner attr).children p = d.children p := by
  have absent : ∀ c ∈ d.children p, c ≠ attr ∧ c ∉ d.overwritten owner attr := by
    intro c hc
    have kind := wf.kind_of_mem_children hc
    exact ⟨fun e => kind (e ▸ hk),
      fun h => kind (wf.kind_of_mem_attributes ((mem_overwritten wf).1 h).1)⟩
  rw [putAttribute, children_appendAttribute, children_foldl_detach _ (wf.detach attr),
    children_detach attr wf, List.filter_filter]
  exact List.filter_eq_self.2 fun c hc => by simpa using (absent c hc).symm

/-- The attribute stands last in the list of its new owner, and nowhere else. -/
theorem attributes_putAttribute (wf : d.WellFormed) (has : d.Has owner) (p : NodeId) :
    (d.putAttribute owner attr).attributes p =
      ((d.attributes p).filter fun a => a ≠ attr ∧ a ∉ d.overwritten owner attr) ++
        if p = owner then [attr] else [] := by
  rw [putAttribute, attributes_appendAttribute p (by simpa using has),
    attributes_foldl_detach _ (wf.detach attr), attributes_detach attr wf, List.filter_filter]
  congr 1
  exact List.filter_congr fun a _ => by simp [Bool.and_comm]

theorem WellFormed.putAttribute (wf : d.WellFormed) (hasOwner : d.Has owner) (hasAttr : d.Has attr)
    (isElement : d.kind owner = .element) (hk : d.kind attr = .attribute) :
    (d.putAttribute owner attr).WellFormed := by
  refine ((wf.detach attr).foldl_detach _).appendAttribute ?_ ?_ ?_ ?_ ?_
  · simpa using hasOwner
  · simpa using hasAttr
  · rwa [kind, label_foldl_detach, label_detach]
  · rwa [kind, label_foldl_detach, label_detach]
  · rw [parent?_foldl_detach, parent?_detach, if_pos rfl, ite_self]

end PutAttribute

/-! ## Labels and fresh nodes -/

/-- A document with the same links and kinds is as well formed. -/
theorem WellFormed.of_same_links {e : Document} (wf : d.WellFormed)
    (has : ∀ i, d.Has i → e.Has i) (kind : ∀ i, d.Has i → e.kind i = d.kind i)
    (parent : ∀ i, e.parent? i = d.parent? i) (children : ∀ i, e.children i = d.children i)
    (attributes : ∀ i, e.attributes i = d.attributes i) : e.WellFormed where
  mem_children c p := by
    rw [children, parent, wf.mem_children]
    exact and_congr_right fun h => by rw [kind c (has_of_parent h)]
  mem_attributes a p := by
    rw [attributes, parent, wf.mem_attributes]
    exact and_congr_right fun h => by rw [kind a (has_of_parent h)]
  nodup_children p := children p ▸ wf.nodup_children p
  nodup_attributes p := attributes p ▸ wf.nodup_attributes p
  isParent c p h hc := by
    rw [parent] at h
    rw [kind c (has_of_parent h)] at hc
    rw [kind p (wf.has_parent c p h)]
    exact wf.isParent c p h hc
  isElement a p h ha := by
    rw [parent] at h
    rw [kind a (has_of_parent h)] at ha
    rw [kind p (wf.has_parent a p h)]
    exact wf.isElement a p h ha
  parent_of_document c hc := by
    rw [parent]
    by_contra h
    obtain ⟨p, h⟩ := Option.ne_none_iff_exists'.1 h
    rw [kind c (has_of_parent h)] at hc
    rw [wf.parent_of_document c hc] at h
    cases h
  has_parent c p h := has p (wf.has_parent c p (parent c ▸ h))
  acyclic := by
    simp only [parent]
    exact wf.acyclic

/-- The document after giving a node another label. -/
def setLabel (d : Document) (id : NodeId) (label : Label) : Document :=
  d.update id fun r => { r with label := label }

section SetLabel

variable (label : Label)

@[simp] theorem size_setLabel : (d.setLabel id label).size = d.size := size_update id _

@[simp] theorem has_setLabel : (d.setLabel id label).Has i ↔ d.Has i := has_update id i

theorem label_setLabel :
    (d.setLabel id label).label i = if i = id ∧ d.Has id then label else d.label i := by
  rw [setLabel, Document.label, record_update]
  split_ifs <;> rfl

@[simp] theorem parent?_setLabel : (d.setLabel id label).parent? i = d.parent? i :=
  parent?_update_of_eq id i fun _ => rfl

@[simp] theorem children_setLabel : (d.setLabel id label).children i = d.children i :=
  children_update_of_eq id i fun _ => rfl

@[simp] theorem attributes_setLabel : (d.setLabel id label).attributes i = d.attributes i :=
  attributes_update_of_eq id i fun _ => rfl

theorem kind_setLabel {label : Label} (h : label.kind = d.kind id) :
    (d.setLabel id label).kind i = d.kind i := by
  rw [kind, label_setLabel]
  split_ifs with hi
  · rw [h, hi.1]
  · rfl

theorem name?_setLabel {label : Label} (h : label.name? = d.name? id) :
    (d.setLabel id label).name? i = d.name? i := by
  rw [name?, label_setLabel]
  split_ifs with hi
  · rw [h, hi.1]
  · rfl

/-- Another label of the same kind leaves a forest as it is. -/
theorem WellFormed.setLabel (wf : d.WellFormed) {label : Label} (h : label.kind = d.kind id) :
    (d.setLabel id label).WellFormed :=
  wf.of_same_links (fun i => (has_setLabel id i label).2) (fun i _ => kind_setLabel id i h)
    (fun i => parent?_setLabel id i label) (fun i => children_setLabel id i label)
    (fun i => attributes_setLabel id i label)

end SetLabel

section Alloc

variable (label : Label)

theorem not_has_alloc : ¬ d.Has (d.alloc label).1 := Nat.lt_irrefl _

theorem has_alloc : (d.alloc label).2.Has i ↔ d.Has i ∨ i = (d.alloc label).1 := by
  have eq : i = (d.alloc label).1 ↔ i.index = d.size := by
    cases i
    exact NodeId.mk.injEq _ _ ▸ Iff.rfl
  rw [eq, Has, size_alloc, Has]
  omega

/-- Only the record of the fresh node is new. -/
theorem record_alloc_of_ne (h : i ≠ (d.alloc label).1) :
    (d.alloc label).2.record i = d.record i := by
  rw [record_alloc, if_neg]
  intro e
  exact h (by cases i; exact congrArg NodeId.mk e)

theorem record_alloc_self : (d.alloc label).2.record (d.alloc label).1 = .fresh label := by
  rw [record_alloc, if_pos]
  rfl

/-- A node that is not there looks like a text, so that a fresh text is of no other kind. -/
theorem kind_alloc_text (data : String) : (d.alloc (.text data)).2.kind i = d.kind i := by
  by_cases eq : i = (d.alloc (.text data)).1
  · rw [eq, kind, Document.label, record_alloc_self, kind, Document.label,
      record_of_not_has (not_has_alloc _)]
    rfl
  · rw [kind, Document.label, record_alloc_of_ne i _ eq, kind, Document.label]

/-- A fresh node has no links, as if it were not there. -/
theorem links_alloc : (d.alloc label).2.parent? i = d.parent? i ∧
    (d.alloc label).2.children i = d.children i ∧
    (d.alloc label).2.attributes i = d.attributes i := by
  simp only [parent?, children, attributes]
  by_cases h : i = (d.alloc label).1
  · rw [h, record_alloc_self, record_of_not_has (not_has_alloc label)]
    exact ⟨rfl, rfl, rfl⟩
  · rw [record_alloc_of_ne i label h]
    exact ⟨rfl, rfl, rfl⟩

theorem WellFormed.alloc (wf : d.WellFormed) : (d.alloc label).2.WellFormed := by
  refine wf.of_same_links (fun i h => (has_alloc i label).2 (Or.inl h)) (fun i h => ?_)
    (fun i => (links_alloc i label).1) (fun i => (links_alloc i label).2.1)
    (fun i => (links_alloc i label).2.2)
  rw [kind, Document.label, record_alloc_of_ne i label fun e => not_has_alloc label (e ▸ h)]
  rfl

end Alloc

end Document

end VirtualTree
