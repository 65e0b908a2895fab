import VirtualTree.Proofs.Keeps
import VirtualTree.Proofs.Order.Preorder

/-!
# The order of sequences

`Forest.compare` is a total order of the pointers whose tops the table holds (`compare_total`).  It
orders pointers by keys, one after the other (`Forest.inSequence`): by the place of the subject, which
is the owner of an attribute and else the node, then the attributes after the owner, then by the parts
of the name, and at last by the place of the node.  The table is as it was after a comparison if it
holds the tops of both pointers, or if they stand in one tree (`Roots.Settles`).
-/

namespace VirtualTree

open Document

namespace Forest

variable {f : Forest} {t : Roots}

/-! ## Subjects -/

/-- The owner of an attribute that has one, and else the node. -/
def subjectOrSelf (f : Forest) (p : Pointer) : Pointer :=
  match f.subject p with
  | .ok q => q
  | .error _ => p

theorem subject_of_ne {p : Pointer} (h : f.kind p.node ≠ .attribute) : f.subject p = .ok p :=
  if_neg h

theorem subjectOrSelf_of_ne {p : Pointer} (h : f.kind p.node ≠ .attribute) :
    f.subjectOrSelf p = p := by
  rw [subjectOrSelf, subject_of_ne h]

theorem subject_of_mem_attributes (wf : f.WellFormed) {owner a : Pointer} (h : f.Reached owner)
    (ha : a ∈ f.attributes owner) : f.subject a = .ok owner := by
  rw [subject, if_pos (kind_of_mem_attributes wf ha),
    parent?_of_mem_entries wf.toNavigable h (List.mem_append_left _ ha)]
  rfl

theorem subjectOrSelf_of_mem_attributes (wf : f.WellFormed) {owner a : Pointer}
    (h : f.Reached owner) (ha : a ∈ f.attributes owner) : f.subjectOrSelf a = owner := by
  rw [subjectOrSelf, subject_of_mem_attributes wf h ha]

/-- A reached pointer is a top, or it was reached by a step down. -/
theorem Reached.isTop_or_mem_entries (wf : f.WellFormed) {p : Pointer} (h : f.Reached p) :
    f.IsTop p ∨ ∃ q, f.Reached q ∧ p ∈ f.entries q := by
  cases h with
  | silhouette id => exact Or.inl (.silhouette id)
  | real id visible =>
    refine (Forest.isTop_or_mem_entries wf.document visible).imp_right ?_
    rintro ⟨q, -, visible, mem⟩
    exact ⟨.real q, .real q visible, mem⟩
  | entry hq hp => exact Or.inr ⟨_, hq, hp⟩

/-- Every reached pointer has a subject: itself, or the node whose attribute it is. -/
theorem Reached.subject (wf : f.WellFormed) {p : Pointer} (h : f.Reached p) :
    f.subject p = .ok (f.subjectOrSelf p) ∧ (f.subjectOrSelf p = p ∨
      f.Reached (f.subjectOrSelf p) ∧ p ∈ f.attributes (f.subjectOrSelf p)) := by
  by_cases attr : f.kind p.node = .attribute
  · rcases h.isTop_or_mem_entries wf with top | ⟨q, hq, mem⟩
    · have eq : f.subject p = .ok p := by
        rw [Forest.subject, if_pos attr, top.parent?]
        rfl
      rw [subjectOrSelf, eq]
      exact ⟨rfl, Or.inl rfl⟩
    · have ha : p ∈ f.attributes q := (List.mem_append.1 mem).resolve_right fun child =>
        (kind_of_mem_children wf child).1 attr
      rw [subjectOrSelf_of_mem_attributes wf hq ha]
      exact ⟨subject_of_mem_attributes wf hq ha, Or.inr ⟨hq, ha⟩⟩
  · rw [subjectOrSelf_of_ne attr]
    exact ⟨subject_of_ne attr, Or.inl rfl⟩

end Forest

/-! ## Places as numbers -/

/-- A pointer that is reached from a top of the table. -/
structure Roots.Knows (t : Roots) (f : Forest) (p : Pointer) : Prop where
  reached : f.Reached p
  top : ∀ r, f.IsTop r → p ∈ f.walk r → r ∈ t.tops

namespace Forest

variable {f : Forest} {t : Roots}

/-- The top of the tree a pointer stands in. -/
def topOf (f : Forest) (p : Pointer) : Pointer :=
  match f.path p with
  | .ok (top :: _) => top
  | _ => p

/-- The position of the top in the table. -/
def treeRank (f : Forest) (t : Roots) (p : Pointer) : ℕ := t.tops.idxOf (f.topOf p)

/-- The position in the walk of the top. -/
def walkRank (f : Forest) (p : Pointer) : ℕ := (f.walk (f.topOf p)).idxOf p

theorem topOf_of_mem_walk (wf : f.WellFormed) {r p : Pointer} (top : f.IsTop r)
    (h : p ∈ f.walk r) : f.topOf p = r := by
  obtain ⟨as, down⟩ := (mem_walk_iff wf).1 h
  rw [topOf, path_of_descends wf top.reached (path_of_isTop wf top) down]
  rfl

theorem Reached.isTop_topOf (wf : f.WellFormed) {p : Pointer} (h : f.Reached p) :
    f.IsTop (f.topOf p) ∧ p ∈ f.walk (f.topOf p) := by
  obtain ⟨r, as, top, down⟩ := h.exists_top wf
  have mem := (mem_walk_iff wf).2 ⟨as, down⟩
  rw [topOf_of_mem_walk wf top mem]
  exact ⟨top, mem⟩

/-- An attribute stands in the tree of its owner. -/
theorem Reached.topOf_subject (wf : f.WellFormed) {p : Pointer} (h : f.Reached p) :
    f.Reached (f.subjectOrSelf p) ∧ f.topOf (f.subjectOrSelf p) = f.topOf p := by
  obtain ⟨-, self | ⟨reached, mem⟩⟩ := h.subject wf
  · rw [self]
    exact ⟨h, rfl⟩
  · obtain ⟨top, inside⟩ := reached.isTop_topOf wf
    obtain ⟨as, down⟩ := (mem_walk_iff wf).1 inside
    have below := (mem_walk_iff wf).2 ⟨_, down.snoc (List.mem_append_left _ mem)⟩
    exact ⟨reached, (topOf_of_mem_walk wf top below).symm⟩

/-- The order of places that the table gives, by the tree and then by the walk of it. -/
def placeOrder (f : Forest) (t : Roots) : Pointer → Pointer → Ordering :=
  compareLex (compareOn (f.treeRank t)) (compareOn f.walkRank)

instance : Std.TransCmp (f.placeOrder t) :=
  inferInstanceAs (Std.TransCmp (compareLex (compareOn (f.treeRank t)) (compareOn f.walkRank)))

theorem placeOrder_self (a : Pointer) : f.placeOrder t a a = .eq := Std.ReflCmp.compare_self

end Forest

theorem Roots.ordinal_of_mem {t : Roots} {r : Pointer} (h : r ∈ t.tops) :
    t.ordinal r = (t.tops.idxOf r, t) := by
  obtain ⟨i, found⟩ := Option.isSome_iff_exists.1 (List.isSome_idxOf?.2 h)
  rw [ordinal, List.idxOf_eq_getD_idxOf?, found]
  rfl

theorem then_of_ne {o o' : Ordering} (h : o ≠ .eq) : o.then o' = o := by
  cases o with
  | lt | gt => rfl
  | eq => exact absurd rfl h

/-- Two pointers that the table orders as it is: they stand in one tree, or it holds the tops of both. -/
structure Roots.Settles (t : Roots) (f : Forest) (a b : Pointer) : Prop where
  left : f.Reached a
  right : f.Reached b
  tops : f.topOf a = f.topOf b ∨ f.topOf a ∈ t.tops ∧ f.topOf b ∈ t.tops

namespace Roots.Knows

open Forest

variable {f : Forest} {t : Roots} {a b : Pointer}

/-- A pointer the table knows stands in the tree of its top. -/
theorem exists_top (wf : f.WellFormed) (h : t.Knows f a) :
    ∃ r, f.IsTop r ∧ r ∈ t.tops ∧ a ∈ f.walk r ∧ f.topOf a = r := by
  obtain ⟨top, mem⟩ := h.reached.isTop_topOf wf
  exact ⟨_, top, h.top _ top mem, mem, rfl⟩

theorem settles (wf : f.WellFormed) (ha : t.Knows f a) (hb : t.Knows f b) : t.Settles f a b := by
  obtain ⟨r, -, mem, -, rfl⟩ := ha.exists_top wf
  obtain ⟨r', -, mem', -, rfl⟩ := hb.exists_top wf
  exact ⟨ha.reached, hb.reached, Or.inr ⟨mem, mem'⟩⟩

end Roots.Knows

namespace Roots.Settles

open Forest

variable {f : Forest} {t : Roots} {a b : Pointer}

theorem comparePositions (wf : f.WellFormed) (h : t.Settles f a b) :
    f.comparePositions a b t = .ok (f.placeOrder t a b) t := by
  obtain ⟨top, inside⟩ := h.left.isTop_topOf wf
  obtain ⟨top', inside'⟩ := h.right.isTop_topOf wf
  rw [Forest.placeOrder, compareLex, compareOn, compareOn, Forest.treeRank, Forest.treeRank,
    Forest.walkRank, Forest.walkRank]
  by_cases same : f.topOf a = f.topOf b
  · rw [← same] at inside' ⊢
    rw [comparePositions_of_mem_walk wf top inside inside', Nat.compare_eq_eq.2 rfl]
    rfl
  · obtain ⟨mem, mem'⟩ := h.tops.resolve_left same
    rw [comparePositions_of_ne_top wf top top' same inside inside', ordinal_of_mem mem,
      ordinal_of_mem mem']
    have ne : Ord.compare (t.tops.idxOf (f.topOf a)) (t.tops.idxOf (f.topOf b)) ≠ .eq := fun eq =>
      same (List.idxOf_inj mem |>.1 (Nat.compare_eq_eq.1 eq))
    rw [then_of_ne ne]

/-- Different pointers stand in different places. -/
theorem eq_of_placeOrder (wf : f.WellFormed) (h : t.Settles f a b)
    (eq : f.placeOrder t a b = .eq) : a = b := by
  obtain ⟨-, inside⟩ := h.left.isTop_topOf wf
  obtain ⟨trees, places⟩ := Ordering.then_eq_eq.1 eq
  have same : f.topOf a = f.topOf b := by
    rcases h.tops with same | ⟨mem, -⟩
    · exact same
    · rwa [compareOn, Forest.treeRank, Forest.treeRank, Nat.compare_eq_eq, List.idxOf_inj mem] at trees
  rw [compareOn, Forest.walkRank, Forest.walkRank, ← same, Nat.compare_eq_eq,
    List.idxOf_inj inside] at places
  exact places

theorem subject (wf : f.WellFormed) (h : t.Settles f a b) :
    t.Settles f (f.subjectOrSelf a) (f.subjectOrSelf b) := by
  obtain ⟨reachedA, topA⟩ := h.left.topOf_subject wf
  obtain ⟨reachedB, topB⟩ := h.right.topOf_subject wf
  refine ⟨reachedA, reachedB, ?_⟩
  rw [topA, topB]
  exact h.tops

end Roots.Settles

theorem compareText_eq (a b : String) : compareText a b = Ord.compare a b := rfl

theorem compareOption_eq (a b : Option String) :
    compareOption compareText a b = Ord.compare a b := by
  cases a <;> cases b <;> rfl

theorem Name.compare_eq (n m : Name) :
    n.compare m = (Ord.compare n.localPart m.localPart).then
      ((Ord.compare n.namespaceUri m.namespaceUri).then (Ord.compare n.qualifier m.qualifier)) := by
  rw [Name.compare, compareOption_eq, compareOption_eq, compareText_eq]

/-! ## Keys -/

namespace Forest

variable {f : Forest} {t : Roots}

/-- The order of the parts of names, the local part first; absent parts come first. -/
def nameOrder (f : Forest) : Pointer → Pointer → Ordering :=
  compareLex (compareOn fun p => (f.name? p.node).map Name.localPart) <|
    compareLex (compareOn fun p => (f.name? p.node).bind Name.namespaceUri)
      (compareOn fun p => (f.name? p.node).bind Name.qualifier)

/-- The order of subjects by their places. -/
def subjectOrder (f : Forest) (t : Roots) : Pointer → Pointer → Ordering :=
  compareLex (compareOn fun p => f.treeRank t (f.subjectOrSelf p))
    (compareOn fun p => f.walkRank (f.subjectOrSelf p))

/-- The order of sequences by keys. -/
def inSequence (f : Forest) (t : Roots) : Pointer → Pointer → Ordering :=
  compareLex (f.subjectOrder t) <|
    compareLex (compareOn fun p => decide (f.kind p.node = .attribute)) <|
      compareLex f.nameOrder (f.placeOrder t)

theorem inSequence_apply (a b : Pointer) : f.inSequence t a b =
    (f.placeOrder t (f.subjectOrSelf a) (f.subjectOrSelf b)).then
      ((Ord.compare (decide (f.kind a.node = .attribute)) (decide (f.kind b.node = .attribute))).then
        ((f.nameOrder a b).then (f.placeOrder t a b))) := rfl

theorem exists_name_of_attribute {p : Pointer} (h : f.kind p.node = .attribute) :
    ∃ n, f.name? p.node = some n := by
  refine Option.isSome_iff_exists.1 ?_
  rw [name?, Label.isSome_name?]
  exact congrArg Kind.isNamed h

theorem nameOrder_apply {a b : Pointer} {n m : Name} (ha : f.name? a.node = some n)
    (hb : f.name? b.node = some m) : f.nameOrder a b =
      (Ord.compare n.localPart m.localPart).then
        ((Ord.compare n.namespaceUri m.namespaceUri).then (Ord.compare n.qualifier m.qualifier)) := by
  simp only [nameOrder, compareLex, compareOn, ha, hb]
  rfl

/-- Attributes have names, and these are compared. -/
theorem compareNames_eq {a b : Pointer} (attrA : f.kind a.node = .attribute)
    (attrB : f.kind b.node = .attribute) : f.compareNames a b = f.nameOrder a b := by
  obtain ⟨n, ha⟩ := exists_name_of_attribute attrA
  obtain ⟨m, hb⟩ := exists_name_of_attribute attrB
  rw [compareNames, ha, hb, nameOrder_apply ha hb]
  exact n.compare_eq m

instance : Std.TransCmp f.nameOrder := by
  unfold nameOrder; infer_instance

instance : Std.TransCmp (f.subjectOrder t) := by
  unfold subjectOrder; infer_instance

instance : Std.TransCmp (f.inSequence t) := by
  unfold inSequence; infer_instance

theorem inSequence_self (a : Pointer) : f.inSequence t a a = .eq := Std.ReflCmp.compare_self

theorem inSequence_swap (a b : Pointer) : f.inSequence t a b = (f.inSequence t b a).swap :=
  Std.OrientedCmp.eq_swap

end Forest

namespace Roots.Settles

variable {f : Forest} {t : Roots} {a b : Pointer}

/-- The order of sequences is the order by keys. -/
theorem compare (wf : f.WellFormed) (h : t.Settles f a b) :
    f.compare a b t = .ok (f.inSequence t a b) t := by
  by_cases eq : a = b
  · subst eq
    rw [Forest.compare, if_pos rfl, Forest.inSequence_self]
    rfl
  rw [Forest.compare, if_neg eq]
  have subjectA := (h.left.subject wf).1
  have subjectB := (h.right.subject wf).1
  have subjects := (h.subject wf).comparePositions wf
  rw [Forest.inSequence_apply]
  by_cases attrA : f.kind a.node = .attribute <;> by_cases attrB : f.kind b.node = .attribute
  · rw [decide_eq_true attrA, decide_eq_true attrB, subjectA, subjectB]
    refine (bind_of_ok subjects).trans ?_
    cases f.placeOrder t (f.subjectOrSelf a) (f.subjectOrSelf b) with
    | lt | gt => rfl
    | eq =>
      dsimp only
      rw [Forest.compareNames_eq attrA attrB]
      cases f.nameOrder a b with
      | lt | gt => rfl
      | eq => exact h.comparePositions wf
  · rw [decide_eq_true attrA, decide_eq_false attrB, subjectA, subjectB]
    refine (bind_of_ok subjects).trans ?_
    cases f.placeOrder t (f.subjectOrSelf a) (f.subjectOrSelf b) <;> rfl
  · rw [decide_eq_false attrA, decide_eq_true attrB, subjectA, subjectB]
    refine (bind_of_ok subjects).trans ?_
    cases f.placeOrder t (f.subjectOrSelf a) (f.subjectOrSelf b) <;> rfl
  · have apart : f.placeOrder t a b ≠ .eq := fun order => eq (h.eq_of_placeOrder wf order)
    rw [decide_eq_false attrA, decide_eq_false attrB, Forest.subjectOrSelf_of_ne attrA,
      Forest.subjectOrSelf_of_ne attrB, then_of_ne apart]
    exact h.comparePositions wf

theorem inSequence_eq_eq_iff (wf : f.WellFormed) (h : t.Settles f a b) :
    f.inSequence t a b = .eq ↔ a = b := by
  constructor
  · intro order
    rw [Forest.inSequence_apply] at order
    obtain ⟨-, order⟩ := Ordering.then_eq_eq.1 order
    obtain ⟨-, order⟩ := Ordering.then_eq_eq.1 order
    exact h.eq_of_placeOrder wf (Ordering.then_eq_eq.1 order).2
  · rintro rfl
    exact Std.ReflCmp.compare_self

end Roots.Settles

namespace Roots.Knows

variable {f : Forest} {t : Roots} {a b : Pointer}

/-- The order of sequences is the order by keys. -/
theorem compare (wf : f.WellFormed) (ha : t.Knows f a) (hb : t.Knows f b) :
    f.compare a b t = .ok (f.inSequence t a b) t :=
  (ha.settles wf hb).compare wf

theorem of_mem_walk (wf : f.WellFormed) {r p : Pointer} (top : f.IsTop r) (mem : r ∈ t.tops)
    (h : p ∈ f.walk r) : t.Knows f p := by
  refine ⟨Forest.reached_of_mem_walk wf top.reached h, fun r' top' h' => ?_⟩
  rwa [← Forest.top_unique wf top top' h h']

/-- What stands below a pointer the table knows is known as well. -/
theorem entry (wf : f.WellFormed) {q p : Pointer} (hq : t.Knows f q) (hp : p ∈ f.entries q) :
    t.Knows f p := by
  obtain ⟨r, top, mem, inside, -⟩ := hq.exists_top wf
  obtain ⟨as, down⟩ := (Forest.mem_walk_iff wf).1 inside
  exact of_mem_walk wf top mem ((Forest.mem_walk_iff wf).2 ⟨_, down.snoc hp⟩)

/-- A node stands before its entries. -/
theorem placeOrder_entry (wf : f.WellFormed) {q p : Pointer} (hq : t.Knows f q)
    (hp : p ∈ f.entries q) : f.placeOrder t q p = .lt := by
  obtain ⟨r, top, mem, inside, eq⟩ := hq.exists_top wf
  obtain ⟨as, down⟩ := (Forest.mem_walk_iff wf).1 inside
  have below : p ∈ f.walk r := (Forest.mem_walk_iff wf).2 ⟨_, down.snoc hp⟩
  have order := Forest.comparePaths_eq wf top.reached down (down.snoc hp)
  rw [Forest.comparePaths_append] at order
  rw [Forest.placeOrder, compareLex, compareOn, compareOn, Forest.treeRank, Forest.treeRank,
    Forest.walkRank, Forest.walkRank, eq, Forest.topOf_of_mem_walk wf top below,
    Nat.compare_eq_eq.2 rfl, ← Except.ok.inj order]
  rfl

variable {owner : Pointer}

/-- An attribute is ordered like its owner, but after it. -/
theorem compare_attribute (wf : f.WellFormed) (h : t.Knows f owner) (ha : a ∈ f.attributes owner)
    {x : Pointer} (hx : t.Knows f x) (other : f.kind x.node ≠ .attribute) :
    f.compare a x t = if x = owner then .ok .gt t else f.compare owner x t := by
  have attr := Forest.kind_of_mem_attributes wf ha
  have notAttr := Forest.kind_ne_of_mem_entries wf.document (List.mem_append_left _ ha)
  have known : t.Knows f a := h.entry wf (List.mem_append_left _ ha)
  rw [known.compare wf hx, h.compare wf hx, Forest.inSequence_apply, Forest.inSequence_apply,
    Forest.subjectOrSelf_of_mem_attributes wf h.reached ha, Forest.subjectOrSelf_of_ne other,
    Forest.subjectOrSelf_of_ne notAttr]
  split_ifs with eq
  · subst eq
    rw [Forest.placeOrder_self, decide_eq_true attr,
      decide_eq_false other]
    rfl
  · have apart : f.placeOrder t owner x ≠ .eq := fun order =>
      eq ((h.settles wf hx).eq_of_placeOrder wf order).symm
    rw [then_of_ne apart, then_of_ne apart]

/-- Two attributes of one node are ordered by their names and then by their places. -/
theorem compare_attributes (wf : f.WellFormed) (h : t.Knows f owner) (ha : a ∈ f.attributes owner)
    (hb : b ∈ f.attributes owner) : ∃ n m o, f.name? a.node = some n ∧ f.name? b.node = some m ∧
      f.comparePositions a b t = .ok o t ∧ f.compare a b t =
        .ok ((Ord.compare n.localPart m.localPart).then
          ((Ord.compare n.namespaceUri m.namespaceUri).then
            ((Ord.compare n.qualifier m.qualifier).then o))) t := by
  have attrA := Forest.kind_of_mem_attributes wf ha
  have attrB := Forest.kind_of_mem_attributes wf hb
  have knownA : t.Knows f a := h.entry wf (List.mem_append_left _ ha)
  have knownB : t.Knows f b := h.entry wf (List.mem_append_left _ hb)
  obtain ⟨n, nameA⟩ := Forest.exists_name_of_attribute attrA
  obtain ⟨m, nameB⟩ := Forest.exists_name_of_attribute attrB
  refine ⟨n, m, _, nameA, nameB, (knownA.settles wf knownB).comparePositions wf, ?_⟩
  rw [knownA.compare wf knownB, Forest.inSequence_apply,
    Forest.subjectOrSelf_of_mem_attributes wf h.reached ha,
    Forest.subjectOrSelf_of_mem_attributes wf h.reached hb,
    Forest.placeOrder_self, decide_eq_true attrA, decide_eq_true attrB,
    Forest.nameOrder_apply nameA nameB, Ordering.then_assoc, Ordering.then_assoc]
  rfl

end Roots.Knows

namespace Forest

variable {f : Forest}

/-- With the tops of a table, the order of sequences is total: it always answers, and leaves the table
as it is; it calls only equal pointers equal; it is reversed with its arguments; and it is transitive.
An attribute is ordered like its owner against everything that is no attribute, but after the owner
itself, so that it stands between the owner and the children of it; and two attributes of one owner are
ordered by their names, local part first, then the namespace, then the qualifier, and at last by their
places. -/
theorem compare_total (wf : f.WellFormed) (t : Roots) :
    (∀ a b, t.Knows f a → t.Knows f b → ∃ o, f.compare a b t = .ok o t ∧ (o = .eq ↔ a = b) ∧
      f.compare b a t = .ok o.swap t) ∧
    (∀ a b c, t.Knows f a → t.Knows f b → t.Knows f c → ∀ o, f.compare a b t = .ok o t →
      f.compare b c t = .ok o t → f.compare a c t = .ok o t) ∧
    ∀ owner a, t.Knows f owner → a ∈ f.attributes owner →
      (∀ x, t.Knows f x → f.kind x.node ≠ .attribute →
        f.compare a x t = if x = owner then .ok .gt t else f.compare owner x t) ∧
      f.compare owner a t = .ok .lt t ∧
      (∀ c ∈ f.children owner, f.compare a c t = .ok .lt t) ∧
      ∀ b ∈ f.attributes owner, ∃ n m o, f.name? a.node = some n ∧ f.name? b.node = some m ∧
        f.comparePositions a b t = .ok o t ∧ f.compare a b t =
          .ok ((Ord.compare n.localPart m.localPart).then
            ((Ord.compare n.namespaceUri m.namespaceUri).then
              ((Ord.compare n.qualifier m.qualifier).then o))) t := by
  refine ⟨fun a b ha hb => ?_, fun a b c ha hb hc o hab hbc => ?_, fun owner a h mem => ?_⟩
  · refine ⟨_, ha.compare wf hb, (ha.settles wf hb).inSequence_eq_eq_iff wf, ?_⟩
    rw [hb.compare wf ha, inSequence_swap]
  · rw [ha.compare wf hb] at hab
    rw [hb.compare wf hc] at hbc
    rw [ha.compare wf hc]
    injection hab with ab
    injection hbc with bc
    congr 1
    cases o with
    | lt => exact Std.TransCmp.lt_trans ab bc
    | eq => exact Std.TransCmp.eq_trans ab bc
    | gt => exact Std.TransCmp.gt_trans ab bc
  · have known : t.Knows f a := h.entry wf (List.mem_append_left _ mem)
    have element := kind_ne_of_mem_entries wf.document (List.mem_append_left _ mem)
    refine ⟨fun x hx other => h.compare_attribute wf mem hx other, ?_, fun c hc => ?_,
      fun b hb => h.compare_attributes wf mem hb⟩
    · have after := h.compare_attribute wf mem h element
      rw [if_pos rfl, known.compare wf h] at after
      rw [h.compare wf known, inSequence_swap]
      injection after with after
      rw [after]
      rfl
    · have entry : c ∈ f.entries owner := List.mem_append_right _ hc
      have child := (kind_of_mem_children wf hc).1
      have apart : c ≠ owner := fun eq => by
        have order := h.placeOrder_entry wf entry
        rw [eq, placeOrder_self] at order
        cases order
      rw [h.compare_attribute wf mem (h.entry wf entry) child, if_neg apart,
        h.compare wf (h.entry wf entry), inSequence_apply, subjectOrSelf_of_ne element,
        subjectOrSelf_of_ne child, h.placeOrder_entry wf entry]
      rfl

/-- The attributes of one node stand in the order of their names, whichever is written first, and a
detached attribute stands for itself. -/
theorem compare_of_unsorted_attributes :
    let y := Arena.empty.alloc (.attribute (.unqualified "y") "1") (by decide)
    let x := y.2.alloc (.attribute (.unqualified "x") "2") (by decide)
    let s := x.2.alloc (.element (.unqualified "s") [.silhouette y.1, .silhouette x.1] [.real ⟨0⟩])
      (by decide)
    let f : Forest := ⟨holding (.node (.element (.unqualified "a")) [] []), s.2⟩
    let owner := Pointer.silhouette s.1
    let slot : SilhouetteId → Name → Pointer := fun id n => ⟨.silhouette id, [⟨s.1, .attribute n⟩]⟩
    let t : Roots := ⟨[owner, .silhouette y.1]⟩
    f.WellFormed ∧ t.Knows f owner ∧ t.Knows f (.silhouette y.1) ∧
      f.compare owner (slot y.1 (.unqualified "y")) t = .ok .lt t ∧
      f.compare (slot y.1 (.unqualified "y")) ⟨.real ⟨0⟩, [⟨s.1, .child 0⟩]⟩ t = .ok .lt t ∧
      f.compare (slot y.1 (.unqualified "y")) (slot x.1 (.unqualified "x")) t = .ok .gt t ∧
      ∃ o, f.compare owner (.silhouette y.1) t = .ok o t ∧ o ≠ .eq ∧
        f.compare (.silhouette y.1) owner t = .ok o.swap t := by
  intro y x s f owner slot t
  have document : f.document.WellFormed := wellFormed_holding (.node (.element (.unqualified "a")) [] [])
  have wf : f.WellFormed := .of_silhouettes document (by decide +kernel)
  have known : t.Knows f owner := .of_mem_walk wf (.silhouette s.1) (by decide) (by decide +kernel)
  have detached : t.Knows f (.silhouette y.1) :=
    .of_mem_walk wf (.silhouette y.1) (by decide) (by decide +kernel)
  obtain ⟨total, -, rules⟩ := compare_total wf t
  obtain ⟨-, after, before, names⟩ := rules owner (slot y.1 (.unqualified "y")) known
    (by decide +kernel)
  refine ⟨wf, known, detached, after, before _ (by decide +kernel), ?_, ?_⟩
  · obtain ⟨n, m, o, hn, hm, -, order⟩ := names (slot x.1 (.unqualified "x")) (by decide +kernel)
    obtain rfl : .unqualified "y" = n := Option.some.inj hn
    obtain rfl : .unqualified "x" = m := Option.some.inj hm
    exact order
  · obtain ⟨o, order, eq, swapped⟩ := total _ _ known detached
    exact ⟨o, order, fun h => absurd (eq.1 h) (by decide), swapped⟩

end Forest

end VirtualTree
