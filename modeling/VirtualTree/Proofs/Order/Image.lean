import VirtualTree.Proofs.Keeps
import VirtualTree.Proofs.Materialization.Located
import VirtualTree.Proofs.Order.Preorder

/-!
# Comparing images

An `Image` carries the virtual nodes below a top to pointers of any forest: with the same labels, the
parent to the parent, and an entry to the entry with the same position.  Then the path to the image of a
node is the image of the path (`Image.path_of_descends`), so images are compared as the nodes themselves:
one order is the answer for all images, and none of the comparisons looks at the table
(`exists_comparePositions`, `exists_compare`).
-/

namespace VirtualTree

open Document

namespace Forest

variable {f g : Forest} {top : SilhouetteId} {image : Pointer → Pointer} {q p r a b : Pointer}

/-! ## Virtual nodes below a top -/

/-- A virtual node that steps to attributes and children lead to from a silhouette in no slot. -/
structure Below (f : Forest) (top : SilhouetteId) (p : Pointer) : Prop where
  steps : f.StepsTo (.silhouette top) p
  virtual : ∃ id, p.node = .silhouette id

theorem below_top (f : Forest) (top : SilhouetteId) : f.Below top (.silhouette top) :=
  ⟨.refl, top, rfl⟩

theorem Below.entry (h : f.Below top q) (mem : p ∈ f.entries q) (virtual : ∃ id, p.node = .silhouette id) :
    f.Below top p :=
  ⟨.tail h.steps mem, virtual⟩

/-- A node below a top is the top or an entry of another. -/
theorem Below.eq_or_entry (h : f.Below top p) :
    p = .silhouette top ∨ ∃ q, f.Below top q ∧ p ∈ f.entries q := by
  obtain ⟨steps, id, virtual⟩ := h
  cases steps with
  | refl => exact Or.inl rfl
  | tail steps mem =>
    obtain ⟨above, graft, rfl, -⟩ := exists_above mem virtual
    exact Or.inr ⟨_, ⟨steps, above, rfl⟩, mem⟩

theorem Below.exists_descends (h : f.Below top p) : ∃ as, f.Descends (.silhouette top) as p := by
  obtain ⟨steps, -⟩ := h
  induction steps with
  | refl => exact ⟨[], .here _⟩
  | tail _ mem ih =>
    obtain ⟨as, down⟩ := ih
    exact ⟨_, down.snoc mem⟩

/-- All nodes on the way to a virtual node are virtual. -/
theorem Descends.virtual {as : List Pointer} (h : f.Descends r as a) (virtual : ∃ id, a.node = .silhouette id) :
    ∃ id, r.node = .silhouette id := by
  induction h with
  | here => exact virtual
  | step mem _ ih =>
    obtain ⟨id, inner⟩ := ih virtual
    obtain ⟨above, graft, rfl, -⟩ := exists_above mem inner
    exact ⟨above, rfl⟩

/-- Different entries of a node are ordered by their positions. -/
theorem compareSiblings_eq (ha : a ∈ f.entries q) (hb : b ∈ f.entries q) (ne : a ≠ b) :
    f.compareSiblings q a b =
      .ok (Ord.compare ((f.entries q).idxOf a) ((f.entries q).idxOf b)) := by
  have only {c : Pointer} : ∀ z ∈ f.entries q, c ∈ [z] → z = c := fun z _ hc =>
    (List.mem_singleton.1 hc).symm
  obtain ⟨s, found, order⟩ := find?_of_flatMap ha hb ne (List.mem_singleton_self a)
    (List.mem_singleton_self b) only only
  rw [List.flatMap_singleton'] at order
  rw [entries] at found
  rw [compareSiblings, found, order]

/-! ## Images -/

/-- The virtual nodes below a top, carried to a forest with all that tells their order. -/
structure Image (f : Forest) (top : SilhouetteId) (g : Forest) (image : Pointer → Pointer) : Prop where
  document : g.document.WellFormed
  inj : ∀ p q, f.Below top p → f.Below top q → image p = image q → p = q
  label : ∀ p, f.Below top p → g.label (image p).node = f.label p.node
  root : g.parent? (image (.silhouette top)) = .ok none
  kind : ∀ q p, f.Below top q → p ∈ f.entries q → f.Below top p → f.kind p.node ≠ .document
  parent : ∀ q p, f.Below top q → p ∈ f.entries q → f.Below top p →
    g.parent? (image p) = .ok (some (image q))
  entry : ∀ q p, f.Below top q → p ∈ f.entries q → f.Below top p →
    image p ∈ g.entries (image q) ∧
      (g.entries (image q)).idxOf (image p) = (f.entries q).idxOf p

namespace Image

variable (h : f.Image top g image)

include h

theorem kind_eq (hp : f.Below top p) : g.kind (image p).node = f.kind p.node :=
  congrArg Label.kind (h.label p hp)

theorem compareNames (ha : f.Below top a) (hb : f.Below top b) :
    g.compareNames (image a) (image b) = f.compareNames a b := by
  rw [Forest.compareNames, name?, name?, h.label a ha, h.label b hb, Forest.compareNames, name?, name?]

theorem path_top : g.path (image (.silhouette top)) = .ok [image (.silhouette top)] := by
  rw [path_eq h.document, h.root]
  exact ite_self _

/-- The path to an image is the image of the path. -/
theorem path_of_descends {as l : List Pointer} (hr : f.Below top r) (path : g.path (image r) = .ok l)
    (down : f.Descends r as a) (virtual : ∃ id, a.node = .silhouette id) :
    g.path (image a) = .ok (l ++ as.map image) := by
  induction down generalizing l with
  | here p => rw [path, List.map_nil, List.append_nil]
  | @step r x a as mem rest ih =>
    have hx := hr.entry mem (rest.virtual virtual)
    have inner : g.kind (image x).node ≠ .document := by
      rw [h.kind_eq hx]
      exact h.kind r x hr mem hx
    have next : g.path (image x) = .ok (l ++ [image x]) := by
      rw [path_eq h.document, if_neg inner, h.parent r x hr mem hx]
      dsimp only
      rw [path]
      rfl
    rw [ih hx next virtual, List.map_cons, List.append_assoc]
    rfl

end Image

/-! ## The order of images -/

/-- Ways down are compared alike in all images. -/
theorem exists_comparePaths {as bs : List Pointer} (hr : f.Below top r) (downA : f.Descends r as a)
    (downB : f.Descends r bs b) (virtualA : ∃ id, a.node = .silhouette id)
    (virtualB : ∃ id, b.node = .silhouette id) :
    ∃ order, ∀ g image, f.Image top g image →
      g.comparePaths (image r) (as.map image) (bs.map image) = .ok order := by
  induction downA generalizing bs with
  | here r =>
    cases downB with
    | here => exact ⟨.eq, fun g image h => rfl⟩
    | step => exact ⟨.lt, fun g image h => rfl⟩
  | @step r x a as memX restA ih =>
    have hx := hr.entry memX (restA.virtual virtualA)
    cases downB with
    | here => exact ⟨.gt, fun g image h => rfl⟩
    | @step _ y _ bs memY restB =>
      have hy := hr.entry memY (restB.virtual virtualB)
      by_cases eq : x = y
      · subst eq
        obtain ⟨order, same⟩ := ih hx restB virtualA
        refine ⟨order, fun g image h => ?_⟩
        rw [List.map_cons, List.map_cons, comparePaths, if_pos rfl]
        exact same g image h
      · refine ⟨Ord.compare ((f.entries r).idxOf x) ((f.entries r).idxOf y), fun g image h => ?_⟩
        obtain ⟨inX, placeX⟩ := h.entry r x hr memX hx
        obtain ⟨inY, placeY⟩ := h.entry r y hr memY hy
        have ne : image x ≠ image y := fun same => eq (h.inj x y hx hy same)
        rw [List.map_cons, List.map_cons, comparePaths, if_neg ne, compareSiblings_eq inX inY ne, placeX,
          placeY]

/-- The places of two nodes are compared alike in all images, without the table. -/
theorem exists_comparePositions (ha : f.Below top a) (hb : f.Below top b) :
    ∃ order, ∀ g image t, f.Image top g image →
      g.comparePositions (image a) (image b) t = .ok order t := by
  by_cases eq : a = b
  · refine ⟨.eq, fun g image t h => ?_⟩
    rw [comparePositions, if_pos (congrArg image eq)]
    rfl
  obtain ⟨as, downA⟩ := ha.exists_descends
  obtain ⟨bs, downB⟩ := hb.exists_descends
  have hr := f.below_top top
  obtain ⟨order, same⟩ := exists_comparePaths hr downA downB ha.virtual hb.virtual
  refine ⟨order, fun g image t h => ?_⟩
  rw [comparePositions, if_neg fun same => eq (h.inj a b ha hb same),
    h.path_of_descends hr h.path_top downA ha.virtual, h.path_of_descends hr h.path_top downB hb.virtual]
  show (if _ then Comparison.ofExcept (g.comparePaths _ (as.map image) (bs.map image)) else _) t = _
  rw [if_pos rfl, same g image h]
  rfl

/-- The subject of an image is the image of the subject. -/
theorem exists_subject (ha : f.Below top a) : ∃ s, f.Below top s ∧
    ∀ g image, f.Image top g image → g.subject (image a) = .ok (image s) := by
  by_cases isAttribute : f.kind a.node = .attribute
  · have stays {g : Forest} {image : Pointer → Pointer} (h : f.Image top g image) :
        g.subject (image a) = (g.parent? (image a)).map fun q => q.getD (image a) := by
      rw [subject, if_pos ((h.kind_eq ha).trans isAttribute)]
      rfl
    rcases ha.eq_or_entry with rfl | ⟨q, hq, mem⟩
    · refine ⟨_, ha, fun g image h => ?_⟩
      rw [stays h, h.root]
      rfl
    · refine ⟨q, hq, fun g image h => ?_⟩
      rw [stays h, h.parent q a hq mem ha]
      rfl
  · refine ⟨a, ha, fun g image h => ?_⟩
    rw [subject, if_neg fun kind => isAttribute ((h.kind_eq ha).symm.trans kind)]

/-- Two nodes are compared alike in all images, without the table. -/
theorem exists_compare (ha : f.Below top a) (hb : f.Below top b) :
    ∃ order, ∀ g image t, f.Image top g image → g.compare (image a) (image b) t = .ok order t := by
  by_cases eq : a = b
  · refine ⟨.eq, fun g image t h => ?_⟩
    rw [compare, if_pos (congrArg image eq)]
    rfl
  obtain ⟨sa, hsa, subjectA⟩ := exists_subject ha
  obtain ⟨sb, hsb, subjectB⟩ := exists_subject hb
  obtain ⟨subjects, compareSubjects⟩ := exists_comparePositions hsa hsb
  obtain ⟨places, comparePlaces⟩ := exists_comparePositions ha hb
  have opened {g : Forest} {image : Pointer → Pointer} (h : f.Image top g image) :
      image a ≠ image b ∧ g.kind (image a).node = f.kind a.node ∧
        g.kind (image b).node = f.kind b.node :=
    ⟨fun same => eq (h.inj a b ha hb same), h.kind_eq ha, h.kind_eq hb⟩
  by_cases attrA : f.kind a.node = .attribute <;> by_cases attrB : f.kind b.node = .attribute
  · refine ⟨subjects.then ((f.compareNames a b).then places), fun g image t h => ?_⟩
    obtain ⟨ne, kindA, kindB⟩ := opened h
    rw [compare, if_neg ne, kindA, kindB, decide_eq_true attrA, decide_eq_true attrB, subjectA g image h,
      subjectB g image h]
    refine (bind_of_ok (compareSubjects g image t h)).trans ?_
    cases subjects with
    | lt | gt => rfl
    | eq =>
      dsimp only
      rw [h.compareNames ha hb]
      cases f.compareNames a b with
      | lt | gt => rfl
      | eq => exact comparePlaces g image t h
  · refine ⟨subjects.then .gt, fun g image t h => ?_⟩
    obtain ⟨ne, kindA, kindB⟩ := opened h
    rw [compare, if_neg ne, kindA, kindB, decide_eq_true attrA, decide_eq_false attrB, subjectA g image h,
      subjectB g image h]
    refine (bind_of_ok (compareSubjects g image t h)).trans ?_
    cases subjects <;> rfl
  · refine ⟨subjects.then .lt, fun g image t h => ?_⟩
    obtain ⟨ne, kindA, kindB⟩ := opened h
    rw [compare, if_neg ne, kindA, kindB, decide_eq_false attrA, decide_eq_true attrB, subjectA g image h,
      subjectB g image h]
    refine (bind_of_ok (compareSubjects g image t h)).trans ?_
    cases subjects <;> rfl
  · refine ⟨places, fun g image t h => ?_⟩
    obtain ⟨ne, kindA, kindB⟩ := opened h
    rw [compare, if_neg ne, kindA, kindB, decide_eq_false attrA, decide_eq_false attrB]
    exact comparePlaces g image t h

end Forest

end VirtualTree
