import VirtualTree.Proofs.Forest.Axes
import VirtualTree.Proofs.Materialization.Buildable
import VirtualTree.Proofs.Materialization.Located

/-!
# Slots that are captured

A silhouette stands where its graft points say, and its own description never changes.  A child slot is
found by its position, so it holds what it held in every later forest.  An attribute slot is found by
its name, and among the attributes of a silhouette there may be real ones, whose names can change: one
that is listed earlier and comes to answer to the name of the slot captures it (`Captures`).  Then there
is no way up from the silhouette in the slot.  Nothing else can happen to a virtual pointer
(`survives_iff_not_captured`).
-/

namespace VirtualTree

namespace Forest

/-- In the later forest `g` a real node answers to the name of an attribute slot, and it is listed before
the entry that the slot has in `f`. -/
def Captures (f g : Forest) (point : GraftPoint) (a : NodeId) : Prop :=
  ∃ name, point.slot = .attribute name ∧ g.document.name? a = some name ∧
    .real a ∈ (f.arena.get point.parent).attributes.takeWhile fun r => f.name? r ≠ some name

/-- A slot that the pointer stands in, or one further up, is captured. -/
def Captured (f g : Forest) (p : Pointer) : Prop := ∃ point ∈ p.graft, ∃ a, f.Captures g point a

/-- The pointer `q` is `p`, or steps up lead to it from `p`. -/
def Upwards (f : Forest) (p q : Pointer) : Prop :=
  Relation.ReflTransGen (fun p q => f.parent? p = .ok (some q)) p q

variable {f g : Forest}

/-- The silhouettes that a silhouette refers to answer to their names in every later arena. -/
theorem name?_of_mem_references (grown : f.arena.Extends g.arena) {id s : SilhouetteId}
    (mem : .silhouette s ∈ (f.arena.get id).references) :
    g.name? (.silhouette s) = f.name? (.silhouette s) := by
  have inside : s.index < f.arena.size :=
    (Arena.lt_of_mem_references mem).trans (Arena.lt_size_of_mem_references mem)
  rw [name?, label, grown.get_eq s inside, name?, label]

/-- A virtual attribute still stands in the slot of its name just if no real one captures it. -/
theorem attribute_occupies_iff (grown : f.arena.Extends g.arena) {id s : SilhouetteId} {name : Name}
    (found : f.entry? id (.attribute name) = some (.silhouette s)) :
    g.Occupies (.silhouette s) ⟨id, .attribute name⟩ ↔
      ∀ a, ¬ f.Captures g ⟨id, .attribute name⟩ a := by
  obtain ⟨named, front, back, split, early⟩ := List.find?_eq_some_iff_append.1 found
  simp only [decide_eq_true_eq, Bool.not_eq_eq_eq_not, Bool.not_true, decide_eq_false_iff_not]
    at named early
  have refers : ∀ r ∈ front ++ .silhouette s :: back, r ∈ (f.arena.get id).references := fun r mem =>
    List.mem_append_left _ (split ▸ mem)
  have same : g.arena.get id = f.arena.get id := grown.get_eq id
    (Arena.lt_size_of_mem_references (refers (.silhouette s) (by simp)))
  have still : g.name? (.silhouette s) = some name :=
    (name?_of_mem_references grown (refers _ (by simp))).trans named
  have listed : (front ++ .silhouette s :: back).takeWhile (fun r => f.name? r ≠ some name) = front := by
    rw [List.takeWhile_append_of_pos fun r mem => decide_eq_true (early r mem)]
    simp [named]
  have captures (a : NodeId) : f.Captures g ⟨id, .attribute name⟩ a ↔
      g.document.name? a = some name ∧ .real a ∈ front := by
    simp only [Captures, split, Slot.attribute.injEq]
    constructor
    · rintro ⟨name, rfl, now, mem⟩
      exact ⟨now, by rwa [listed] at mem⟩
    · rintro ⟨now, mem⟩
      exact ⟨name, rfl, now, by rwa [listed]⟩
  simp only [Occupies, entry?, same, split, List.find?_append, captures]
  constructor
  · rintro occupies a ⟨now, mem⟩
    cases first : front.find? fun r => g.name? r = some name with
    | none => exact List.find?_eq_none.1 first (.real a) mem (decide_eq_true now)
    | some r =>
      rw [first, Option.some_or] at occupies
      cases occupies
      exact early _ (List.mem_of_find?_eq_some first) named
  · intro free
    have passed : front.find? (fun r => g.name? r = some name) = none := by
      refine List.find?_eq_none.2 fun r mem => ?_
      rw [decide_eq_true_eq]
      cases r with
      | real a => exact fun now => free a ⟨now, mem⟩
      | silhouette t =>
        rw [name?_of_mem_references grown (refers _ (List.mem_append_left _ mem))]
        exact early _ mem
    rw [passed, Option.none_or, List.find?_cons, decide_eq_true still]

/-- A virtual entry still stands in its slot just if the slot is not captured. -/
theorem occupies_iff (nav : f.Navigable) (grown : f.arena.Extends g.arena) {id s : SilhouetteId}
    {point : GraftPoint} {up : List GraftPoint}
    (mem : ⟨.silhouette s, point :: up⟩ ∈ f.entries ⟨.silhouette id, up⟩) :
    g.Occupies (.silhouette s) point ↔ ∀ a, ¬ f.Captures g point a := by
  obtain ⟨slot, eq, found⟩ := entry?_of_mem_entries (nav.names id) mem
  cases eq
  cases slot with
  | «attribute» name => exact attribute_occupies_iff grown found
  | child index =>
    have same : g.arena.get id = f.arena.get id :=
      grown.get_eq id (Arena.lt_size_of_mem_references (node_mem_references mem))
    refine iff_of_true ?_ fun a => ?_
    · rw [Occupies, entry?, same]
      exact found
    · rintro ⟨name, slot, -⟩
      cases slot

/-! ## Virtual pointers -/

/-- A virtual pointer in a slot was reached from the silhouette that has the slot. -/
theorem Reached.of_slot {s : SilhouetteId} {point : GraftPoint} {up : List GraftPoint}
    (h : f.Reached ⟨.silhouette s, point :: up⟩) : f.Reached ⟨.silhouette point.parent, up⟩ ∧
      ⟨.silhouette s, point :: up⟩ ∈ f.entries ⟨.silhouette point.parent, up⟩ := by
  cases h with
  | @entry q _ hq mem =>
    obtain ⟨above, graft, rfl, slot, eq⟩ := exists_above mem rfl
    cases eq
    exact ⟨hq, mem⟩

/-- Steps from a silhouette in a slot do not fail while it stands there. -/
theorem along_of_occupies {s : SilhouetteId} {point : GraftPoint} {up : List GraftPoint}
    (occupies : g.Occupies (.silhouette s) point) (axis : Axis) :
    ∃ found, g.along axis ⟨.silhouette s, point :: up⟩ = .ok found := by
  have sibling (direction : Direction) :
      ∃ o, g.sibling? direction ⟨.silhouette s, point :: up⟩ = .ok o := by
    simp only [sibling?, if_pos occupies]
    cases point.slot <;> exact ⟨_, rfl⟩
  cases axis with
  | child | «attribute» | firstChild | lastChild => exact ⟨_, rfl⟩
  | nextSibling =>
    obtain ⟨o, run⟩ := sibling .next
    exact ⟨o.toList, by rw [along, nextSibling?, run]; rfl⟩
  | previousSibling =>
    obtain ⟨o, run⟩ := sibling .previous
    exact ⟨o.toList, by rw [along, previousSibling?, run]; rfl⟩
  | parent => exact ⟨_, by rw [along, parent?]; simp only [if_pos occupies]; rfl⟩

theorem along_of_ungrafted (s : SilhouetteId) (axis : Axis) :
    ∃ found, g.along axis (.silhouette s) = .ok found := by
  cases axis <;> exact ⟨_, rfl⟩

/-- There is no way up from a silhouette that does not stand in its slot. -/
theorem parent?_of_not_occupies {s : SilhouetteId} {point : GraftPoint} {up : List GraftPoint}
    (strayed : ¬ g.Occupies (.silhouette s) point) :
    g.parent? ⟨.silhouette s, point :: up⟩ = .error (.emptySlot s point.slot point.parent) :=
  if_neg strayed

theorem upwards_ungrafted {s : SilhouetteId} {q : Pointer} (h : f.Upwards (.silhouette s) q) :
    q = .silhouette s := by
  rcases Relation.ReflTransGen.cases_head h with eq | ⟨r, step, -⟩
  · exact eq.symm
  · cases step

/-- While no slot is captured, the way up is as it was, and no axis fails on it. -/
theorem stands_of_not_captured (nav : f.Navigable) (grown : f.arena.Extends g.arena)
    {s : SilhouetteId} {graft : List GraftPoint} (hp : f.Reached ⟨.silhouette s, graft⟩)
    (free : ¬ f.Captured g ⟨.silhouette s, graft⟩) {q : Pointer}
    (above : f.Upwards ⟨.silhouette s, graft⟩ q) :
    g.parent? q = f.parent? q ∧ ∀ axis, ∃ found, g.along axis q = .ok found := by
  induction graft generalizing s with
  | nil =>
    obtain rfl := upwards_ungrafted above
    exact ⟨rfl, along_of_ungrafted s⟩
  | cons point up ih =>
    obtain ⟨hq, mem⟩ := hp.of_slot
    have parent := parent?_of_mem_silhouette (nav.names point.parent) mem
    have occupies : g.Occupies (.silhouette s) point :=
      (occupies_iff nav grown mem).2 fun a captures => free ⟨point, List.mem_cons_self, a, captures⟩
    rcases Relation.ReflTransGen.cases_head above with rfl | ⟨r, step, above⟩
    · refine ⟨?_, along_of_occupies occupies⟩
      rw [parent]
      exact if_pos occupies
    · rw [parent] at step
      cases step
      refine ih hq (fun ⟨point', mem', captured⟩ => free ⟨point', ?_, captured⟩) above
      exact List.mem_cons_of_mem point mem'

/-- A captured slot cannot be left upwards. -/
theorem stuck_of_captured (nav : f.Navigable) (grown : f.arena.Extends g.arena) {s : SilhouetteId}
    {graft : List GraftPoint} (hp : f.Reached ⟨.silhouette s, graft⟩)
    (captured : f.Captured g ⟨.silhouette s, graft⟩) : ∃ q, f.Upwards ⟨.silhouette s, graft⟩ q ∧
      ∃ id slot parent, g.parent? q = .error (.emptySlot id slot parent) := by
  induction graft generalizing s with
  | nil =>
    obtain ⟨point, mem, -⟩ := captured
    cases mem
  | cons point up ih =>
    obtain ⟨hq, mem⟩ := hp.of_slot
    obtain ⟨point', here | ⟨_, above⟩, a, captures⟩ := captured
    · refine ⟨_, .refl, s, point.slot, point.parent, parent?_of_not_occupies fun occupies => ?_⟩
      exact (occupies_iff nav grown mem).1 occupies a captures
    · obtain ⟨q, upwards, stuck⟩ := ih hq ⟨point', above, a, captures⟩
      exact ⟨q, .head (parent?_of_mem_silhouette (nav.names point.parent) mem) upwards, stuck⟩

/-- In a later forest the step up from a virtual pointer leads to where it led, and no axis fails on the
pointer or above it, just if none of the slots is captured; then the whole way up is as it was. -/
theorem survives_iff_not_captured (nav : f.Navigable) (grown : f.arena.Extends g.arena) {p : Pointer}
    (hp : f.Reached p) {s : SilhouetteId} (virtual : p.node = .silhouette s) :
    (g.parent? p = f.parent? p ∧ ∀ q, f.Upwards p q → ∀ axis, ∃ found, g.along axis q = .ok found) ↔
      ¬ f.Captured g p := by
  obtain ⟨node, graft⟩ := p
  obtain rfl : node = .silhouette s := virtual
  constructor
  · rintro ⟨-, axes⟩ captured
    obtain ⟨q, above, id, slot, parent, stuck⟩ := stuck_of_captured nav grown hp captured
    obtain ⟨found, run⟩ := axes q above .parent
    rw [along, stuck] at run
    cases run
  · intro free
    exact ⟨(stands_of_not_captured nav grown hp free .refl).1,
      fun q above => (stands_of_not_captured nav grown hp free above).2⟩

end Forest

end VirtualTree
