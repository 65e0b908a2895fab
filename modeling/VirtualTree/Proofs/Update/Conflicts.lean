import Mathlib.Data.List.Pairwise
import VirtualTree.Proofs.Update.Compatibility

/-!
# Contradictions

The check for contradictions finds one just if there is one, and of several it reports the first in a
fixed order of kinds (`Forest.verdict_eq`).  What contradicts what is said without the check: two updates
of a kind have one target, two documents are stored at one address, or two names bind one qualifier to two
namespaces on one element (`Forest.BoundTwice`).

The check compares a binding with the first one of its qualifier only.  That suffices, for as long as no
contradiction was found all bindings of a qualifier are equal to the first (`firstRebound_eq_none_iff`).
-/

namespace VirtualTree

/-! ## What the names of a list bind -/

/-- The name binds the qualifier to the namespace where it is written as that of an element or of an
attribute: it is not reserved, and no qualifier and no namespace count as empty ones, but an attribute
without a qualifier binds nothing. -/
structure Name.Binds (n : Name) (kind : Kind) (qualifier uri : String) : Prop where
  qualifier_free : n.qualifier ≠ some "xml" ∧ n.qualifier ≠ some "xmlns"
  namespace_free : n.namespaceUri ≠ some xmlNamespace ∧ n.namespaceUri ≠ some xmlnsNamespace
  qualified : kind = .attribute → n.qualifier ≠ none
  qualifier_eq : n.qualifier.getD "" = qualifier
  uri_eq : n.namespaceUri.getD "" = uri

namespace Forest

variable (f : Forest)

/-- The update writes the name on the element, as that of the element or of an attribute. -/
inductive Writes (u : Update Pointer) (element : Pointer) (name : Name) : Kind → Prop
  /-- The name of an inserted node comes to the target. -/
  | inserted {content : List Pointer} {a : Pointer} (action : u.action = .insertAttributes content)
    (target : u.target = element) (mem : a ∈ content) (named : f.name? a.node = some name) :
    Writes u element name .attribute
  /-- The name of an attribute that replaces an attribute comes to the owner. -/
  | replacing {replacement : List Pointer} {a : Pointer} (action : u.action = .replaceNode replacement)
    (kind : f.kind u.target.node = .attribute) (owner : f.parent? u.target = .ok (some element))
    (mem : a ∈ replacement) (suitable : f.kind a.node = .attribute)
    (named : f.name? a.node = some name) : Writes u element name .attribute
  /-- The new name of an attribute comes to the owner. -/
  | renamedAttribute (action : u.action = .rename name) (kind : f.kind u.target.node = .attribute)
    (owner : f.parent? u.target = .ok (some element)) : Writes u element name .attribute
  /-- The new name of an element comes to the element. -/
  | renamedElement (action : u.action = .rename name) (kind : f.kind u.target.node = .element)
    (target : u.target = element) : Writes u element name .element

/-- The update writes a name on the element that binds the qualifier to the namespace. -/
def Binds (u : Update Pointer) (element : Pointer) (qualifier uri : String) : Prop :=
  ∃ name kind, f.Writes u element name kind ∧ name.Binds kind qualifier uri

/-- Two names that the updates write on one element bind one qualifier to two namespaces. -/
def BoundTwice (updates : List (Update Pointer)) : Prop :=
  ∃ element qualifier uri uri', uri ≠ uri' ∧ (∃ u ∈ updates, f.Binds u element qualifier uri) ∧
    ∃ u ∈ updates, f.Binds u element qualifier uri'

/-- The code with which the check refuses an update list, if it does. -/
def verdict (updates : List (Update Pointer)) : Option ErrorCode :=
  match f.compatibility updates with
  | .ok () => none
  | .error e => some e.standardCode

end Forest

/-- Two updates of the kind have one target. -/
def TargetedTwice (kind : UpdateKind) (updates : List (Update Pointer)) : Prop :=
  ∃ u v, [u, v].Sublist updates ∧ u.kind = kind ∧ v.kind = kind ∧ u.target = v.target

/-- Two updates store at one address. -/
def StoredTwice (updates : List (Update Pointer)) : Prop :=
  ∃ u v uri, [u, v].Sublist updates ∧ u.action = .put uri ∧ v.action = .put uri

/-! ## Repetitions -/

theorem firstRepeated_isSome_iff {α : Type} [DecidableEq α] {l : List α} :
    (firstRepeated [] l).isSome ↔ ¬ l.Nodup := by
  simp [Option.isSome_iff_ne_none, firstRepeated_eq_none_iff]

theorem targetedTwice_iff {kind : UpdateKind} {updates : List (Update Pointer)} :
    TargetedTwice kind updates ↔ (firstRepeated [] (targetsOf kind updates)).isSome := by
  rw [firstRepeated_isSome_iff, targetsOf, List.Nodup, List.pairwise_map, List.pairwise_filter,
    List.pairwise_iff_forall_sublist, TargetedTwice]
  push Not
  simp only [decide_eq_true_eq]

theorem storedTwice_iff {updates : List (Update Pointer)} :
    StoredTwice updates ↔ (firstRepeated [] (storedUris updates)).isSome := by
  rw [firstRepeated_isSome_iff, storedUris, List.Nodup, List.pairwise_filterMap,
    List.pairwise_iff_forall_sublist, StoredTwice]
  push Not
  refine exists_congr fun u => exists_congr fun v => ?_
  cases u.action <;> cases v.action <;> simp

/-! ## Bindings of one element -/

theorem firstRebound_eq_none_iff {seen l : List (String × String)} :
    firstRebound seen l = none ↔ (∀ p ∈ l, ∀ uri, seen.lookup p.1 = some uri → uri = p.2) ∧
      l.Pairwise fun p q => p.1 = q.1 → p.2 = q.2 := by
  induction l generalizing seen with
  | nil => simp [firstRebound]
  | cons p l ih =>
    obtain ⟨qualifier, uri⟩ := p
    rw [firstRebound, List.forall_mem_cons, List.pairwise_cons]
    cases known : seen.lookup qualifier with
    | none =>
      -- The binding becomes the first of its qualifier.
      have first (p : String × String) :
          (∀ uri', ((qualifier, uri) :: seen).lookup p.1 = some uri' → uri' = p.2) ↔
            (∀ uri', seen.lookup p.1 = some uri' → uri' = p.2) ∧ (qualifier = p.1 → uri = p.2) := by
        rw [List.lookup_cons]
        by_cases same : p.1 = qualifier
        · simp [same, known]
        · simp [beq_false_of_ne same, Ne.symm same]
      simp only [ih, first, forall_and, reduceCtorEq, false_imp_iff, implies_true, true_and, and_assoc]
    | some earlier =>
      have follow (agree : ∀ p ∈ l, ∀ uri', seen.lookup p.1 = some uri' → uri' = p.2) :
          ∀ p ∈ l, qualifier = p.1 → earlier = p.2 := fun p mem eq => agree p mem _ (eq ▸ known)
      simp only [Option.some.injEq, forall_eq']
      split_ifs with same
      · subst same
        rw [ih]
        exact ⟨fun ⟨agree, rest⟩ => ⟨⟨rfl, agree⟩, follow agree, rest⟩,
          fun ⟨⟨_, agree⟩, _, rest⟩ => ⟨agree, rest⟩⟩
      · simp [same]

theorem firstRebound_isSome_iff {l : List (String × String)} :
    (firstRebound [] l).isSome ↔
      ∃ qualifier uri uri', uri ≠ uri' ∧ (qualifier, uri) ∈ l ∧ (qualifier, uri') ∈ l := by
  have : Std.Symm fun p q : String × String => p.1 = q.1 → p.2 = q.2 :=
    ⟨fun _ _ h eq => (h eq.symm).symm⟩
  have pairs : (∀ p ∈ l, ∀ q ∈ l, p.1 = q.1 → p.2 = q.2) ↔
      l.Pairwise fun p q => p.1 = q.1 → p.2 = q.2 :=
    ⟨List.pairwise_of_forall_mem_list, List.Pairwise.forall_of_forall fun _ _ _ => rfl⟩
  have unseen : ∀ p ∈ l, ∀ uri, ([] : List (String × String)).lookup p.1 = some uri → uri = p.2 :=
    fun _ _ _ => nofun
  rw [Option.isSome_iff_ne_none, Ne, firstRebound_eq_none_iff, and_iff_right unseen, ← pairs]
  push Not
  constructor
  · rintro ⟨⟨qualifier, uri⟩, mem, ⟨_, uri'⟩, mem', rfl, ne⟩
    exact ⟨qualifier, uri, uri', ne, mem, mem'⟩
  · rintro ⟨qualifier, uri, uri', ne, mem, mem'⟩
    exact ⟨_, mem, _, mem', rfl, ne⟩

namespace Forest

variable {f : Forest}

theorem bindingConflict?_isSome_iff {l : List ElementBinding} :
    (f.bindingConflict? l).isSome ↔ ∃ element qualifier uri uri', uri ≠ uri' ∧
      ⟨element, qualifier, uri⟩ ∈ l ∧ ⟨element, qualifier, uri'⟩ ∈ l := by
  have mem (element : Pointer) (b : String × String) :
      b ∈ (l.filter fun b => b.element = element).map ElementBinding.binding ↔ ⟨element, b⟩ ∈ l := by
    simp only [List.mem_map, List.mem_filter, decide_eq_true_eq]
    exact ⟨fun ⟨_, ⟨mem, target⟩, eq⟩ => eq ▸ target ▸ mem, fun mem => ⟨_, ⟨mem, rfl⟩, rfl⟩⟩
  simp only [bindingConflict?, List.findSome?_isSome_iff, Option.isSome_map, firstRebound_isSome_iff,
    mem]
  constructor
  · rintro ⟨element, -, clash⟩
    exact ⟨element, clash⟩
  · rintro ⟨element, clash⟩
    obtain ⟨qualifier, uri, uri', -, first, -⟩ := id clash
    exact ⟨element, List.mem_map_of_mem first, clash⟩

theorem code_of_bindingConflict? {l : List ElementBinding} {c : Conflict}
    (h : f.bindingConflict? l = some c) : c.code = .xudy0024 := by
  obtain ⟨element, -, found⟩ := List.exists_of_findSome?_eq_some h
  obtain ⟨clash, -, rfl⟩ := Option.map_eq_some_iff.1 found
  rfl

end Forest

/-! ## Bindings of one update -/

namespace Name

theorem elementBinding_eq_some_iff {n : Name} {qualifier uri : String} :
    n.elementBinding = some (qualifier, uri) ↔ n.Binds .element qualifier uri := by
  have free : n.isReserved = false ↔ (n.qualifier ≠ some "xml" ∧ n.qualifier ≠ some "xmlns") ∧
      n.namespaceUri ≠ some xmlNamespace ∧ n.namespaceUri ≠ some xmlnsNamespace := by
    simp only [isReserved, Bool.or_eq_false_iff, decide_eq_false_iff_not, and_assoc, Ne]
  rw [elementBinding]
  split_ifs with reserved
  · refine iff_of_false nofun fun binds => ?_
    rw [free.2 ⟨binds.qualifier_free, binds.namespace_free⟩] at reserved
    cases reserved
  · obtain ⟨qualifier_free, namespace_free⟩ := free.1 (eq_false_of_ne_true reserved)
    rw [Option.some.injEq, Prod.mk.injEq]
    exact ⟨fun ⟨q, u⟩ => ⟨qualifier_free, namespace_free, nofun, q, u⟩,
      fun h => ⟨h.qualifier_eq, h.uri_eq⟩⟩

theorem attributeBinding_eq_some_iff {n : Name} {qualifier uri : String} :
    n.attributeBinding = some (qualifier, uri) ↔ n.Binds .attribute qualifier uri := by
  have binds : n.Binds .attribute qualifier uri ↔
      n.qualifier ≠ none ∧ n.elementBinding = some (qualifier, uri) := by
    rw [elementBinding_eq_some_iff]
    exact ⟨fun h => ⟨h.qualified rfl, ⟨h.1, h.2, nofun, h.4, h.5⟩⟩,
      fun ⟨qualified, h⟩ => ⟨h.1, h.2, fun _ => qualified, h.4, h.5⟩⟩
  rw [binds, attributeBinding, elementBinding]
  cases n.qualifier <;> simp

end Name

namespace Forest

variable {f : Forest} {u : Update Pointer}

variable (f) in
/-- The list contains just the bindings that the update forces. -/
def Collects (u : Update Pointer) (l : List ElementBinding) : Prop :=
  ∀ element qualifier uri, ⟨element, qualifier, uri⟩ ∈ l ↔ f.Binds u element qualifier uri

theorem collects_nil (h : ∀ element name kind, ¬ f.Writes u element name kind) : f.Collects u [] :=
  fun _ _ _ => iff_of_false List.not_mem_nil fun ⟨_, _, writes, _⟩ => h _ _ _ writes

/-- Names of attributes that come to one owner. -/
theorem collects_attributeBindings {owner : Pointer} {content : List Pointer}
    (h : ∀ element name kind, f.Writes u element name kind ↔
      kind = .attribute ∧ owner = element ∧ ∃ a ∈ content, f.name? a.node = some name) :
    f.Collects u (f.attributeBindings owner content) := by
  intro element qualifier uri
  simp only [attributeBindings, List.mem_filterMap, Option.map_eq_some_iff, Option.bind_eq_some_iff,
    ElementBinding.mk.injEq, Binds, h]
  constructor
  · rintro ⟨a, mem, _, ⟨name, named, binding⟩, rfl, rfl⟩
    exact ⟨name, _, ⟨rfl, rfl, a, mem, named⟩, Name.attributeBinding_eq_some_iff.1 binding⟩
  · rintro ⟨name, _, ⟨rfl, rfl, a, mem, named⟩, binds⟩
    exact ⟨a, mem, _, ⟨name, named, Name.attributeBinding_eq_some_iff.2 binds⟩, rfl, rfl⟩

/-- One name that comes to one owner. -/
theorem collects_binding {owner : Pointer} {name : Name} {kind : Kind}
    {binding : Option (String × String)}
    (h : ∀ element name' kind', f.Writes u element name' kind' ↔
      kind' = kind ∧ owner = element ∧ name' = name)
    (binds : ∀ {qualifier uri}, binding = some (qualifier, uri) ↔ name.Binds kind qualifier uri) :
    f.Collects u (binding.map fun b => ⟨owner, b⟩).toList := by
  intro element qualifier uri
  simp only [Option.mem_toList, Option.map_eq_some_iff, ElementBinding.mk.injEq, Binds, h]
  constructor
  · rintro ⟨_, eq, rfl, rfl⟩
    exact ⟨name, kind, ⟨rfl, rfl, rfl⟩, binds.1 eq⟩
  · rintro ⟨_, _, ⟨rfl, rfl, rfl⟩, bound⟩
    exact ⟨_, binds.2 bound, rfl, rfl⟩

section

variable {target : Pointer} {above : Option Pointer} (parent : f.parent? target = .ok above)

theorem bindings_insertAttributes (target : Pointer) (content : List Pointer) :
    ∃ l, f.bindings ⟨target, .insertAttributes content⟩ = .ok l ∧
      f.Collects ⟨target, .insertAttributes content⟩ l := by
  refine ⟨_, rfl, collects_attributeBindings fun element name kind => ⟨?_, ?_⟩⟩
  · rintro (⟨⟨⟩, target, mem, named⟩ | ⟨⟨⟩⟩ | ⟨⟨⟩⟩ | ⟨⟨⟩⟩)
    exact ⟨rfl, target, _, mem, named⟩
  · rintro ⟨rfl, target, a, mem, named⟩
    exact .inserted rfl target mem named

include parent

theorem bindings_replaceNode (replacement : List Pointer) :
    ∃ l, f.bindings ⟨target, .replaceNode replacement⟩ = .ok l ∧
      f.Collects ⟨target, .replaceNode replacement⟩ l := by
  simp only [bindings]
  split_ifs with kind
  · rw [parent]
    cases above with
    | none =>
      refine ⟨_, rfl, collects_nil ?_⟩
      rintro element name kind (⟨⟨⟩⟩ | ⟨-, -, owner⟩ | ⟨⟨⟩⟩ | ⟨⟨⟩⟩)
      cases parent.symm.trans owner
    | some owner =>
      refine ⟨_, rfl, collects_attributeBindings fun element name kind' => ⟨?_, ?_⟩⟩
      · rintro (⟨⟨⟩⟩ | ⟨⟨⟩, -, owner', mem, suitable, named⟩ | ⟨⟨⟩⟩ | ⟨⟨⟩⟩)
        obtain ⟨⟩ := parent.symm.trans owner'
        exact ⟨rfl, rfl, _, List.mem_filter.2 ⟨mem, decide_eq_true suitable⟩, named⟩
      · rintro ⟨rfl, rfl, a, mem, named⟩
        obtain ⟨mem, suitable⟩ := List.mem_filter.1 mem
        exact .replacing rfl kind parent mem (of_decide_eq_true suitable) named
  · refine ⟨_, rfl, collects_nil ?_⟩
    rintro element name kind' (⟨⟨⟩⟩ | ⟨-, kind'⟩ | ⟨⟨⟩⟩ | ⟨⟨⟩⟩)
    exact kind kind'

theorem bindings_rename (name : Name) :
    ∃ l, f.bindings ⟨target, .rename name⟩ = .ok l ∧ f.Collects ⟨target, .rename name⟩ l := by
  simp only [bindings]
  cases kind : f.kind target.node with
  | element =>
    refine ⟨_, rfl, collects_binding (fun element name' kind' => ⟨?_, ?_⟩)
      Name.elementBinding_eq_some_iff⟩
    · rintro (⟨⟨⟩⟩ | ⟨⟨⟩⟩ | ⟨-, kind'⟩ | ⟨⟨⟩, -, target⟩)
      · cases kind.symm.trans kind'
      · exact ⟨rfl, target, rfl⟩
    · rintro ⟨rfl, target, rfl⟩
      exact .renamedElement rfl kind target
  | «attribute» =>
    rw [parent]
    cases above with
    | none =>
      refine ⟨_, rfl, collects_nil ?_⟩
      rintro element name kind' (⟨⟨⟩⟩ | ⟨⟨⟩⟩ | ⟨-, -, owner⟩ | ⟨-, kind'⟩)
      · cases parent.symm.trans owner
      · cases kind.symm.trans kind'
    | some owner =>
      refine ⟨_, rfl, collects_binding (fun element name' kind' => ⟨?_, ?_⟩)
        Name.attributeBinding_eq_some_iff⟩
      · rintro (⟨⟨⟩⟩ | ⟨⟨⟩⟩ | ⟨⟨⟩, -, owner'⟩ | ⟨-, kind'⟩)
        · obtain ⟨⟩ := parent.symm.trans owner'
          exact ⟨rfl, rfl, rfl⟩
        · cases kind.symm.trans kind'
      · rintro ⟨rfl, rfl, rfl⟩
        exact .renamedAttribute rfl kind parent
  | _ =>
    refine ⟨_, rfl, collects_nil ?_⟩
    rintro element name kind' (⟨⟨⟩⟩ | ⟨⟨⟩⟩ | ⟨-, kind'⟩ | ⟨-, kind'⟩) <;>
      cases kind.symm.trans kind'

/-- If a step up from the target does not fail, the bindings of the update are found. -/
theorem bindings_ok (action : Action Pointer) :
    ∃ l, f.bindings ⟨target, action⟩ = .ok l ∧ f.Collects ⟨target, action⟩ l := by
  cases action with
  | insertAttributes content => exact bindings_insertAttributes target content
  | replaceNode replacement => exact bindings_replaceNode parent replacement
  | rename name => exact bindings_rename parent name
  | _ =>
    refine ⟨_, rfl, collects_nil ?_⟩
    rintro element name kind (⟨⟨⟩⟩ | ⟨⟨⟩⟩ | ⟨⟨⟩⟩ | ⟨⟨⟩⟩)

end

variable {updates : List (Update Pointer)}

theorem mapM_bindings (up : ∀ u ∈ updates, ∃ above, f.parent? u.target = .ok above) :
    ∃ ls, updates.mapM f.bindings = .ok ls ∧ ∀ element qualifier uri,
      ⟨element, qualifier, uri⟩ ∈ ls.flatten ↔ ∃ u ∈ updates, f.Binds u element qualifier uri := by
  induction updates with
  | nil => exact ⟨[], rfl, by simp⟩
  | cons u us ih =>
    obtain ⟨⟨above, parent⟩, rest⟩ := List.forall_mem_cons.1 up
    obtain ⟨l, run, collects⟩ := bindings_ok parent u.action
    obtain ⟨ls, run', collect⟩ := ih rest
    refine ⟨l :: ls, ?_, fun element qualifier uri => ?_⟩
    · rw [List.mapM_cons, run, run']
      rfl
    · rw [List.flatten_cons, List.mem_append, collects, collect, List.exists_mem_cons_iff]

/-! ## The verdict -/

theorem verdict_of_bindings {ls : List (List ElementBinding)} (run : updates.mapM f.bindings = .ok ls) :
    f.verdict updates =
      ((f.targetConflict? updates).map Conflict.code).or
        ((f.bindingConflict? ls.flatten).map fun _ => .xudy0024) := by
  rw [verdict, compatibility]
  cases f.targetConflict? updates with
  | some c => exact congrArg some (ErrorCode.ofName_name c.code)
  | none =>
    simp only [run, bind, Except.bind]
    cases binding : f.bindingConflict? ls.flatten with
    | some c =>
      exact congrArg some ((ErrorCode.ofName_name c.code).trans (code_of_bindingConflict? binding))
    | none => rfl

open scoped Classical in
/-- If no step up from a target fails, as none does from where navigation leads (`Reached.parent?`), the
check reports the first in this order of the contradictions in the list, and none if the list has none. -/
theorem verdict_eq (up : ∀ u ∈ updates, ∃ above, f.parent? u.target = .ok above) :
    f.verdict updates =
      if TargetedTwice .rename updates then some .xudy0015
      else if TargetedTwice .replaceNode updates then some .xudy0016
      else if TargetedTwice .replaceValue updates ∨ TargetedTwice .replaceElementContent updates then
        some .xudy0017
      else if StoredTwice updates then some .xudy0031
      else if f.BoundTwice updates then some .xudy0024
      else none := by
  obtain ⟨ls, run, collects⟩ := mapM_bindings up
  have boundTwice : f.BoundTwice updates ↔ (f.bindingConflict? ls.flatten).isSome := by
    simp only [BoundTwice, bindingConflict?_isSome_iff, collects]
  have ite_isSome {α β : Type} (a : Option α) (b : β) (rest : Option β) :
      (if a.isSome then some b else rest) = (a.map fun _ => b).or rest := by
    cases a <;> rfl
  simp only [targetedTwice_iff, storedTwice_iff, boundTwice, ite_or, ite_isSome,
    verdict_of_bindings run, targetConflict?, Option.map_or, Option.map_map, Option.or_assoc,
    Option.or_none]
  rfl

/-- The new name of a virtual attribute and an attribute inserted on its owner bind one qualifier to two
namespaces, and nothing else contradicts. -/
theorem verdict_of_renamed_beside_inserted :
    let t : Tree := .node (.element (.unqualified "a"))
      [.leaf (.attribute ⟨some "n", "x", some "u"⟩ "1")] []
    let y := Arena.empty.alloc (.attribute (.unqualified "y") "2") (by decide)
    let s := y.2.alloc (.element (.unqualified "s") [.silhouette y.1] []) (by decide)
    let f : Forest := ⟨(t.plant .empty).2, s.2⟩
    let updates : List (Update Pointer) := [⟨.real ⟨0⟩, .put "k"⟩,
      ⟨.silhouette s.1, .insertAttributes [.real ⟨1⟩]⟩, ⟨.silhouette s.1, .rename (.unqualified "r")⟩,
      ⟨⟨.silhouette y.1, [⟨s.1, .attribute (.unqualified "y")⟩]⟩, .rename ⟨some "n", "z", some "v"⟩⟩]
    (∀ u ∈ updates, ∃ above, f.parent? u.target = .ok above) ∧ f.verdict updates = some .xudy0024 ∧
      ¬ TargetedTwice .rename updates ∧ ¬ StoredTwice updates ∧ f.BoundTwice updates := by
  intro t y s f updates
  have up : ∀ u ∈ updates, ∃ above, f.parent? u.target = .ok above := by
    simp only [updates, List.forall_mem_cons]
    exact ⟨⟨_, rfl⟩, ⟨_, rfl⟩, ⟨_, rfl⟩, ⟨_, rfl⟩, List.forall_mem_nil _⟩
  have refused : f.verdict updates = some .xudy0024 := by decide +kernel
  have verdict := verdict_eq up
  rw [refused] at verdict
  split_ifs at verdict with renamed replaced value stored bound <;> cases verdict
  exact ⟨up, refused, renamed, stored, bound⟩

end Forest

end VirtualTree
