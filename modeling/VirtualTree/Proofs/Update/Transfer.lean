import Mathlib.Data.List.Forall2
import Mathlib.Data.List.Nodup
import VirtualTree.Update.Transfer

/-!
# Reading the transferable form back

A JSON object that travels need not come back as it was written: its fields may stand in another
order, fields that the reader does not know may have been added, and fields that are `null` may have
been left out.  `Json.Restated` says that a value is another one up to such changes, at every depth.
A reader that undoes a writer up to them is faithful to it; texts, lists, names, actions and updates
are, each because its parts are, and so an update is read back from every restatement of its
transferable form.
-/

namespace VirtualTree

namespace Json

/-- A value written in another way.  Where an object has a field, the other one has the field with
the value written in another way, or the value is `null` and the other one lacks the field; all other
fields are free, and so is the order. -/
inductive Restated : Json → Json → Prop
  | same (j : Json) : Restated j j
  | array {elements given : List Json} (each : List.Forall₂ Restated elements given) :
    Restated (.array elements) (.array given)
  | object {fields given : List (String × Json)}
    (stated : ∀ field ∈ fields, ∀ other ∈ given, other.1 = field.1 → Restated field.2 other.2)
    (dropped : ∀ field ∈ fields, field.1 ∉ given.map Prod.fst → field.2 = .null) :
    Restated (.object fields) (.object given)

/-- What a reader finds under a name stands for a value: the value written in another way, or nothing
for `null`. -/
def Stands (value : Json) : Option Json → Prop
  | some given => Restated value given
  | none => value = .null

/-- A reader gives back what a writer wrote, in whatever way it is written. -/
def Faithful {α : Type} (write : α → Json) (read : Json → Option α) : Prop :=
  ∀ a given, Restated (write a) given → read given = some a

theorem mem_of_field? {name : String} {fields : List (String × Json)} {value : Json}
    (h : field? name fields = some value) : (name, value) ∈ fields := by
  obtain ⟨before, after, rfl, -⟩ := List.lookup_eq_some_iff.1 h
  exact List.mem_append_right _ List.mem_cons_self

theorem not_mem_of_field? {name : String} {fields : List (String × Json)}
    (h : field? name fields = none) : name ∉ fields.map Prod.fst := by
  intro named
  obtain ⟨field, mem, rfl⟩ := List.mem_map.1 named
  simpa using List.lookup_eq_none_iff.1 h field mem

/-- An object whose names are distinct may be written in any order, without fields that are `null`,
and with fields of other names. -/
theorem Restated.of_perm {fields kept others given : List (String × Json)}
    (distinct : (fields.map Prod.fst).Nodup) (sub : kept ⊆ fields)
    (nulls : ∀ field ∈ fields, field ∉ kept → field.2 = .null)
    (unknown : ∀ other ∈ others, other.1 ∉ fields.map Prod.fst)
    (perm : given.Perm (kept ++ others)) : Restated (.object fields) (.object given) := by
  refine .object (fun field old other new names => ?_) fun field old missing => ?_
  · rcases List.mem_append.1 (perm.mem_iff.1 new) with known | added
    · obtain rfl : other = field := List.inj_on_of_nodup_map distinct (sub known) old names
      exact .same other.2
    · exact absurd (names ▸ List.mem_map_of_mem old) (unknown other added)
  · refine nulls field old fun here => missing ?_
    exact List.mem_map_of_mem (perm.mem_iff.2 (List.mem_append_left others here))

/-- An object written in another way is an object, and what it has under a name stands for what is
written there. -/
theorem Restated.stands {fields : List (String × Json)} {j : Json}
    (h : Restated (.object fields) j) :
    ∃ given, j = .object given ∧
      ∀ name value, field? name fields = some value → Stands value (field? name given) := by
  cases h with
  | same =>
    refine ⟨fields, rfl, fun name value found => ?_⟩
    rw [found]
    exact Restated.same value
  | @object _ given stated dropped =>
    refine ⟨given, rfl, fun name value found => ?_⟩
    have written := mem_of_field? found
    cases there : field? name given with
    | none => exact dropped _ written (not_mem_of_field? there)
    | some value' => exact stated _ written _ (mem_of_field? there) rfl

/-- A list written in another way has its elements written in another way. -/
theorem Restated.elements {elements : List Json} {j : Json} (h : Restated (.array elements) j) :
    ∃ given, j = .array given ∧ List.Forall₂ Restated elements given := by
  cases h with
  | same => exact ⟨elements, rfl, List.forall₂_same.2 fun e _ => .same e⟩
  | array each => exact ⟨_, rfl, each⟩

theorem Restated.eq_null {j : Json} (h : Restated j .null) : j = .null := by
  cases h
  rfl

theorem faithful_string : Faithful .string string? := by
  rintro s j ⟨⟩
  rfl

section

variable {α : Type} {write : α → Json} {read : Json → Option α}

theorem Faithful.array (h : Faithful write read) :
    Faithful (fun l : List α => .array (l.map write)) (array? read) := by
  intro l j restated
  obtain ⟨given, rfl, each⟩ := restated.elements
  clear restated
  show given.mapM read = some l
  induction l generalizing given with
  | nil =>
    obtain rfl := List.forall₂_nil_left_iff.1 each
    rfl
  | cons a l ih =>
    obtain ⟨first, rest, head, tail, rfl⟩ := List.forall₂_cons_left_iff.1 each
    simp [h a first head, ih rest tail]

/-- A required field is read through a reader that fails on `null`. -/
theorem Faithful.bind (h : Faithful write read) {a : α} (present : write a ≠ .null)
    {found : Option Json} (stands : Stands (write a) found) : found.bind read = some a := by
  cases found with
  | none => exact absurd stands present
  | some given => exact h a given stands

/-- An optional field is read whether `null` is written or left out. -/
theorem Faithful.optional (h : Faithful write read) (present : ∀ a, write a ≠ .null)
    {a? : Option α} {found : Option Json} (stands : Stands (ofOption write a?) found) :
    optional? read found = some a? := by
  cases a? with
  | none =>
    cases found with
    | none => rfl
    | some given =>
      obtain ⟨⟩ : Restated .null given := stands
      rfl
  | some a =>
    cases found with
    | none => exact absurd stands (present a)
    | some given =>
      have back : read given = some a := h a given stands
      cases given with
      | null => exact absurd (Restated.eq_null stands) (present a)
      | _ => simp [optional?, back]

end

end Json

open Json

/-- A name is read back from every object that says what its form says. -/
theorem Name.faithful : Faithful Name.toJson Name.ofJson? := by
  intro n j restated
  obtain ⟨given, rfl, stands⟩ := restated.stands
  have qualifier := faithful_string.optional (fun _ => nofun)
    (stands "prefix" (.ofOption .string n.qualifier) rfl)
  have uri := faithful_string.optional (fun _ => nofun)
    (stands "namespaceURI" (.ofOption .string n.namespaceUri) rfl)
  have localPart := faithful_string.bind nofun (stands "localName" (.string n.localPart) rfl)
  obtain ⟨value, found, text⟩ := Option.bind_eq_some_iff.1 localPart
  simp [Name.ofJson?, fields?, qualifier, uri, found, text]

theorem UpdateKind.ofString?_written (k : UpdateKind) : UpdateKind.ofString? k.written = some k := by
  cases k <;> rfl

section

variable {α : Type} {write : α → Json} {read : Json → Option α}

/-- An action is read back, as one of its kind, from what stands for the value of its field. -/
theorem Action.ofJson?_of_stands (h : Faithful write read) (a : Action α) {found : Option Json}
    (stands : Stands (a.toJson write) found) : Action.ofJson? read a.kind found = some a := by
  cases a with
  | delete => rfl
  | insert place content =>
    have back := h.array.bind nofun stands
    cases place <;> simp [Action.ofJson?, Action.kind, Place.kind, back]
  | insertAttributes content =>
    have back := h.array.bind nofun stands
    simp [Action.ofJson?, Action.kind, back]
  | rename name =>
    have back := Name.faithful.bind nofun stands
    simp [Action.ofJson?, Action.kind, back]
  | replaceNode replacement =>
    have back := h.array.bind nofun stands
    simp [Action.ofJson?, Action.kind, back]
  | replaceValue value =>
    have back := faithful_string.bind nofun stands
    simp [Action.ofJson?, Action.kind, back]
  | replaceElementContent text =>
    have back := faithful_string.optional (fun _ => nofun) stands
    simp [Action.ofJson?, Action.kind, back]
  | put uri =>
    have back := faithful_string.bind nofun stands
    simp [Action.ofJson?, Action.kind, back]

/-- The target is found in the transferable form. -/
theorem Update.field?_targetField (u : Update α) :
    field? u.kind.targetField (u.toFields write) = some (write u.target) := by
  have free : (u.kind.targetField == "type") = false := by
    cases u.kind <;> rfl
  simp [field?, Update.toFields, List.lookup_cons, free]

/-- What the action needs is found in the transferable form. -/
theorem Update.field?_actionField {u : Update α} {name : String}
    (h : u.kind.actionField? = some name) :
    field? name (u.toFields write) = some (u.action.toJson write) := by
  have free : (name == "type") = false ∧ (name == u.kind.targetField) = false := by
    cases kind : u.kind <;> rw [kind] at h <;> cases h <;> exact ⟨rfl, rfl⟩
  simp [field?, Update.toFields, List.lookup_cons, free, h]

/-- What is found for the action in an object that says what the form says stands for what the action
needs; nothing is looked for if it needs nothing. -/
theorem Update.stands_action {u : Update α} {given : List (String × Json)}
    (stands : ∀ name value, field? name (u.toFields write) = some value →
      Stands value (field? name given)) :
    Stands (u.action.toJson write) (u.kind.actionField?.bind fun name => field? name given) := by
  cases field : u.kind.actionField? with
  | some name => exact stands name _ (field?_actionField field)
  | none =>
    obtain ⟨target, action⟩ := u
    cases action with
    | delete => rfl
    | insert place content => cases place <;> cases field
    | _ => cases field

/-- An update is read back from every object that says what its form says. -/
theorem Update.faithful (h : Faithful write read) (present : ∀ a, write a ≠ .null) :
    Faithful (Update.toJson write) (Update.ofJson? read) := by
  intro u j restated
  obtain ⟨given, rfl, stands⟩ := restated.stands
  have type := faithful_string.bind nofun (stands "type" (.string u.kind.written) rfl)
  obtain ⟨tag, tagged, named⟩ := Option.bind_eq_some_iff.1 type
  have target := h.bind (present u.target) (stands _ _ u.field?_targetField)
  obtain ⟨node, found, back⟩ := Option.bind_eq_some_iff.1 target
  have action := Action.ofJson?_of_stands h u.action (Update.stands_action stands)
  rw [← Update.kind] at action
  simp [Update.ofJson?, Update.ofFields?, tagged, named, UpdateKind.ofString?_written, found, back,
    action]

/-- The transferable form of an update of texts gives the update again, whatever the order of its
fields, whatever fields are added that it does not know, and with or without those that are `null`;
and so does the form of the name in it. -/
theorem Update.ofJson?_of_restated (u : Update String) {j : Json}
    (h : (u.toJson .string).Restated j) : Update.ofJson? Json.string? j = some u :=
  Update.faithful faithful_string (fun _ => nofun) u j h

/-- A new name without a prefix: the fields of the update and of the name in another order, each with
one added, and the prefix left out. -/
theorem Update.ofJson?_renamed :
    let u : Update String := ⟨"node", .rename ⟨none, "b", some "urn:x"⟩⟩
    let name : Json := .object
      [("localName", .string "b"), ("note", .null), ("namespaceURI", .string "urn:x")]
    let j : Json := .object [("newName", name), ("count", .number 1), ("target", .string "node"),
      ("type", .string "rename")]
    (u.toJson .string).Restated j ∧ Update.ofJson? Json.string? j = some u := by
  intro u name j
  have perm :
      [("localName", Json.string "b"), ("note", .null), ("namespaceURI", .string "urn:x")].Perm
      ([("localName", .string "b"), ("namespaceURI", .string "urn:x")] ++ [("note", .null)]) :=
    .cons _ (.swap _ _ _)
  have named : (Name.toJson ⟨none, "b", some "urn:x"⟩).Restated name :=
    .of_perm (by decide) (by simp [Json.ofOption]) (by simp [Json.ofOption]) (by decide) perm
  have form : u.toJson .string = .object [("type", .string "rename"), ("target", .string "node"),
      ("newName", Name.toJson ⟨none, "b", some "urn:x"⟩)] := rfl
  have restated : (u.toJson .string).Restated j :=
    form ▸ .object (by simp [named, Restated.same]) (by simp)
  exact ⟨restated, Update.ofJson?_of_restated u restated⟩

end

end VirtualTree
