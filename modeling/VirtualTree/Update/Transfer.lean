import VirtualTree.Json
import VirtualTree.Update.Basic

/-!
# The transferable form of updates

An update whose nodes can be written as JSON values is written as an object with the name of its
kind under `type`, the target under `target` (under `node` if it is stored), and one field more for
what the action needs.  `Update.ofJson?` reads the form back; it does not care for the order of the
fields, for fields it does not know, or for optional fields that are left out.
-/

namespace VirtualTree

/-- The form of a name in a transferable update. -/
def Name.toJson (n : Name) : Json :=
  .object [("prefix", .ofOption .string n.qualifier),
    ("namespaceURI", .ofOption .string n.namespaceUri), ("localName", .string n.localPart)]

/-- The name that a value gives. -/
def Name.ofJson? (j : Json) : Option Name := do
  let fields ← j.fields? ["prefix", "namespaceURI", "localName"]
  let qualifier ← Json.optional? Json.string? (Json.field? "prefix" fields)
  let uri ← Json.optional? Json.string? (Json.field? "namespaceURI" fields)
  let localPart ← (← Json.field? "localName" fields).string?
  return ⟨qualifier, localPart, uri⟩

namespace UpdateKind

/-- The field that holds the target of an update. -/
def targetField : UpdateKind → String
  | .put => "node"
  | _ => "target"

/-- The field that an update has besides its target. -/
def actionField? : UpdateKind → Option String
  | .delete => none
  | .rename => some "newName"
  | .replaceNode => some "replacement"
  | .replaceValue => some "string-value"
  | .replaceElementContent => some "text"
  | .put => some "uri"
  | _ => some "content"

/-- The fields of an update of a kind, in order. -/
def fieldNames (k : UpdateKind) : List String := k.targetField :: k.actionField?.toList

end UpdateKind

namespace Action

variable {α : Type}

/-- The value of the field that an action has, `null` if it has none. -/
def toJson (write : α → Json) : Action α → Json
  | .delete => .null
  | .insert _ content => .array (content.map write)
  | .insertAttributes content => .array (content.map write)
  | .rename name => name.toJson
  | .replaceNode replacement => .array (replacement.map write)
  | .replaceValue value => .string value
  | .replaceElementContent text => .ofOption .string text
  | .put uri => .string uri

/-- The action of a kind whose field has the given value, if it is there. -/
def ofJson? (read : Json → Option α) (kind : UpdateKind) (value? : Option Json) :
    Option (Action α) :=
  match kind with
  | .delete => some .delete
  | .insertBefore => (value?.bind (Json.array? read)).map (.insert .before)
  | .insertAfter => (value?.bind (Json.array? read)).map (.insert .after)
  | .insertInto => (value?.bind (Json.array? read)).map (.insert .into)
  | .insertIntoAsFirst => (value?.bind (Json.array? read)).map (.insert .intoAsFirst)
  | .insertIntoAsLast => (value?.bind (Json.array? read)).map (.insert .intoAsLast)
  | .insertAttributes => (value?.bind (Json.array? read)).map .insertAttributes
  | .rename => (value?.bind Name.ofJson?).map .rename
  | .replaceNode => (value?.bind (Json.array? read)).map .replaceNode
  | .replaceValue => (value?.bind Json.string?).map .replaceValue
  | .replaceElementContent => (Json.optional? Json.string? value?).map .replaceElementContent
  | .put => (value?.bind Json.string?).map .put

end Action

namespace Update

variable {α : Type}

/-- The fields of the transferable form of an update. -/
def toFields (write : α → Json) (u : Update α) : List (String × Json) :=
  ("type", .string u.kind.written) :: (u.kind.targetField, write u.target) ::
    (u.kind.actionField?.map fun name => (name, u.action.toJson write)).toList

/-- The transferable form of an update. -/
def toJson (write : α → Json) (u : Update α) : Json := .object (u.toFields write)

/-- The update of a kind with the given fields. -/
def ofFields? (read : Json → Option α) (kind : UpdateKind) (fields : List (String × Json)) :
    Option (Update α) := do
  let target ← read (← Json.field? kind.targetField fields)
  let action ← Action.ofJson? read kind (kind.actionField?.bind fun n => Json.field? n fields)
  return ⟨target, action⟩

/-- The update that a transferable form gives.  Besides an object, an array of the kind and of the
values of its fields in order is read. -/
def ofJson? (read : Json → Option α) : Json → Option (Update α)
  | .object fields => do
    let kind ← UpdateKind.ofString? (← (← Json.field? "type" fields).string?)
    ofFields? read kind fields
  | .array (tag :: values) => do
    let kind ← UpdateKind.ofString? (← tag.string?)
    ofFields? read kind (← Json.fields? kind.fieldNames (.array values))
  | _ => none

end Update

end VirtualTree
