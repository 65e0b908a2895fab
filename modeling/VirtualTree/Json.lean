/-!
# JSON values

The values that the transferable form of updates is made of.  The fields of an object are a list, of
which the first entry with a name counts.
-/

namespace VirtualTree

/-- A JSON value without fractions. -/
inductive Json where
  | null
  | boolean (value : Bool)
  | number (value : Int)
  | string (value : String)
  | array (elements : List Json)
  | object (fields : List (String × Json))
deriving Inhabited

namespace Json

/-- The value of a field. -/
def field? (name : String) (fields : List (String × Json)) : Option Json := fields.lookup name

/-- The text that a value is. -/
def string? : Json → Option String
  | .string value => some value
  | _ => none

/-- The list that a value is, with every element read by `read`. -/
def array? {α : Type} (read : Json → Option α) : Json → Option (List α)
  | .array elements => elements.mapM read
  | _ => none

/-- An optional field: an absent field and `null` are the same. -/
def optional? {α : Type} (read : Json → Option α) : Option Json → Option (Option α)
  | none => some none
  | some .null => some none
  | some value => (read value).map some

/-- An optional value: `null` if it is absent. -/
def ofOption {α : Type} (write : α → Json) : Option α → Json
  | none => .null
  | some value => write value

/-- The fields that a value has.  Besides an object, an array of exactly as many elements as there
are names is read, as the values of the names in order. -/
def fields? (names : List String) : Json → Option (List (String × Json))
  | .object fields => some fields
  | .array elements => if elements.length = names.length then some (names.zip elements) else none
  | _ => none

end Json

end VirtualTree
