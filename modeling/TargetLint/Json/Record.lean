import TargetLint.Json.Value

/-!
# Reading records from JSON values

A record is written as an object, whose unknown members are passed over and whose
known members occur at most once each, or as an array with the fields in their
order, of which the last may be missing.  Decoders are partial functions on values.
-/

namespace TargetLint
namespace Json

/-- A reader of values. -/
abbrev Decoder (α : Type) :=
  Json → Option α

/-- The known fields that are present, each with its value. -/
abbrev Record :=
  List (String × Json)

/-- The members with their keys as text; absent where a key spells no text. -/
def namedMembers? (members : List (Option String × Json)) : Option (List (String × Json)) :=
  members.mapM fun (key, value) => key.map fun name => (name, value)

/-- The fields of a record with the given field names. -/
def record? (names : List String) : Decoder Record
  | .object members => do
      let named ← namedMembers? members
      let known := named.filter fun member => names.contains member.1
      if (known.map Prod.fst).Nodup then some known else none
  | .array items =>
      if items.length ≤ names.length then some (names.zip items) else none
  | _ => none

/-- A string. -/
def text? : Decoder String
  | .string text => text
  | _ => none

/-- A truth value. -/
def flag? : Decoder Bool
  | .boolean value => some value
  | _ => none

/-- A number written with digits only that fits a 32-bit word. -/
def word? : Decoder UInt32
  | .number (.natural value) =>
      if value < UInt32.size then some (UInt32.ofNat value) else none
  | _ => none

/-- An array whose items all decode. -/
def listOf? {α : Type} (decoder : Decoder α) : Decoder (List α)
  | .array items => items.mapM decoder
  | _ => none

/-- `null`, or what the decoder reads. -/
def nullable? {α : Type} (decoder : Decoder α) : Decoder (Option α)
  | .null => some none
  | value => (decoder value).map some

namespace Record

/-- A field that has to be present. -/
def required? {α : Type} (record : Record) (name : String) (decoder : Decoder α) : Option α :=
  (record.lookup name).bind decoder

/-- A field that has a default where it is missing. -/
def optional?
    {α : Type}
    (record : Record)
    (name : String)
    (decoder : Decoder α)
    (default : α) :
    Option α :=
  match record.lookup name with
  | some value => decoder value
  | none => some default

end Record
end Json
end TargetLint
