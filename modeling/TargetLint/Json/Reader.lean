import TargetLint.Json.Token

/-!
# Reading JSON values

Tokens are assembled into a value by a machine with a stack of open containers, so
nesting may be as deep as the text makes it.  A text denotes one value and nothing
after it.
-/

namespace TargetLint
namespace Json

/-- An open container, its parts last first, with the key whose value is being read. -/
inductive Frame where
  | array (items : List Json)
  | object (members : List (Option String × Json)) (key : Option String)
deriving Repr

/-- What may come next; a first item or a first key may be the end of its container instead. -/
inductive Expectation where
  | value
  | firstItem
  | key (members : List (Option String × Json))
  | firstKey
  | colon (members : List (Option String × Json)) (key : Option String)
  | after (value : Json)
deriving Repr

/-- What may come next and the open containers, innermost first. -/
structure Assembly where
  expectation : Expectation
  frames : List Frame
deriving Repr

namespace Assembly

/-- Before the first token. -/
def start : Assembly :=
  ⟨.value, []⟩

/-- The assembly after a token that starts a value. -/
def value? (frames : List Frame) (token : Token) : Option Assembly :=
  match token with
  | .null => some ⟨.after .null, frames⟩
  | .boolean value => some ⟨.after (.boolean value), frames⟩
  | .number value => some ⟨.after (.number value), frames⟩
  | .string text => some ⟨.after (.string text), frames⟩
  | .openArray => some ⟨.firstItem, .array [] :: frames⟩
  | .openObject => some ⟨.firstKey, frames⟩
  | _ => none

/-- The assembly after a token that follows a complete value. -/
def continue? (value : Json) (frames : List Frame) (token : Token) : Option Assembly :=
  match frames, token with
  | .array items :: outer, .comma => some ⟨.value, .array (value :: items) :: outer⟩
  | .array items :: outer, .closeArray =>
      some ⟨.after (.array (value :: items).reverse), outer⟩
  | .object members key :: outer, .comma => some ⟨.key ((key, value) :: members), outer⟩
  | .object members key :: outer, .closeObject =>
      some ⟨.after (.object ((key, value) :: members).reverse), outer⟩
  | _, _ => none

/-- The assembly after one more token. -/
def step? (assembly : Assembly) (token : Token) : Option Assembly :=
  match assembly.expectation with
  | .value => value? assembly.frames token
  | .firstItem =>
      match token, assembly.frames with
      | .closeArray, .array items :: outer => some ⟨.after (.array items.reverse), outer⟩
      | _, _ => value? assembly.frames token
  | .key members =>
      match token with
      | .string text => some ⟨.colon members text, assembly.frames⟩
      | _ => none
  | .firstKey =>
      match token with
      | .string text => some ⟨.colon [] text, assembly.frames⟩
      | .closeObject => some ⟨.after (.object []), assembly.frames⟩
      | _ => none
  | .colon members key =>
      match token with
      | .colon => some ⟨.value, .object members key :: assembly.frames⟩
      | _ => none
  | .after value => continue? value assembly.frames token

/-- The value when the tokens end; absent where a container is open or no value has come. -/
def result? (assembly : Assembly) : Option Json :=
  match assembly.expectation, assembly.frames with
  | .after value, [] => some value
  | _, _ => none

end Assembly

/-- The value that tokens denote. -/
def ofTokens? (tokens : List Token) : Option Json := do
  (← tokens.foldlM Assembly.step? .start).result?

/-- The value that a text denotes; absent where the text is not JSON. -/
def read? (text : String) : Option Json := do
  ofTokens? (← tokens? text.toList)

end Json
end TargetLint
