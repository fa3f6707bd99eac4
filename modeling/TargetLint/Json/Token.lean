import TargetLint.Json.Value

/-!
# JSON tokens

A scanner that takes one character at a time turns a text into tokens.  Between
tokens stand space, tab, newline and carriage return and nothing else.  A token
that has no closing mark, a number, ends before the first character that cannot
continue it; that character is then looked at anew.
-/

namespace TargetLint
namespace Json

/-- The smallest meaningful part of a JSON text. -/
inductive Token where
  | openArray
  | closeArray
  | openObject
  | closeObject
  | comma
  | colon
  | null
  | boolean (value : Bool)
  | number (value : Number)
  | string (text : Option String)
deriving DecidableEq, Repr

/-- The part of a number that the scanner has read last. -/
inductive NumberPart where
  | sign
  | zero (negative : Bool)
  | whole (negative : Bool) (value : Nat)
  | point
  | fraction
  | exponentMark
  | exponentSign
  | exponent
deriving DecidableEq, Repr

/-- The value of a decimal digit. -/
def digitValue? (c : Char) : Option Nat :=
  if '0' ≤ c ∧ c ≤ '9' then some (c.toNat - '0'.toNat) else none

/-- The part that a first character starts. -/
def NumberPart.start? (c : Char) : Option NumberPart :=
  if c = '-' then
    some .sign
  else if c = '0' then
    some (.zero false)
  else
    (digitValue? c).map (.whole false)

/-- The part that starts an exponent. -/
def NumberPart.exponent? (c : Char) : Option NumberPart :=
  if c = 'e' ∨ c = 'E' then some .exponentMark else none

/-- The part that may follow the digits before the point. -/
def NumberPart.afterWhole? (c : Char) : Option NumberPart :=
  if c = '.' then some .point else exponent? c

/-- The part after one more character; absent where the character does not belong to the number. -/
def NumberPart.next? (part : NumberPart) (c : Char) : Option NumberPart :=
  match part with
  | .sign => if c = '0' then some (.zero true) else (digitValue? c).map (.whole true)
  | .zero _ => afterWhole? c
  | .whole negative value =>
      match digitValue? c with
      | some digit => some (.whole negative (value * 10 + digit))
      | none => afterWhole? c
  | .point => (digitValue? c).map fun _ => .fraction
  | .fraction =>
      if (digitValue? c).isSome then some .fraction else exponent? c
  | .exponentMark =>
      if c = '+' ∨ c = '-' then some .exponentSign else (digitValue? c).map fun _ => .exponent
  | .exponentSign => (digitValue? c).map fun _ => .exponent
  | .exponent => (digitValue? c).map fun _ => .exponent

/-- The number that may end at this part, if one may. -/
def NumberPart.number? : NumberPart → Option Number
  | .zero false => some (.natural 0)
  | .whole false value => some (.natural value)
  | .zero true | .whole true _ | .fraction | .exponent => some .other
  | .sign | .point | .exponentMark | .exponentSign => none

/-- What one escape or one character contributes: a character, or half of one beyond 16 bits. -/
inductive CodeUnit where
  | plain (c : Char)
  | surrogate (code : Nat)
deriving DecidableEq, Repr

/-- The unit that four hexadecimal digits denote. -/
def CodeUnit.ofCode (code : Nat) : CodeUnit :=
  if 0xD800 ≤ code ∧ code < 0xE000 then .surrogate code else .plain (Char.ofNat code)

/-- The text of code units; absent where a surrogate has no partner. -/
def CodeUnit.text? : List CodeUnit → Option (List Char)
  | [] => some []
  | .plain c :: rest => (text? rest).map (c :: ·)
  | .surrogate high :: .surrogate low :: rest =>
      if high < 0xDC00 ∧ 0xDC00 ≤ low then
        (text? rest).map (Char.ofNat (0x10000 + (high - 0xD800) * 0x400 + (low - 0xDC00)) :: ·)
      else
        none
  | .surrogate _ :: _ => none

/-- The character that a backslash and a letter stand for. -/
def escapedChar? (c : Char) : Option Char :=
  match c with
  | '"' => some '"'
  | '\\' => some '\\'
  | '/' => some '/'
  | 'b' => some '\x08'
  | 'f' => some '\x0c'
  | 'n' => some '\n'
  | 'r' => some '\r'
  | 't' => some '\t'
  | _ => none

/-- The value of a hexadecimal digit. -/
def hexValue? (c : Char) : Option Nat :=
  if 'a' ≤ c ∧ c ≤ 'f' then
    some (c.toNat - 'a'.toNat + 10)
  else if 'A' ≤ c ∧ c ≤ 'F' then
    some (c.toNat - 'A'.toNat + 10)
  else
    digitValue? c

/--
What the scanner is in the middle of: a word that denotes a token once the expected characters have
come, a number, or a string, perhaps after a backslash or some digits of a code.  Units are kept
last first.
-/
inductive Scan where
  | between
  | word (expected : Char) (others : List Char) (token : Token)
  | number (part : NumberPart)
  | string (units : List CodeUnit)
  | escape (units : List CodeUnit)
  | hex (units : List CodeUnit) (count value : Nat)
deriving DecidableEq, Repr

/-- Characters that may stand between tokens. -/
def isSpace (c : Char) : Bool :=
  c = ' ' || c = '\t' || c = '\n' || c = '\r'

/-- The scanner after a character that does not continue a token, and the tokens then complete. -/
def Scan.begin? (c : Char) : Option (Scan × List Token) :=
  if isSpace c then
    some (.between, [])
  else
    match c with
    | '[' => some (.between, [.openArray])
    | ']' => some (.between, [.closeArray])
    | '\x7b' => some (.between, [.openObject])
    | '\x7d' => some (.between, [.closeObject])
    | ',' => some (.between, [.comma])
    | ':' => some (.between, [.colon])
    | '"' => some (.string [], [])
    | 'n' => some (.word 'u' ['l', 'l'] .null, [])
    | 't' => some (.word 'r' ['u', 'e'] (.boolean true), [])
    | 'f' => some (.word 'a' ['l', 's', 'e'] (.boolean false), [])
    | _ => (NumberPart.start? c).map fun part => (.number part, [])

/-- The scanner after one more character, and the tokens then complete. -/
def Scan.step? (scan : Scan) (c : Char) : Option (Scan × List Token) :=
  match scan with
  | .between => begin? c
  | .word expected others token =>
      if c = expected then
        match others with
        | [] => some (.between, [token])
        | next :: rest => some (.word next rest token, [])
      else
        none
  | .number part =>
      match part.next? c with
      | some next => some (.number next, [])
      | none => do
          let value ← part.number?
          let (next, tokens) ← begin? c
          return (next, .number value :: tokens)
  | .string units =>
      if c = '"' then
        some (.between, [.string ((CodeUnit.text? units.reverse).map String.ofList)])
      else if c = '\\' then
        some (.escape units, [])
      else if c.toNat < 0x20 then
        none
      else
        some (.string (.plain c :: units), [])
  | .escape units =>
      if c = 'u' then
        some (.hex units 0 0, [])
      else
        (escapedChar? c).map fun plain => (.string (.plain plain :: units), [])
  | .hex units count value => do
      let code := value * 16 + (← hexValue? c)
      if count = 3 then
        return (.string (.ofCode code :: units), [])
      else
        return (.hex units (count + 1) code, [])

/-- The tokens that are complete when the text ends; absent in the middle of a token. -/
def Scan.finish? : Scan → Option (List Token)
  | .between => some []
  | .number part => part.number?.map fun value => [.number value]
  | _ => none

/-- The scanner after a character, with all tokens so far, last first. -/
def Scan.advance? (state : Scan × List Token) (c : Char) : Option (Scan × List Token) :=
  (state.1.step? c).map fun (scan, tokens) => (scan, tokens.reverse ++ state.2)

/-- The tokens of a text; absent where a character belongs to no token. -/
def tokens? (chars : List Char) : Option (List Token) := do
  let (scan, done) ← chars.foldlM Scan.advance? (.between, [])
  let rest ← scan.finish?
  return done.reverse ++ rest

end Json
end TargetLint
