import TargetLint.Json.Token

/-!
# How JSON is written

A JSON text is written token by token, with any white space before, between and after
the tokens.  Each token is written as one of its lexemes: a character of a string may
stand for itself or be escaped in any of the ways there are, and a number has one
decimal form if it is natural.  The tokens of a value are given by `Json.tokens`.
Nothing here says how such a text is read.
-/

namespace TargetLint
namespace Json

/-- The hexadecimal digits of each value, in small letters and in capitals. -/
def hexDigits : List (Char × Char) :=
  [('0', '0'), ('1', '1'), ('2', '2'), ('3', '3'), ('4', '4'), ('5', '5'), ('6', '6'), ('7', '7'),
   ('8', '8'), ('9', '9'), ('a', 'A'), ('b', 'B'), ('c', 'C'), ('d', 'D'), ('e', 'E'), ('f', 'F')]

/-- The character is a hexadecimal digit of the value. -/
def IsHexDigit (c : Char) (value : Nat) : Prop :=
  ∃ forms, hexDigits[value]? = some forms ∧ (c = forms.1 ∨ c = forms.2)

/-- A code as the four hexadecimal digits after `\u`. -/
inductive IsCode : Nat → List Char → Prop where
  | digits
      {c₁ c₂ c₃ c₄ : Char}
      {d₁ d₂ d₃ d₄ : Nat}
      (h₁ : IsHexDigit c₁ d₁)
      (h₂ : IsHexDigit c₂ d₂)
      (h₃ : IsHexDigit c₃ d₃)
      (h₄ : IsHexDigit c₄ d₄) :
      IsCode (d₁ * 0x1000 + d₂ * 0x100 + d₃ * 0x10 + d₄) [c₁, c₂, c₃, c₄]

/-- The letters that may follow a backslash, each with the character that the two stand for. -/
def shortEscapes : List (Char × Char) :=
  [('"', '"'), ('\\', '\\'), ('/', '/'), ('b', '\x08'), ('f', '\x0c'), ('n', '\n'), ('r', '\r'),
   ('t', '\t')]

/-- A character that may stand for itself between quotes. -/
def IsPlain (c : Char) : Prop :=
  c ≠ '"' ∧ c ≠ '\\' ∧ 0x20 ≤ c.toNat

instance : DecidablePred IsPlain := fun c =>
  inferInstanceAs (Decidable (c ≠ '"' ∧ c ≠ '\\' ∧ 0x20 ≤ c.toNat))

/-- The characters between the quotes of a string literal that stands for a text. -/
inductive Spells : List Char → List Char → Prop where
  | nothing : Spells [] []
  | plain
      {c : Char}
      {body text : List Char}
      (hc : IsPlain c)
      (rest : Spells body text) :
      Spells (c :: body) (c :: text)
  | short
      {letter c : Char}
      {body text : List Char}
      (hc : (letter, c) ∈ shortEscapes)
      (rest : Spells body text) :
      Spells ('\\' :: letter :: body) (c :: text)
  | code
      {c : Char}
      {digits body text : List Char}
      (hc : IsCode c.toNat digits)
      (rest : Spells body text) :
      Spells ('\\' :: 'u' :: (digits ++ body)) (c :: text)
  | pair
      {c : Char}
      {high low : Nat}
      {highDigits lowDigits body text : List Char}
      (hhigh : IsCode high highDigits)
      (hlow : IsCode low lowDigits)
      (highRange : 0xD800 ≤ high ∧ high < 0xDC00)
      (lowRange : 0xDC00 ≤ low ∧ low < 0xE000)
      (hc : c.toNat = 0x10000 + (high - 0xD800) * 0x400 + (low - 0xDC00))
      (rest : Spells body text) :
      Spells ('\\' :: 'u' :: (highDigits ++ '\\' :: 'u' :: (lowDigits ++ body))) (c :: text)

/-- The characters between the quotes of any string literal; it need not stand for a text. -/
inductive IsLiteral : List Char → Prop where
  | nothing : IsLiteral []
  | plain
      {c : Char}
      {body : List Char}
      (hc : IsPlain c)
      (rest : IsLiteral body) :
      IsLiteral (c :: body)
  | short
      {letter c : Char}
      {body : List Char}
      (hc : (letter, c) ∈ shortEscapes)
      (rest : IsLiteral body) :
      IsLiteral ('\\' :: letter :: body)
  | code
      {code : Nat}
      {digits body : List Char}
      (hc : IsCode code digits)
      (rest : IsLiteral body) :
      IsLiteral ('\\' :: 'u' :: (digits ++ body))

/-- One or more decimal digits. -/
def IsDigits (chars : List Char) : Prop :=
  chars ≠ [] ∧ ∀ c ∈ chars, '0' ≤ c ∧ c ≤ '9'

/-- A fraction, or nothing. -/
def IsFraction (chars : List Char) : Prop :=
  chars = [] ∨ ∃ digits, IsDigits digits ∧ chars = '.' :: digits

/-- An exponent, or nothing. -/
def IsExponent (chars : List Char) : Prop :=
  chars = [] ∨ ∃ mark ∈ ['e', 'E'], ∃ sign ∈ [[], ['+'], ['-']], ∃ digits,
    IsDigits digits ∧ chars = mark :: (sign ++ digits)

/-- A number written with a sign, a fraction or an exponent. -/
def IsOtherNumber (chars : List Char) : Prop :=
  ∃ sign ∈ [[], ['-']], ∃ value fraction exponent,
    IsFraction fraction ∧ IsExponent exponent ∧
    (sign ≠ [] ∨ fraction ≠ [] ∨ exponent ≠ []) ∧
    chars = sign ++ (Nat.toDigits 10 value ++ (fraction ++ exponent))

/-- The ways in which a token is written. -/
inductive Token.Lexeme : Token → List Char → Prop where
  | openArray : Lexeme .openArray ['[']
  | closeArray : Lexeme .closeArray [']']
  | openObject : Lexeme .openObject ['\x7b']
  | closeObject : Lexeme .closeObject ['\x7d']
  | comma : Lexeme .comma [',']
  | colon : Lexeme .colon [':']
  | null : Lexeme .null ['n', 'u', 'l', 'l']
  | yes : Lexeme (.boolean true) ['t', 'r', 'u', 'e']
  | no : Lexeme (.boolean false) ['f', 'a', 'l', 's', 'e']
  | natural (value : Nat) : Lexeme (.number (.natural value)) (Nat.toDigits 10 value)
  | other
      {chars : List Char}
      (h : IsOtherNumber chars) :
      Lexeme (.number .other) chars
  | text
      {body : List Char}
      {text : String}
      (h : Spells body text.toList) :
      Lexeme (.string (some text)) ('"' :: (body ++ ['"']))
  | noText
      {body : List Char}
      (h : IsLiteral body)
      (hnone : ∀ text, ¬ Spells body text) :
      Lexeme (.string none) ('"' :: (body ++ ['"']))

/-- Characters that may stand between tokens, and nothing else. -/
def IsGap (chars : List Char) : Prop :=
  ∀ c ∈ chars, c ∈ [' ', '\t', '\n', '\r']

instance : DecidablePred IsGap := fun chars =>
  decidable_of_iff (chars.all (· ∈ [' ', '\t', '\n', '\r']) = true) (by simp [IsGap])

/-- Tokens one after the other, with gaps around them. -/
inductive Written : List Token → List Char → Prop where
  | nothing
      {gap : List Char}
      (hgap : IsGap gap) :
      Written [] gap
  | token
      {token : Token}
      {tokens : List Token}
      {gap lexeme chars : List Char}
      (hgap : IsGap gap)
      (hlexeme : token.Lexeme lexeme)
      (rest : Written tokens chars) :
      Written (token :: tokens) (gap ++ (lexeme ++ chars))

mutual

/-- The tokens of a value. -/
def tokens : Json → List Token
  | .null => [.null]
  | .boolean value => [.boolean value]
  | .number value => [.number value]
  | .string text => [.string text]
  | .array items => .openArray :: ([.comma].intercalate (itemTokens items) ++ [.closeArray])
  | .object members =>
      .openObject :: ([.comma].intercalate (memberTokens members) ++ [.closeObject])

/-- The tokens of each item. -/
def itemTokens : List Json → List (List Token)
  | [] => []
  | item :: items => item.tokens :: itemTokens items

/-- The tokens of each member. -/
def memberTokens : List (Option String × Json) → List (List Token)
  | [] => []
  | (key, value) :: members => (.string key :: .colon :: value.tokens) :: memberTokens members

end

/-- The text is a JSON text of the value. -/
def IsWritten (json : Json) (text : String) : Prop :=
  Written json.tokens text.toList

end Json
end TargetLint
