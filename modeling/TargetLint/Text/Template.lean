/-!
# Templates

A template is a text with references to variables, a dollar sign and a name in
braces.  A name runs to the first closing brace.  A reference that is not closed is
text, and so is everything after it.
-/

namespace TargetLint
namespace Text

/-- A part of a template. -/
inductive TemplatePart where
  | plain (c : Char)
  | variable (name : List Char)
deriving DecidableEq, Repr

namespace TemplatePart

mutual

/-- The parts of a text outside of references. -/
def outside : List Char → List TemplatePart
  | [] => []
  | '$' :: '\x7b' :: rest => inside [] rest
  | c :: rest => plain c :: outside rest

/-- The parts of a text inside a reference; `name` is the name so far, last first. -/
def inside (name : List Char) : List Char → List TemplatePart
  | [] => plain '$' :: plain '\x7b' :: name.reverse.map plain
  | '\x7d' :: rest => .variable name.reverse :: outside rest
  | c :: rest => inside (c :: name) rest

end

/-- What a part stands for; a variable without a value or without a name stands for nothing. -/
def expand (environment : String → Option String) : TemplatePart → List Char
  | plain c => [c]
  | .variable [] => []
  | .variable name => ((environment (String.ofList name)).getD "").toList

end TemplatePart

/-- The parts of a text. -/
def templateParts (text : String) : List TemplatePart :=
  TemplatePart.outside text.toList

/-- The names that a text refers to, in their order. -/
def references (text : String) : List String :=
  (templateParts text).filterMap fun
    | .plain _ => none
    | .variable [] => none
    | .variable name => some (String.ofList name)

/-- The text with every reference replaced by the value of its variable. -/
def expand (environment : String → Option String) (text : String) : String :=
  String.ofList ((templateParts text).flatMap (TemplatePart.expand environment))

end Text
end TargetLint
