/-!
# How a text starts and ends
-/

namespace TargetLint
namespace Text

/-- The text starts with `start`. -/
def startsWith (text start : String) : Bool :=
  start.toList.isPrefixOf text.toList

/-- The text ends with `finish`. -/
def endsWith (text finish : String) : Bool :=
  finish.toList.isSuffixOf text.toList

end Text
end TargetLint
