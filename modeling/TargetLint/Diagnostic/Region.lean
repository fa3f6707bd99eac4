/-!
# Regions of a text

Positions count lines and columns from zero in 32-bit words.  The compiler counts
from one and so does what is printed.  Positions are ordered by line, then column;
regions by their start, then their end.
-/

namespace TargetLint

/-- A place in a text, counted from zero. -/
structure Position where
  line : UInt32
  column : UInt32
deriving DecidableEq, Repr, Inhabited

namespace Position

/-- Lines first, then columns. -/
def compare (a b : Position) : Ordering :=
  (Ord.compare a.line b.line).then (Ord.compare a.column b.column)

/-- What counts from one counted from zero; zero stays zero. -/
def indexOfOrdinal (n : UInt32) : UInt32 :=
  if n = 0 then 0 else n - 1

/-- The position of a line and a column that count from one. -/
def ofOrdinals (line column : UInt32) : Position :=
  ⟨indexOfOrdinal line, indexOfOrdinal column⟩

/-- Line and column counted from one.  The addition is that of 32-bit words. -/
def display (position : Position) : String :=
  s!"{position.line + 1}:{position.column + 1}"

end Position

/-- The stretch of a text from `start` up to but not including `stop`. -/
structure Region where
  start : Position
  stop : Position
deriving DecidableEq, Repr, Inhabited

namespace Region

/-- The region of a diagnostic that has no place in its file. -/
def origin : Region :=
  ⟨⟨0, 0⟩, ⟨0, 0⟩⟩

/-- The region between two positions that count from one. -/
def ofOrdinals (startLine startColumn stopLine stopColumn : UInt32) : Region :=
  ⟨.ofOrdinals startLine startColumn, .ofOrdinals stopLine stopColumn⟩

/-- Starts first, then ends. -/
def compare (a b : Region) : Ordering :=
  (a.start.compare b.start).then (a.stop.compare b.stop)

/-- `a` does not come after `b`. -/
def le (a b : Region) : Bool :=
  (a.compare b).isLE

/-- The one of two regions that comes first. -/
def earlier (a b : Region) : Region :=
  if a.le b then a else b

/-- Where the region starts, counted from one. -/
def display (region : Region) : String :=
  region.start.display

end Region
end TargetLint
