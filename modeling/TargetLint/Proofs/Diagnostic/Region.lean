import TargetLint.StreamReport

/-!
# Regions of spans

What counts from one is kept counted from zero, and is counted from one again when it is shown.  A
region that has room shows the same numbers that unbounded arithmetic would show.  All regions that
come from spans have room, whatever the span holds, and so has the region of a diagnostic without a
place.  The order of regions is that of their spans, as long as these count from one.
-/

namespace TargetLint

namespace Position

/-- One more than the line and one more than the column are still words. -/
structure HasRoom (position : Position) : Prop where
  line : position.line.toNat ≤ UInt32.size - 2
  column : position.column.toNat ≤ UInt32.size - 2

/-- Line and column counted from one, without a bound. -/
def ordinals (position : Position) : String :=
  s!"{position.line.toNat + 1}:{position.column.toNat + 1}"

theorem toNat_indexOfOrdinal (n : UInt32) : (indexOfOrdinal n).toNat = n.toNat - 1 := by
  rw [indexOfOrdinal]
  split
  · rename_i hzero
    rw [hzero]
    rfl
  · rename_i hne
    have hle : 1 ≤ n := by
      rw [UInt32.le_iff_toNat_le]
      exact Nat.one_le_iff_ne_zero.2 fun hzero => hne (UInt32.toNat_inj.1 hzero)
    rw [UInt32.toNat_sub_of_le _ _ hle]
    rfl

theorem toNat_indexOfOrdinal_le (n : UInt32) :
    (indexOfOrdinal n).toNat ≤ UInt32.size - 2 := by
  have hlt : n.toNat < UInt32.size := n.toNat_lt_size
  rw [toNat_indexOfOrdinal]
  omega

theorem hasRoom_ofOrdinals (line column : UInt32) : (ofOrdinals line column).HasRoom :=
  ⟨toNat_indexOfOrdinal_le line, toNat_indexOfOrdinal_le column⟩

theorem toString_add_one
    {n : UInt32}
    (h : n.toNat ≤ UInt32.size - 2) :
    toString (n + 1) = toString (n.toNat + 1) := by
  have hlt : n.toNat + 1 < UInt32.size := by
    have hsize : 2 ≤ UInt32.size := by decide
    omega
  have hsum : (n + 1).toNat = n.toNat + 1 := by
    rw [UInt32.toNat_add]
    exact Nat.mod_eq_of_lt hlt
  rw [← hsum]
  rfl

/-- Where there is room, what is shown is exact. -/
theorem HasRoom.display_eq
    {position : Position}
    (h : position.HasRoom) :
    position.display = position.ordinals := by
  rw [display, ordinals, toString_add_one h.line, toString_add_one h.column]

/-- Without room, the last line is shown as line zero. -/
example : (Position.mk 4294967295 0).display = "0:1" := by decide

/-- What counts from one is shown as it was; zero is shown as one. -/
theorem display_ofOrdinals (line column : UInt32) :
    (ofOrdinals line column).display = s!"{max 1 line.toNat}:{max 1 column.toNat}" := by
  have hmax : ∀ n : Nat, n - 1 + 1 = max 1 n := by omega
  rw [(hasRoom_ofOrdinals line column).display_eq, ordinals, ofOrdinals, toNat_indexOfOrdinal,
    toNat_indexOfOrdinal, hmax, hmax]

theorem compare_indexOfOrdinal
    {m n : UInt32}
    (hm : 1 ≤ m)
    (hn : 1 ≤ n) :
    Ord.compare (indexOfOrdinal m) (indexOfOrdinal n) = Ord.compare m n := by
  rw [UInt32.le_iff_toNat_le, UInt32.toNat_one] at hm hn
  have hlt : indexOfOrdinal m < indexOfOrdinal n ↔ m < n := by
    rw [UInt32.lt_iff_toNat_lt, UInt32.lt_iff_toNat_lt, toNat_indexOfOrdinal, toNat_indexOfOrdinal]
    omega
  have heq : indexOfOrdinal m = indexOfOrdinal n ↔ m = n := by
    rw [← UInt32.toNat_inj, ← UInt32.toNat_inj, toNat_indexOfOrdinal, toNat_indexOfOrdinal]
    omega
  simp only [Ord.compare, compareOfLessAndEq, hlt, heq]

end Position

namespace Region

/-- Both ends have room. -/
structure HasRoom (region : Region) : Prop where
  start : region.start.HasRoom
  stop : region.stop.HasRoom

/-- Where the region starts, counted from one without a bound. -/
def ordinals (region : Region) : String :=
  region.start.ordinals

theorem HasRoom.display_eq
    {region : Region}
    (h : region.HasRoom) :
    region.display = region.ordinals :=
  h.start.display_eq

theorem hasRoom_ofOrdinals (startLine startColumn stopLine stopColumn : UInt32) :
    (ofOrdinals startLine startColumn stopLine stopColumn).HasRoom :=
  ⟨Position.hasRoom_ofOrdinals startLine startColumn,
    Position.hasRoom_ofOrdinals stopLine stopColumn⟩

theorem hasRoom_origin : origin.HasRoom :=
  hasRoom_ofOrdinals 0 0 0 0

theorem display_origin : origin.display = "1:1" :=
  Position.display_ofOrdinals 0 0

end Region

namespace Message.Span

/-- Lines and columns are counted from one, as the compiler counts them. -/
structure CountsFromOne (span : Span) : Prop where
  lineStart : 1 ≤ span.lineStart
  columnStart : 1 ≤ span.columnStart
  lineEnd : 1 ≤ span.lineEnd
  columnEnd : 1 ≤ span.columnEnd

/-- By the line of the start, its column, the line of the end and its column. -/
def compare (a b : Span) : Ordering :=
  (Ord.compare a.lineStart b.lineStart).then <|
    (Ord.compare a.columnStart b.columnStart).then <|
      (Ord.compare a.lineEnd b.lineEnd).then <|
        Ord.compare a.columnEnd b.columnEnd

theorem compare_region
    {a b : Span}
    (ha : a.CountsFromOne)
    (hb : b.CountsFromOne) :
    a.region.compare b.region = a.compare b := by
  rw [Region.compare, Position.compare, Position.compare, region, region, Region.ofOrdinals,
    Region.ofOrdinals, Position.ofOrdinals, Position.ofOrdinals, Position.ofOrdinals,
    Position.ofOrdinals, Position.compare_indexOfOrdinal ha.lineStart hb.lineStart,
    Position.compare_indexOfOrdinal ha.columnStart hb.columnStart,
    Position.compare_indexOfOrdinal ha.lineEnd hb.lineEnd,
    Position.compare_indexOfOrdinal ha.columnEnd hb.columnEnd, Ordering.then_assoc, compare]

end Message.Span

end TargetLint
