import Mathlib.Data.List.Chain
import Cero.Library.Search
import Cero.Source
import Cero.UnicodeTables

namespace Cero

def isAscii (c : UInt8) : Bool := c >>> 7 == 0

def isAsciiIdentifierChar (c : UInt8) : Bool :=
  (ch 'a' ≤ c && c ≤ ch 'z') || (ch 'A' ≤ c && c ≤ ch 'Z') || (ch '0' ≤ c && c ≤ ch '9') || c == ch '_'

def isAsciiWhitespace (c : UInt8) : Bool := c == ch ' ' || (ch '\t' ≤ c && c ≤ ch '\r')

def isDecimalDigit (c : UInt8) : Bool := ch '0' ≤ c && c ≤ ch '9'

def isHexadecimalDigit (c : UInt8) : Bool :=
  (ch '0' ≤ c && c ≤ ch '9') || (ch 'a' ≤ c && c ≤ ch 'f') || (ch 'A' ≤ c && c ≤ ch 'F')

-- `std::countl_one`
def countlOne (b : UInt8) : Nat := ([7,6,5,4,3,2,1,0].takeWhile b.toNat.testBit).length

def lengths : List Nat :=
  [1,1,1,1,1,1,1,1,1,1,1,1,1,1,1,1,0,0,0,0,0,0,0,0,2,2,2,2,3,3,4,0]
def masks : List Nat := [0x00,0x7f,0x1f,0x0f,0x07]
def shifts : List Nat := [0,18,12,6,0]

-- Byte `i` of the packed character, on a little-endian machine.
def byteOf (utf8Char i : Nat) : Nat := utf8Char >>> (8 * i) &&& 0xff

-- Packed characters and scalars are 32-bit words in the source; nothing that is
-- computed from one leaves 32 bits.
def utf8CharToUnicodeScalar (utf8Char : Nat) : Nat :=
  let length := lengths.getD (byteOf utf8Char 0 >>> 3) 0
  let codePoint := (byteOf utf8Char 0 &&& masks.getD length 0) <<< 18
  let codePoint := codePoint ||| (byteOf utf8Char 1 &&& 0x3f) <<< 12
  let codePoint := codePoint ||| (byteOf utf8Char 2 &&& 0x3f) <<< 6
  let codePoint := codePoint ||| (byteOf utf8Char 3 &&& 0x3f)
  codePoint >>> shifts.getD length 0

-- `operator<=>` of a range of the tables.
def compareRange (range : Nat × Nat) (unicodeScalar : Nat) : Ordering :=
  if range.1 > unicodeScalar then .gt else if range.2 < unicodeScalar then .lt else .eq

def searchTable (table : List (Nat × Nat)) (utf8Char : Nat) : Bool :=
  Search.binarySearch (fun range => compareRange range (utf8CharToUnicodeScalar utf8Char)) table

def isUtf8XidStartChar (utf8Char : Nat) : Bool := searchTable xidStartTable utf8Char
def isUtf8XidContinueChar (utf8Char : Nat) : Bool := searchTable xidContinueTable utf8Char

-- The scalar lies in a range of the table.
def InTable (table : List (Nat × Nat)) (scalar : Nat) : Prop := ∃ range ∈ table, range.1 ≤ scalar ∧ scalar ≤ range.2

def Below (r s : Nat × Nat) : Prop := r.1 ≤ r.2 ∧ r.2 < s.1 ∧ s.1 ≤ s.2

instance : Trans Below Below Below := ⟨fun first second => ⟨first.1,by have := second.2.1; have := first.2.1; have := second.1; omega,second.2.2⟩⟩
instance (r s : Nat × Nat) : Decidable (Below r s) := inferInstanceAs (Decidable (_ ∧ _))

theorem compareRange_equal {range : Nat × Nat} {scalar : Nat} :
    compareRange range scalar = .eq ↔ range.1 ≤ scalar ∧ scalar ≤ range.2 := by
  unfold compareRange
  split
  · exact iff_of_false (by simp) (by omega)
  · split
    · exact iff_of_false (by simp) (by omega)
    · exact iff_of_true rfl (by omega)

theorem compareRange_greater {range : Nat × Nat} {scalar : Nat} (above : scalar < range.1) : compareRange range scalar = .gt :=
  if_pos above

-- Sorted ranges that are apart are partitioned by every scalar.
theorem table_partitioned {table : List (Nat × Nat)} (sorted : table.Pairwise Below) (scalar : Nat) :
    Search.Partitioned (fun range => compareRange range scalar) table := by
  induction table with
  | nil => exact ⟨[],[],[],.nil⟩
  | cons head rest ih =>
      obtain ⟨order,others⟩ := List.pairwise_cons.mp sorted
      cases found : compareRange head scalar with
      | lt =>
          obtain ⟨less,equal,greater,parts⟩ := ih others
          exact ⟨head :: less,equal,greater,parts.cons found⟩
      | eq =>
          have inside := compareRange_equal.mp found
          have above : ∀ range ∈ rest, compareRange range scalar = .gt := fun range member =>
            compareRange_greater (Nat.lt_of_le_of_lt inside.2 (order range member).2.1)
          exact ⟨[],[head],rest,rfl,by simp,by simpa using found,above⟩
      | gt =>
          have start : scalar < head.1 := by
            by_contra notBelow
            unfold compareRange at found
            rw [if_neg notBelow] at found
            split at found <;> cases found
          have above : ∀ range ∈ rest, compareRange range scalar = .gt := fun range member =>
            compareRange_greater (Nat.lt_of_lt_of_le start (Nat.le_trans (order range member).1 (Nat.le_of_lt (order range member).2.1)))
          exact ⟨[],[],head :: rest,rfl,by simp,by simp,List.forall_mem_cons.mpr ⟨found,above⟩⟩

theorem inTable_equal {table : List (Nat × Nat)} {scalar : Nat} :
    InTable table scalar ↔ ∃ range ∈ table, compareRange range scalar = .eq := by
  unfold InTable
  simp only [compareRange_equal]

theorem searchTable_iff {table : List (Nat × Nat)} (sorted : table.Pairwise Below) (utf8Char : Nat) :
    searchTable table utf8Char = true ↔ InTable table (utf8CharToUnicodeScalar utf8Char) := by
  rw [inTable_equal]
  exact Search.binarySearch_finds _ _ (table_partitioned sorted _)

theorem xidStartTable_sorted : xidStartTable.Pairwise Below :=
  List.isChain_iff_pairwise.mp (by decide +kernel)

theorem xidContinueTable_sorted : xidContinueTable.Pairwise Below :=
  List.isChain_iff_pairwise.mp (by decide +kernel)
end Cero
