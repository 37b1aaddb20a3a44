import Cero.Library.Regions

-- A memory of bytes by address, and values that are laid out in it.
def ByteMemory : Type := Nat → UInt8

namespace ByteMemory
variable {m m' : ByteMemory} {base n i : Nat} {bytes : List UInt8}

def read (m : ByteMemory) (base : Nat) : Nat → List UInt8
  | 0 => []
  | n+1 => m base :: read m (base+1) n

def write (m : ByteMemory) (base : Nat) (bytes : List UInt8) : ByteMemory := fun i =>
  if base ≤ i then bytes.getD (i - base) (m i) else m i

def copy (m : ByteMemory) (target source n : Nat) : ByteMemory := m.write target (m.read source n)

theorem read_length : (m.read base n).length = n := by
  induction n generalizing base with
  | zero => rfl
  | succ n ih => rw [read,List.length_cons,ih]

theorem read_add {k : Nat} : m.read base (n + k) = m.read base n ++ m.read (base + n) k := by
  induction n generalizing base with
  | zero => rw [Nat.zero_add,Nat.add_zero,read,List.nil_append]
  | succ n ih =>
    have next : base + 1 + n = base + (n + 1) := by omega
    rw [Nat.succ_add,read,read,ih,List.cons_append,next]

theorem read_congr (same : ∀ i, base ≤ i → i < base + n → m i = m' i) : m.read base n = m'.read base n := by
  induction n generalizing base with
  | zero => rfl
  | succ n ih =>
    have first := same base (Nat.le_refl _) (by omega)
    have others : m.read (base+1) n = m'.read (base+1) n := ih fun i low high => same i (by omega) (by omega)
    rw [read,read,first,others]

theorem read_shorter {k : Nat} (le : k ≤ n) (same : m.read base n = m'.read base n) : m.read base k = m'.read base k := by
  obtain ⟨rest,rfl⟩ := Nat.exists_eq_add_of_le le
  rw [read_add,read_add] at same
  exact (List.append_inj same (by rw [read_length,read_length])).1

theorem write_before (before : i < base) : m.write base bytes i = m i := if_neg (by omega)

theorem write_behind (behind : base + bytes.length ≤ i) : m.write base bytes i = m i := by
  have beyond : bytes.length ≤ i - base := by omega
  rw [write,if_pos (by omega),List.getD_eq_getElem?_getD,List.getElem?_eq_none beyond,Option.getD_none]

theorem write_first {b : UInt8} : m.write base (b :: bytes) base = b := by
  rw [write,if_pos (Nat.le_refl _),Nat.sub_self]
  rfl

theorem write_later {b : UInt8} (later : base < i) : m.write base (b :: bytes) i = m.write (base + 1) bytes i := by
  obtain ⟨k,rfl⟩ := Nat.exists_eq_add_of_lt later
  have left : base + k + 1 - base = k + 1 := by omega
  have right : base + k + 1 - (base + 1) = k := by omega
  rw [write,write,if_pos (by omega),if_pos (by omega),left,right]
  rfl

theorem read_write : (m.write base bytes).read base bytes.length = bytes := by
  induction bytes generalizing base with
  | nil => rfl
  | cons b bytes ih =>
    have others : (m.write base (b :: bytes)).read (base + 1) bytes.length = (m.write (base + 1) bytes).read (base + 1) bytes.length :=
      read_congr fun i low _ => write_later low
    rw [List.length_cons,read,write_first,others,ih]

-- The frame of a write.
theorem read_apart (apart : Region.Apart ⟨base,bytes.length⟩ ⟨i,n⟩) : (m.write base bytes).read i n = m.read i n := by
  refine read_congr fun k low high => ?_
  rcases apart with before | behind
  · exact write_behind (Nat.le_trans before low)
  · exact write_before (Nat.lt_of_lt_of_le high behind)
end ByteMemory

-- The digits of a number to the base 256, the least one first.
def toBytes : (width value : Nat) → List UInt8
  | 0,_ => []
  | width+1,value => UInt8.ofNat (value % 256) :: toBytes width (value / 256)

def ofBytes : List UInt8 → Nat
  | [] => 0
  | b :: rest => b.toNat + 256 * ofBytes rest

theorem toBytes_length {width value : Nat} : (toBytes width value).length = width := by
  induction width generalizing value with
  | zero => rfl
  | succ width ih => rw [toBytes,List.length_cons,ih]

theorem ofBytes_toBytes {width value : Nat} (fits : value < 256 ^ width) : ofBytes (toBytes width value) = value := by
  induction width generalizing value with
  | zero =>
    have zero : value = 0 := by simpa using fits
    rw [zero]
    rfl
  | succ width ih =>
    have digit : (UInt8.ofNat (value % 256)).toNat = value % 256 := by
      rw [UInt8.toNat_ofNat']
      omega
    have rest : value / 256 < 256 ^ width := by
      rw [pow_succ] at fits
      omega
    rw [toBytes,ofBytes,digit,ih rest]
    omega

-- How the values of a type are stored.
structure Layout (α : Type) where
  size : Nat
  alignment : Nat
  encode : α → List UInt8
  decode : List UInt8 → α
  sized : 0 < size
  encoded : ∀ value, (encode value).length = size
  decoded : ∀ value, decode (encode value) = value

namespace Layout
variable {α : Type} {layout : Layout α} {m : ByteMemory} {base : Nat} {values : List α}

-- The values from one address on, one behind the other.
def readAll (layout : Layout α) (m : ByteMemory) (base : Nat) : Nat → List α
  | 0 => []
  | n+1 => layout.decode (m.read base layout.size) :: readAll layout m (base + layout.size) n

def encodeAll (layout : Layout α) (values : List α) : List UInt8 := values.flatMap layout.encode

theorem encodeAll_length : (layout.encodeAll values).length = values.length * layout.size := by
  induction values with
  | nil => exact (Nat.zero_mul _).symm
  | cons value values ih =>
    have both : layout.encodeAll (value :: values) = layout.encode value ++ layout.encodeAll values := rfl
    rw [both,List.length_append,layout.encoded,ih,List.length_cons,Nat.succ_mul,Nat.add_comm]

theorem encodeAll_snoc {value : α} : layout.encodeAll (values ++ [value]) = layout.encodeAll values ++ layout.encode value := by
  rw [encodeAll,encodeAll,List.flatMap_append,List.flatMap_singleton]

theorem readAll_stored (stored : m.read base (values.length * layout.size) = layout.encodeAll values) :
    layout.readAll m base values.length = values := by
  induction values generalizing base with
  | nil => rfl
  | cons value values ih =>
    have both : m.read base layout.size ++ m.read (base + layout.size) (values.length * layout.size) =
        layout.encode value ++ layout.encodeAll values := by
      rw [← ByteMemory.read_add,Nat.add_comm layout.size,← Nat.succ_mul]
      exact stored
    have sizes : (m.read base layout.size).length = (layout.encode value).length := by
      rw [ByteMemory.read_length,layout.encoded]
    obtain ⟨first,others⟩ := List.append_inj both sizes
    rw [List.length_cons,readAll,first,layout.decoded,ih others]
end Layout
