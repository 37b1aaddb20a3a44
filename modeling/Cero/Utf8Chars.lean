import Cero.Unicode

-- The scalar of a character is what the lexer reads from its UTF-8 bytes.
namespace Cero

-- The word that the bytes from index `i` on are packed into.
def packed : (utf8Char i : Nat) → Bytes → Nat
  | utf8Char,_,[] => utf8Char
  | utf8Char,i,b :: rest => packed (utf8Char ||| b.toNat <<< (i*8)) (i+1) rest

theorem or_shift {a b k : Nat} (small : a < 2 ^ k) : a ||| b <<< k = a + b * 2 ^ k := by
  rw [Nat.or_comm,← Nat.shiftLeft_add_eq_or_of_lt small,Nat.shiftLeft_eq,Nat.add_comm]

theorem or_two {b₀ b₁ : Nat} (h₀ : b₀ < 256) : b₀ ||| b₁ <<< (1*8) = b₀ + b₁ * 256 := or_shift h₀

theorem or_three {b₀ b₁ b₂ : Nat} (h₀ : b₀ < 256) (h₁ : b₁ < 256) :
    b₀ ||| b₁ <<< (1*8) ||| b₂ <<< ((1+1)*8) = b₀ + b₁ * 256 + b₂ * 65536 := by
  have small : b₀ + b₁ * 256 < 2 ^ ((1+1)*8) := by omega
  rw [or_two h₀]
  exact or_shift small

theorem or_four {b₀ b₁ b₂ b₃ : Nat} (h₀ : b₀ < 256) (h₁ : b₁ < 256) (h₂ : b₂ < 256) :
    b₀ ||| b₁ <<< (1*8) ||| b₂ <<< ((1+1)*8) ||| b₃ <<< ((1+1+1)*8) = b₀ + b₁ * 256 + b₂ * 65536 + b₃ * 16777216 := by
  have small : b₀ + b₁ * 256 + b₂ * 65536 < 2 ^ ((1+1+1)*8) := by omega
  rw [or_three h₀ h₁]
  exact or_shift small

theorem shift_or {a b k : Nat} (small : b < 2 ^ k) : a <<< k ||| b = a * 2 ^ k + b := by
  rw [← Nat.shiftLeft_add_eq_or_of_lt small,Nat.shiftLeft_eq]

theorem byteOf_div (n i : Nat) : byteOf n i = n / 2 ^ (8 * i) % 256 := by
  rw [byteOf,Nat.shiftRight_eq_div_pow]
  exact Nat.and_two_pow_sub_one_eq_mod _ 8

theorem and_sixBits (n : Nat) : n &&& 0x3f = n % 64 := Nat.and_two_pow_sub_one_eq_mod n 6

theorem byteOf_word {b₀ b₁ b₂ b₃ : Nat} (h₀ : b₀ < 256) (h₁ : b₁ < 256) (h₂ : b₂ < 256) (h₃ : b₃ < 256) :
    byteOf (b₀ + b₁ * 256 + b₂ * 65536 + b₃ * 16777216) 0 = b₀ ∧ byteOf (b₀ + b₁ * 256 + b₂ * 65536 + b₃ * 16777216) 1 = b₁ ∧
      byteOf (b₀ + b₁ * 256 + b₂ * 65536 + b₃ * 16777216) 2 = b₂ ∧
      byteOf (b₀ + b₁ * 256 + b₂ * 65536 + b₃ * 16777216) 3 = b₃ := by
  simp only [byteOf_div]
  omega

theorem scalar_word {b₀ b₁ b₂ b₃ : Nat} (h₀ : b₀ < 256) (h₁ : b₁ < 256) (h₂ : b₂ < 256) (h₃ : b₃ < 256) :
    utf8CharToUnicodeScalar (b₀ + b₁ * 256 + b₂ * 65536 + b₃ * 16777216) =
      ((b₀ &&& masks.getD (lengths.getD (b₀ / 8) 0) 0) * 2 ^ 18 + (b₁ % 64 * 2 ^ 12 + (b₂ % 64 * 2 ^ 6 + b₃ % 64))) /
        2 ^ shifts.getD (lengths.getD (b₀ / 8) 0) 0 := by
  obtain ⟨e₀,e₁,e₂,e₃⟩ := byteOf_word h₀ h₁ h₂ h₃
  have low : b₃ % 64 < 2 ^ 6 := Nat.mod_lt _ (by decide)
  have middle : b₂ % 64 < 2 ^ 6 := Nat.mod_lt _ (by decide)
  have high : b₁ % 64 < 2 ^ 6 := Nat.mod_lt _ (by decide)
  simp only [utf8CharToUnicodeScalar,e₀,e₁,e₂,e₃,and_sixBits]
  rw [show b₀ >>> 3 = b₀ / 8 from Nat.shiftRight_eq_div_pow b₀ 3,Nat.shiftRight_eq_div_pow]
  congr 1
  rw [Nat.or_assoc,Nat.or_assoc,shift_or low,shift_or (show b₂ % 64 * 2 ^ 6 + b₃ % 64 < 2 ^ 12 by omega),
    shift_or (show b₁ % 64 * 2 ^ 12 + (b₂ % 64 * 2 ^ 6 + b₃ % 64) < 2 ^ 18 by omega)]

theorem lead_two : ∀ n < 256, 0xc0 ≤ n → n < 0xe0 →
    lengths.getD (n / 8) 0 = 2 ∧ n &&& 0x1f = n - 0xc0 ∧ countlOne (UInt8.ofNat n) = 2 := by decide +kernel
theorem lead_three : ∀ n < 256, 0xe0 ≤ n → n < 0xf0 →
    lengths.getD (n / 8) 0 = 3 ∧ n &&& 0x0f = n - 0xe0 ∧ countlOne (UInt8.ofNat n) = 3 := by decide +kernel
theorem lead_four : ∀ n < 256, 0xf0 ≤ n → n < 0xf8 →
    lengths.getD (n / 8) 0 = 4 ∧ n &&& 0x07 = n - 0xf0 ∧ countlOne (UInt8.ofNat n) = 4 := by decide +kernel

-- What the bytes of a character that is not ASCII look like to the lexer.
structure Encoded (c : Char) (lead : UInt8) (more : Bytes) : Prop where
  bytes : String.utf8EncodeChar c = lead :: more
  ones : countlOne lead = more.length + 1
  several : 2 ≤ more.length + 1 ∧ more.length + 1 ≤ 4
  high : isAscii lead = false
  nonzero : ∀ b ∈ more, b ≠ 0
  scalar : utf8CharToUnicodeScalar (packed lead.toNat 1 more) = c.toNat

theorem ofNat_toNat {n : Nat} (small : n < 256) : (UInt8.ofNat n).toNat = n := by
  simpa using Nat.mod_eq_of_lt small

theorem high_byte : ∀ n < 256, 0x80 ≤ n → isAscii (UInt8.ofNat n) = false ∧ UInt8.ofNat n ≠ 0 := by decide +kernel

theorem scalar_two {b₀ b₁ : Nat} (low : 0xc0 ≤ b₀) (lead : b₀ < 0xe0) (h₁ : b₁ < 256) :
    utf8CharToUnicodeScalar (b₀ + b₁ * 256) = (b₀ - 0xc0) * 64 + b₁ % 64 := by
  obtain ⟨length,mask,_⟩ := lead_two b₀ (by omega) low lead
  have word := scalar_word (show b₀ < 256 by omega) h₁ (show 0 < 256 by decide) (show 0 < 256 by decide)
  rw [length,show masks.getD 2 0 = 0x1f from rfl,show shifts.getD 2 0 = 12 from rfl,mask] at word
  simp only [Nat.zero_mul,Nat.add_zero,Nat.zero_mod] at word
  rw [word]
  omega

theorem scalar_three {b₀ b₁ b₂ : Nat} (low : 0xe0 ≤ b₀) (lead : b₀ < 0xf0) (h₁ : b₁ < 256) (h₂ : b₂ < 256) :
    utf8CharToUnicodeScalar (b₀ + b₁ * 256 + b₂ * 65536) = (b₀ - 0xe0) * 4096 + b₁ % 64 * 64 + b₂ % 64 := by
  obtain ⟨length,mask,_⟩ := lead_three b₀ (by omega) low lead
  have word := scalar_word (show b₀ < 256 by omega) h₁ h₂ (show 0 < 256 by decide)
  rw [length,show masks.getD 3 0 = 0x0f from rfl,show shifts.getD 3 0 = 6 from rfl,mask] at word
  simp only [Nat.zero_mul,Nat.add_zero,Nat.zero_mod] at word
  rw [word]
  omega

theorem scalar_four {b₀ b₁ b₂ b₃ : Nat} (low : 0xf0 ≤ b₀) (lead : b₀ < 0xf8) (h₁ : b₁ < 256) (h₂ : b₂ < 256)
    (h₃ : b₃ < 256) : utf8CharToUnicodeScalar (b₀ + b₁ * 256 + b₂ * 65536 + b₃ * 16777216) =
      (b₀ - 0xf0) * 262144 + b₁ % 64 * 4096 + b₂ % 64 * 64 + b₃ % 64 := by
  obtain ⟨length,mask,_⟩ := lead_four b₀ (by omega) low lead
  have word := scalar_word (show b₀ < 256 by omega) h₁ h₂ h₃
  rw [length,show masks.getD 4 0 = 0x07 from rfl,show shifts.getD 4 0 = 0 from rfl,mask] at word
  rw [word]
  omega

-- A byte that continues a character.
theorem continuation {n : Nat} : ∃ b : UInt8, UInt8.ofNat (n % 0x40 + 0x80) = b ∧ b ≠ 0 ∧ b.toNat = n % 64 + 128 :=
  ⟨_,rfl,(high_byte _ (by omega) (by omega)).2,ofNat_toNat (by omega)⟩

theorem encoded {c : Char} (high : 0x80 ≤ c.toNat) : ∃ lead more, Encoded c lead more := by
  have bound : c.toNat < 0x110000 := by
    rcases c.valid with low | ⟨_,top⟩
    · exact Nat.lt_trans low (by decide)
    · exact top
  obtain ⟨v,value⟩ : ∃ v, c.toNat = v := ⟨_,rfl⟩
  have word : c.val.toNat = v := value
  rw [value] at high bound
  by_cases two : v ≤ 0x7ff
  · obtain ⟨b₁,e₁,n₁,t₁⟩ := continuation (n := v)
    have bytes : String.utf8EncodeChar c = [UInt8.ofNat (v / 64 % 0x20 + 0xc0),b₁] := by
      simp only [String.utf8EncodeChar,word]
      rw [if_neg (by omega),if_pos two,← e₁]
    have t₀ := ofNat_toNat (show v / 64 % 0x20 + 0xc0 < 256 by omega)
    refine ⟨_,_,bytes,(lead_two _ (by omega) (by omega) (by omega)).2.2,⟨by simp,by simp⟩,
      (high_byte _ (by omega) (by omega)).1,by simpa using n₁,?_⟩
    simp only [packed,t₀,t₁]
    rw [or_two (by omega),scalar_two (by omega) (by omega) (by omega),value]
    omega
  by_cases three : v ≤ 0xffff
  · obtain ⟨b₁,e₁,n₁,t₁⟩ := continuation (n := v / 64)
    obtain ⟨b₂,e₂,n₂,t₂⟩ := continuation (n := v)
    have bytes : String.utf8EncodeChar c = [UInt8.ofNat (v / 4096 % 0x10 + 0xe0),b₁,b₂] := by
      simp only [String.utf8EncodeChar,word]
      rw [if_neg (by omega),if_neg two,if_pos three,← e₁,← e₂]
    have t₀ := ofNat_toNat (show v / 4096 % 0x10 + 0xe0 < 256 by omega)
    refine ⟨_,_,bytes,(lead_three _ (by omega) (by omega) (by omega)).2.2,⟨by simp,by simp⟩,
      (high_byte _ (by omega) (by omega)).1,by simpa using ⟨n₁,n₂⟩,?_⟩
    simp only [packed,t₀,t₁,t₂]
    rw [or_three (by omega) (by omega),scalar_three (by omega) (by omega) (by omega) (by omega),value]
    omega
  · obtain ⟨b₁,e₁,n₁,t₁⟩ := continuation (n := v / 4096)
    obtain ⟨b₂,e₂,n₂,t₂⟩ := continuation (n := v / 64)
    obtain ⟨b₃,e₃,n₃,t₃⟩ := continuation (n := v)
    have bytes : String.utf8EncodeChar c = [UInt8.ofNat (v / 262144 % 0x08 + 0xf0),b₁,b₂,b₃] := by
      simp only [String.utf8EncodeChar,word]
      rw [if_neg (by omega),if_neg two,if_neg three,← e₁,← e₂,← e₃]
    have t₀ := ofNat_toNat (show v / 262144 % 0x08 + 0xf0 < 256 by omega)
    refine ⟨_,_,bytes,(lead_four _ (by omega) (by omega) (by omega)).2.2,⟨by simp,by simp⟩,
      (high_byte _ (by omega) (by omega)).1,by simpa using ⟨n₁,n₂,n₃⟩,?_⟩
    simp only [packed,t₀,t₁,t₂,t₃]
    rw [or_four (by omega) (by omega) (by omega),
      scalar_four (by omega) (by omega) (by omega) (by omega) (by omega),value]
    omega
end Cero
