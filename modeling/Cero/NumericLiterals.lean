import Cero.LexerRuns

-- The numeric literals of a source, with whitespace between their digits.
namespace Cero.Lexer
open Effect SourceCursor

section Numbers
variable {x : Context} {o p : Nat} {b : UInt8} {u v blanks gap rest later : Bytes}

theorem blank_table : ∀ b : UInt8, isAsciiWhitespace b = true → isDecimalDigit b = false ∧ isHexadecimalDigit b = false := by
  have table : ∀ n : Fin 256, isAsciiWhitespace ⟨⟨n⟩⟩ = true →
      isDecimalDigit ⟨⟨n⟩⟩ = false ∧ isHexadecimalDigit ⟨⟨n⟩⟩ = false := by decide +kernel
  exact fun b => table b.toFin

theorem decimalDigits_run (digits : DigitTail isDecimalDigit u) (blank : Blank gap) (stops : Stops isDecimalDigit rest) :
    consumeDigitSequence isDecimalDigit o ⟨p,u ++ (gap ++ rest)⟩ =
      .ok ⟨.ok (p + u.length - o),⟨p + u.length + gap.length,rest⟩,[]⟩ :=
  consumeDigits_run (by decide) (fun b blank => (blank_table b blank).1) digits blank stops

-- No digit follows.
theorem noDigits_run (blank : Blank gap) (stops : Stops isDecimalDigit rest) :
    consumeDigitSequence isDecimalDigit o ⟨p,gap ++ rest⟩ = .ok ⟨.ok (p - o),⟨p + gap.length,rest⟩,[]⟩ := by
  simpa using decimalDigits_run .nil blank stops

theorem decInt_run (digits : DigitTail isDecimalDigit u) (blank : Blank gap) (stops : Stops isDecimalDigit rest)
    (noDot : front ⟨0,rest⟩ ≠ ch '.') : handleDecimalLiteral o ⟨p,u ++ (gap ++ rest)⟩ =
      .ok ⟨.ok (),⟨p + u.length + gap.length,rest⟩,[.token (.make .decIntLiteral o (p + u.length - o))]⟩ := by
  rw [handleDecimalLiteral,bind_ok (decimalDigits_run digits blank stops),bind_ok peek_run,
    if_neg (show ¬ front ⟨p + u.length + gap.length,rest⟩ = ch '.' from noDot),put_run]
  rfl

theorem dot_stops {rest : Bytes} : Stops isDecimalDigit (ch '.' :: rest) := by
  have dot : isDecimalDigit (ch '.') = false ∧ isAsciiWhitespace (ch '.') = false := by decide
  exact dot

-- A number and the dot on the next line come out of one call.
theorem decIntDot_run (digits : DigitTail isDecimalDigit u) (between : Blank gap) (blank : Blank later)
    (stops : Stops isDecimalDigit rest) : handleDecimalLiteral o ⟨p,u ++ (gap ++ ch '.' :: (later ++ rest))⟩ =
      .ok ⟨.ok (),⟨p + u.length + gap.length + 1 + later.length,rest⟩,
        [.token (.make .decIntLiteral o (p + u.length - o)),.token (.fixed .dot (p + u.length + gap.length))]⟩ := by
  rw [handleDecimalLiteral,bind_ok (decimalDigits_run digits between dot_stops),bind_ok peek_run,front_cons,if_pos rfl,
    bind_ok getOffsetAndAdvance_run,bind_ok (noDigits_run blank stops),
    if_neg (show ¬ p + u.length + gap.length + 1 - (p + u.length + gap.length) > 1 by omega)]
  rfl

theorem float_run (digits : DigitTail isDecimalDigit u) (between : Blank blanks) (fraction : DigitTail isDecimalDigit v)
    (some_ : v ≠ []) (blank : Blank gap) (stops : Stops isDecimalDigit rest) (ordered : o ≤ p) :
    handleDecimalLiteral o ⟨p,u ++ (blanks ++ ch '.' :: (v ++ (gap ++ rest)))⟩ =
      .ok ⟨.ok (),⟨p + u.length + blanks.length + 1 + v.length + gap.length,rest⟩,
        [.token (.make .floatLiteral o (p + u.length + blanks.length - o + 1 + v.length))]⟩ := by
  have positive := List.length_pos_iff.mpr some_
  have behind : consumeDigitSequence isDecimalDigit (p + u.length + blanks.length)
      ⟨p + u.length + blanks.length + 1,v ++ (gap ++ rest)⟩ = _ := decimalDigits_run fraction blank stops
  rw [handleDecimalLiteral,bind_ok (decimalDigits_run digits between dot_stops),bind_ok peek_run,front_cons,if_pos rfl,
    bind_ok getOffsetAndAdvance_run,bind_ok behind]
  rw [if_pos (show p + u.length + blanks.length + 1 + v.length - (p + u.length + blanks.length) > 1 by omega),put_run]
  rw [show p + u.length + blanks.length - o + (p + u.length + blanks.length + 1 + v.length - (p + u.length + blanks.length)) =
    p + u.length + blanks.length - o + 1 + v.length by omega]
  rfl

theorem onDot_float (fraction : DigitTail isDecimalDigit v) (some_ : v ≠ []) (blank : Blank gap) (stops : Stops isDecimalDigit rest) :
    onDot ⟨o,ch '.' :: (v ++ (gap ++ rest))⟩ =
      .ok ⟨.ok (),⟨o + 1 + v.length + gap.length,rest⟩,[.token (.make .floatLiteral o (v.length+1))]⟩ := by
  have positive := List.length_pos_iff.mpr some_
  have behind : consumeDigitSequence isDecimalDigit o ⟨o+1,v ++ (gap ++ rest)⟩ = _ := decimalDigits_run fraction blank stops
  have length : o + 1 + v.length - o = v.length + 1 := by omega
  rw [onDot,bind_ok getOffsetAndAdvance_run,bind_ok behind,length,if_pos (Nat.succ_lt_succ positive)]
  rfl

theorem onDot_dot (blank : Blank gap) (stops : Stops isDecimalDigit rest) :
    onDot ⟨o,ch '.' :: (gap ++ rest)⟩ = .ok ⟨.ok (),⟨o + 1 + gap.length,rest⟩,[.token (.fixed .dot o)]⟩ := by
  rw [onDot,bind_ok getOffsetAndAdvance_run,bind_ok (noDigits_run blank stops),if_neg (show ¬ o + 1 - o > 1 by omega)]
  rfl

def NoMarker (K : Bytes) : Prop := front ⟨0,K⟩ ≠ ch 'x' ∧ front ⟨0,K⟩ ≠ ch 'b' ∧ front ⟨0,K⟩ ≠ ch 'o'

theorem nonzero_table : ∀ b : UInt8, isDecimalDigit b = true → b ≠ ch '0' →
    isAsciiIdentifierChar b = true ∧ ¬ (ch 'A' ≤ b ∧ b ≤ ch 'Z' ∨ b = ch '_') ∧ ¬ (ch 'a' ≤ b ∧ b ≤ ch 'z') ∧
      (ch '1' ≤ b ∧ b ≤ ch '9') := by
  have table : ∀ n : Fin 256, isDecimalDigit ⟨⟨n⟩⟩ = true → (⟨⟨n⟩⟩ : UInt8) ≠ ch '0' →
      isAsciiIdentifierChar ⟨⟨n⟩⟩ = true ∧ ¬ (ch 'A' ≤ (⟨⟨n⟩⟩ : UInt8) ∧ (⟨⟨n⟩⟩ : UInt8) ≤ ch 'Z' ∨ (⟨⟨n⟩⟩ : UInt8) = ch '_') ∧
      ¬ (ch 'a' ≤ (⟨⟨n⟩⟩ : UInt8) ∧ (⟨⟨n⟩⟩ : UInt8) ≤ ch 'z') ∧ (ch '1' ≤ (⟨⟨n⟩⟩ : UInt8) ∧ (⟨⟨n⟩⟩ : UInt8) ≤ ch '9') := by
    decide +kernel
  exact fun b => table b.toFin

-- Either digit handler goes on to the decimal literal when no base prefix follows.
theorem handle_digit (digit : isDecimalDigit b = true) {K : Bytes} (plain : b = ch '0' → NoMarker K) :
    handleNextCharacter x b ⟨o,b :: K⟩ = handleDecimalLiteral o ⟨o+1,K⟩ := by
  by_cases zero : b = ch '0'
  · obtain ⟨notX,notB,notO⟩ := plain zero
    subst zero
    have hex : (matchChar (ch 'x') : Lexer Bool) ⟨o+1,K⟩ = .ok ⟨.ok false,⟨o+1,K⟩,[]⟩ := matchChar_other (.inl notX)
    have bin : (matchChar (ch 'b') : Lexer Bool) ⟨o+1,K⟩ = .ok ⟨.ok false,⟨o+1,K⟩,[]⟩ := matchChar_other (.inl notB)
    have oct : (matchChar (ch 'o') : Lexer Bool) ⟨o+1,K⟩ = .ok ⟨.ok false,⟨o+1,K⟩,[]⟩ := matchChar_other (.inl notO)
    have ran : onZero ⟨o,ch '0' :: K⟩ = handleDecimalLiteral o ⟨o+1,K⟩ := by
      rw [onZero,bind_ok getOffsetAndAdvance_run,bind_ok hex,if_neg Bool.false_ne_true,bind_ok bin,
        if_neg Bool.false_ne_true,bind_ok oct,if_neg Bool.false_ne_true]
      simp only [map_after_nil]
    exact ran
  · obtain ⟨letter,notUpper,notLower,range⟩ := nonzero_table b digit zero
    rw [handleNextCharacter,if_neg (notBlank_of letter),if_neg notUpper,if_neg notLower,if_neg zero,if_pos range,onNonzero,
      bind_ok getOffsetAndAdvance_run]
    simp only [map_after_nil]

theorem onZero_hex (K : Bytes) : onZero ⟨o,ch '0' :: ch 'x' :: K⟩ = putBasedLiteral .hexIntLiteral isHexadecimalDigit o ⟨o+1+1,K⟩ := by
  rw [onZero,bind_ok getOffsetAndAdvance_run,bind_ok matchChar_same,if_pos rfl]
  simp only [map_after_nil]

theorem onZero_bin (K : Bytes) : onZero ⟨o,ch '0' :: ch 'b' :: K⟩ = putBasedLiteral .binIntLiteral isDecimalDigit o ⟨o+1+1,K⟩ := by
  rw [onZero,bind_ok getOffsetAndAdvance_run,bind_ok (matchChar_not (show ch 'b' ≠ ch 'x' by decide)),
    if_neg Bool.false_ne_true,bind_ok matchChar_same,if_pos rfl]
  simp only [map_after_nil]

theorem onZero_oct (K : Bytes) : onZero ⟨o,ch '0' :: ch 'o' :: K⟩ = putBasedLiteral .octIntLiteral isDecimalDigit o ⟨o+1+1,K⟩ := by
  rw [onZero,bind_ok getOffsetAndAdvance_run,bind_ok (matchChar_not (show ch 'o' ≠ ch 'x' by decide)),
    if_neg Bool.false_ne_true,bind_ok (matchChar_not (show ch 'o' ≠ ch 'b' by decide)),if_neg Bool.false_ne_true,
    bind_ok matchChar_same,if_pos rfl]
  simp only [map_after_nil]

-- The base prefixes, each with the digits that are read behind it.
inductive Based : UInt8 → (UInt8 → Bool) → TokenKind → Prop where
  | hex : Based (ch 'x') isHexadecimalDigit .hexIntLiteral
  | bin : Based (ch 'b') isDecimalDigit .binIntLiteral
  | oct : Based (ch 'o') isDecimalDigit .octIntLiteral

section Bases
variable {marker : UInt8} {digit : UInt8 → Bool} {kind : TokenKind}

theorem Based.dispatch (based : Based marker digit kind) (o : Nat) (K : Bytes) :
    onZero ⟨o,ch '0' :: marker :: K⟩ = putBasedLiteral kind digit o ⟨o+1+1,K⟩ := by
  cases based with
  | hex => exact onZero_hex K
  | bin => exact onZero_bin K
  | oct => exact onZero_oct K

theorem Based.digits (based : Based marker digit kind) : digit 0 = false ∧ ∀ b, isAsciiWhitespace b = true → digit b = false := by
  cases based with
  | hex => exact ⟨by decide,fun b blank => (blank_table b blank).2⟩
  | bin | oct => exact ⟨by decide,fun b blank => (blank_table b blank).1⟩

theorem onZero_based (based : Based marker digit kind) (digits : DigitTail digit u) (blank : Blank gap) (stops : Stops digit rest) :
    onZero ⟨o,ch '0' :: marker :: (u ++ (gap ++ rest))⟩ =
      .ok ⟨.ok (),⟨o + 2 + u.length + gap.length,rest⟩,[.token (.make kind o (u.length+2))]⟩ := by
  obtain ⟨nonzero,apart⟩ := based.digits
  have behind : consumeDigitSequence digit o ⟨o+2,u ++ (gap ++ rest)⟩ = _ := consumeDigits_run nonzero apart digits blank stops
  have length : o + 2 + u.length - o = u.length + 2 := by omega
  rw [based.dispatch,putBasedLiteral,bind_ok behind,put_run,length]
  rfl
end Bases
end Numbers
end Cero.Lexer
