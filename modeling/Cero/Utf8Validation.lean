import Cero.LexerRuns

-- Which byte sequences the lexer accepts as one character.
namespace Cero

-- The two classes of characters with the tables that they are looked up in.
inductive Xid where
  | start | continue_
  deriving DecidableEq, Repr

def Xid.table : Xid → List (Nat × Nat)
  | .start => xidStartTable
  | .continue_ => xidContinueTable

def Xid.predicate : Xid → Nat → Bool
  | .start => isUtf8XidStartChar
  | .continue_ => isUtf8XidContinueChar

def isContinuation (b : UInt8) : Bool := 0x80 ≤ b && b ≤ 0xbf

def isMultibyteLead (lead : UInt8) : Bool := 2 ≤ countlOne lead && countlOne lead ≤ 4

-- The bytes that are read behind a lead byte: fewer at the end of the source.
def trailing (lead : UInt8) (rest : Bytes) : Bytes := rest.take (countlOne lead - 1)

-- The number that the payload bits of a sequence make up; a byte that is missing
-- counts as zero.
def payload (lead : UInt8) (more : Bytes) : Nat :=
  let bits (i : Nat) : Nat := (more.getD i 0).toNat % 64
  match countlOne lead with
  | 2 => (lead.toNat - 0xc0) * 64 + bits 0
  | 3 => (lead.toNat - 0xe0) * 4096 + bits 0 * 64 + bits 1
  | _ => (lead.toNat - 0xf0) * 262144 + bits 0 * 4096 + bits 1 * 64 + bits 2

-- The least number that needs as many bytes as the lead byte claims.
def leastPayload (lead : UInt8) : Nat := match countlOne lead with
  | 2 => 0x80
  | 3 => 0x800
  | _ => 0x10000

-- The sequence is as long as its lead byte claims and not longer than it has to be.
def Shortest (lead : UInt8) (more : Bytes) : Prop := more.length + 1 = countlOne lead ∧ leastPayload lead ≤ payload lead more

instance (lead : UInt8) (more : Bytes) : Decidable (Shortest lead more) := inferInstanceAs (Decidable (_ ∧ _))

theorem lead_ranges (lead : UInt8) : (countlOne lead = 2 ↔ 0xc0 ≤ lead.toNat ∧ lead.toNat < 0xe0) ∧
    (countlOne lead = 3 ↔ 0xe0 ≤ lead.toNat ∧ lead.toNat < 0xf0) ∧ (countlOne lead = 4 ↔ 0xf0 ≤ lead.toNat ∧ lead.toNat < 0xf8) := by
  have table : ∀ n : Fin 256, (countlOne ⟨⟨n⟩⟩ = 2 ↔ 0xc0 ≤ n.val ∧ n.val < 0xe0) ∧
      (countlOne ⟨⟨n⟩⟩ = 3 ↔ 0xe0 ≤ n.val ∧ n.val < 0xf0) ∧ (countlOne ⟨⟨n⟩⟩ = 4 ↔ 0xf0 ≤ n.val ∧ n.val < 0xf8) := by
    decide +kernel
  exact table lead.toFin

theorem isContinuation_iff {b : UInt8} : isContinuation b = true ↔ 0x80 ≤ b.toNat ∧ b.toNat ≤ 0xbf := by
  rw [isContinuation,Bool.and_eq_true,decide_eq_true_eq,decide_eq_true_eq,UInt8.le_iff_toNat_le,UInt8.le_iff_toNat_le]
  rfl

section Encodings
variable {c : Char} {lead : UInt8} {more : Bytes}

theorem ofNat_eq {n : Nat} {b : UInt8} (same : n = b.toNat) : UInt8.ofNat n = b := by
  rw [same]
  exact UInt8.ofNat_toNat

theorem encode_two {v : Nat} (value : c.toNat = v) (low : 0x80 ≤ v) (high : v ≤ 0x7ff) :
    String.utf8EncodeChar c = [UInt8.ofNat (v / 64 % 0x20 + 0xc0),UInt8.ofNat (v % 0x40 + 0x80)] := by
  have word : c.val.toNat = v := value
  simp only [String.utf8EncodeChar,word]
  rw [if_neg (by omega),if_pos high]

theorem encode_three {v : Nat} (value : c.toNat = v) (low : 0x800 ≤ v) (high : v ≤ 0xffff) : String.utf8EncodeChar c =
    [UInt8.ofNat (v / 4096 % 0x10 + 0xe0),UInt8.ofNat (v / 64 % 0x40 + 0x80),UInt8.ofNat (v % 0x40 + 0x80)] := by
  have word : c.val.toNat = v := value
  simp only [String.utf8EncodeChar,word]
  rw [if_neg (by omega),if_neg (by omega),if_pos high]

theorem encode_four {v : Nat} (value : c.toNat = v) (low : 0x10000 ≤ v) : String.utf8EncodeChar c =
    [UInt8.ofNat (v / 262144 % 0x08 + 0xf0),UInt8.ofNat (v / 4096 % 0x40 + 0x80),UInt8.ofNat (v / 64 % 0x40 + 0x80),
      UInt8.ofNat (v % 0x40 + 0x80)] := by
  have word : c.val.toNat = v := value
  simp only [String.utf8EncodeChar,word]
  rw [if_neg (by omega),if_neg (by omega),if_neg (by omega)]

theorem toNat_bound : c.toNat < 0x110000 := by
  rcases c.valid with low | ⟨_,top⟩
  · exact Nat.lt_trans low (by decide)
  · exact top

theorem payload_two (b₁ : UInt8) (two : countlOne lead = 2) : payload lead [b₁] = (lead.toNat - 0xc0) * 64 + b₁.toNat % 64 := by
  rw [payload,two]
  rfl

theorem payload_three (b₁ b₂ : UInt8) (three : countlOne lead = 3) :
    payload lead [b₁,b₂] = (lead.toNat - 0xe0) * 4096 + b₁.toNat % 64 * 64 + b₂.toNat % 64 := by
  rw [payload,three]
  rfl

theorem payload_four (b₁ b₂ b₃ : UInt8) (four : countlOne lead = 4) : payload lead [b₁,b₂,b₃] =
    (lead.toNat - 0xf0) * 262144 + b₁.toNat % 64 * 4096 + b₂.toNat % 64 * 64 + b₃.toNat % 64 := by
  rw [payload,four]
  rfl

-- What an encoding of several bytes looks like.
structure Encodes (c : Char) (lead : UInt8) (more : Bytes) : Prop where
  multi : isMultibyteLead lead = true
  shortest : Shortest lead more
  continued : ∀ b ∈ more, isContinuation b = true
  value : payload lead more = c.toNat

theorem isContinuation_ofNat {n : Nat} : isContinuation (UInt8.ofNat (n % 0x40 + 0x80)) = true := by
  rw [isContinuation_iff,ofNat_toNat (by omega)]
  omega

theorem encode_spec (high : 0x80 ≤ lead.toNat) (bytes : String.utf8EncodeChar c = lead :: more) : Encodes c lead more := by
  obtain ⟨v,value⟩ : ∃ v, c.toNat = v := ⟨_,rfl⟩
  have bound : v < 0x110000 := value ▸ toNat_bound
  obtain ⟨two,three,four⟩ := lead_ranges lead
  by_cases ascii : v < 0x80
  · have word : c.val.toNat = v := value
    simp only [String.utf8EncodeChar,word] at bytes
    rw [if_pos (by omega)] at bytes
    obtain ⟨rfl,_⟩ := List.cons.inj bytes
    rw [ofNat_toNat (by omega)] at high
    omega
  by_cases fitsTwo : v ≤ 0x7ff
  · rw [encode_two value (by omega) fitsTwo] at bytes
    obtain ⟨rfl,rfl⟩ := List.cons.inj bytes
    have lead_ := ofNat_toNat (show v / 64 % 0x20 + 0xc0 < 256 by omega)
    have first := ofNat_toNat (show v % 0x40 + 0x80 < 256 by omega)
    have ones := two.mpr (by omega)
    have number := payload_two (UInt8.ofNat (v % 0x40 + 0x80)) ones
    rw [lead_,first] at number
    refine ⟨by rw [isMultibyteLead,ones]; rfl,⟨ones.symm,?_⟩,?_,by omega⟩
    · rw [leastPayload,ones,number]
      show 0x80 ≤ _
      omega
    · intro b member
      rw [List.mem_singleton.mp member]
      exact isContinuation_ofNat
  by_cases fitsThree : v ≤ 0xffff
  · rw [encode_three value (by omega) fitsThree] at bytes
    obtain ⟨rfl,rfl⟩ := List.cons.inj bytes
    have lead_ := ofNat_toNat (show v / 4096 % 0x10 + 0xe0 < 256 by omega)
    have first := ofNat_toNat (show v / 64 % 0x40 + 0x80 < 256 by omega)
    have second := ofNat_toNat (show v % 0x40 + 0x80 < 256 by omega)
    have ones := three.mpr (by omega)
    have number := payload_three (UInt8.ofNat (v / 64 % 0x40 + 0x80)) (UInt8.ofNat (v % 0x40 + 0x80)) ones
    rw [lead_,first,second] at number
    refine ⟨by rw [isMultibyteLead,ones]; rfl,⟨ones.symm,?_⟩,?_,by omega⟩
    · rw [leastPayload,ones,number]
      show 0x800 ≤ _
      omega
    · intro b member
      simp only [List.mem_cons,List.not_mem_nil,or_false] at member
      rcases member with rfl | rfl <;> exact isContinuation_ofNat
  · rw [encode_four value (by omega)] at bytes
    obtain ⟨rfl,rfl⟩ := List.cons.inj bytes
    have lead_ := ofNat_toNat (show v / 262144 % 0x08 + 0xf0 < 256 by omega)
    have first := ofNat_toNat (show v / 4096 % 0x40 + 0x80 < 256 by omega)
    have second := ofNat_toNat (show v / 64 % 0x40 + 0x80 < 256 by omega)
    have third := ofNat_toNat (show v % 0x40 + 0x80 < 256 by omega)
    have ones := four.mpr (by omega)
    have number := payload_four (UInt8.ofNat (v / 4096 % 0x40 + 0x80)) (UInt8.ofNat (v / 64 % 0x40 + 0x80))
      (UInt8.ofNat (v % 0x40 + 0x80)) ones
    rw [lead_,first,second,third] at number
    refine ⟨by rw [isMultibyteLead,ones]; rfl,⟨ones.symm,?_⟩,?_,by omega⟩
    · rw [leastPayload,ones,number]
      show 0x10000 ≤ _
      omega
    · intro b member
      simp only [List.mem_cons,List.not_mem_nil,or_false] at member
      rcases member with rfl | rfl | rfl <;> exact isContinuation_ofNat

theorem ones_cases (multi : isMultibyteLead lead = true) : countlOne lead = 2 ∨ countlOne lead = 3 ∨ countlOne lead = 4 := by
  rw [isMultibyteLead,Bool.and_eq_true,decide_eq_true_eq,decide_eq_true_eq] at multi
  omega

theorem encode_of (multi : isMultibyteLead lead = true) (shortest : Shortest lead more)
    (continued : ∀ b ∈ more, isContinuation b = true) (value : payload lead more = c.toNat) :
    String.utf8EncodeChar c = lead :: more := by
  obtain ⟨length,least⟩ := shortest
  obtain ⟨two,three,four⟩ := lead_ranges lead
  rcases ones_cases multi with ones | ones | ones
  · obtain ⟨b₁,rfl⟩ := List.length_eq_one_iff.mp (show more.length = 1 by omega)
    have range := two.mp ones
    have first := isContinuation_iff.mp (continued b₁ (by simp))
    rw [leastPayload,ones] at least
    rw [payload_two b₁ ones] at value least
    replace least : 0x80 ≤ _ := least
    rw [encode_two value.symm least (by omega)]
    rw [ofNat_eq (show _ = lead.toNat by omega),ofNat_eq (show _ = b₁.toNat by omega)]
  · obtain ⟨b₁,b₂,rfl⟩ := List.length_eq_two.mp (show more.length = 2 by omega)
    have range := three.mp ones
    have first := isContinuation_iff.mp (continued b₁ (by simp))
    have second := isContinuation_iff.mp (continued b₂ (by simp))
    rw [leastPayload,ones] at least
    rw [payload_three b₁ b₂ ones] at value least
    replace least : 0x800 ≤ _ := least
    rw [encode_three value.symm least (by omega)]
    rw [ofNat_eq (show _ = lead.toNat by omega),ofNat_eq (show _ = b₁.toNat by omega),ofNat_eq (show _ = b₂.toNat by omega)]
  · obtain ⟨b₁,b₂,b₃,rfl⟩ := List.length_eq_three.mp (show more.length = 3 by omega)
    have range := four.mp ones
    have first := isContinuation_iff.mp (continued b₁ (by simp))
    have second := isContinuation_iff.mp (continued b₂ (by simp))
    have third := isContinuation_iff.mp (continued b₃ (by simp))
    rw [leastPayload,ones] at least
    rw [payload_four b₁ b₂ b₃ ones] at value least
    replace least : 0x10000 ≤ _ := least
    rw [encode_four value.symm least]
    rw [ofNat_eq (show _ = lead.toNat by omega),ofNat_eq (show _ = b₁.toNat by omega),ofNat_eq (show _ = b₂.toNat by omega),
      ofNat_eq (show _ = b₃.toNat by omega)]
end Encodings

section Decoding
variable {lead : UInt8} {more rest : Bytes}

theorem getD_beyond {i : Nat} (beyond : more.length ≤ i) : (more.getD i 0).toNat = 0 := by
  rw [List.getD_eq_getElem?_getD,List.getElem?_eq_none beyond]
  rfl

theorem packed_bytes (lead : Nat) (few : more.length ≤ 3) (small : lead < 256) : packed lead 1 more =
    lead + (more.getD 0 0).toNat * 256 + (more.getD 1 0).toNat * 65536 + (more.getD 2 0).toNat * 16777216 := by
  match more with
  | [] => simp [packed]
  | [b₁] =>
    have word : packed lead 1 [b₁] = lead + b₁.toNat * 256 := or_two small
    rw [word,@getD_beyond [b₁] 1 (Nat.le_refl _),@getD_beyond [b₁] 2 (Nat.le_succ _),Nat.zero_mul,Nat.add_zero]
    rfl
  | [b₁,b₂] =>
    have word : packed lead 1 [b₁,b₂] = lead + b₁.toNat * 256 + b₂.toNat * 65536 := or_three small b₁.toNat_lt
    rw [word,@getD_beyond [b₁,b₂] 2 (Nat.le_refl _),Nat.zero_mul,Nat.add_zero]
    rfl
  | [b₁,b₂,b₃] => exact or_four small b₁.toNat_lt b₂.toNat_lt
  | _ :: _ :: _ :: _ :: _ =>
    simp only [List.length_cons] at few
    omega

-- What is decoded is the number of the payload bits.
theorem decoded (multi : isMultibyteLead lead = true) (few : more.length + 1 ≤ countlOne lead) :
    utf8CharToUnicodeScalar (packed lead.toNat 1 more) = payload lead more := by
  obtain ⟨two,three,four⟩ := lead_ranges lead
  have third := (more.getD 2 0).toNat_lt
  rcases ones_cases multi with ones | ones | ones
  · have range := two.mp ones
    rw [packed_bytes lead.toNat (by omega) lead.toNat_lt,getD_beyond (show more.length ≤ 1 by omega),
      getD_beyond (show more.length ≤ 2 by omega),payload,ones,Nat.zero_mul,Nat.add_zero]
    exact scalar_two range.1 range.2 (more.getD 0 0).toNat_lt
  · have range := three.mp ones
    rw [packed_bytes lead.toNat (by omega) lead.toNat_lt,getD_beyond (show more.length ≤ 2 by omega),payload,ones,Nat.zero_mul,
      Nat.add_zero]
    exact scalar_three range.1 range.2 (more.getD 0 0).toNat_lt (more.getD 1 0).toNat_lt
  · have range := four.mp ones
    rw [packed_bytes lead.toNat (by omega) lead.toNat_lt,payload,ones]
    exact scalar_four range.1 range.2 (more.getD 0 0).toNat_lt (more.getD 1 0).toNat_lt third

theorem predicate_iff (xid : Xid) (utf8Char : Nat) :
    xid.predicate utf8Char = true ↔ InTable xid.table (utf8CharToUnicodeScalar utf8Char) := by
  cases xid with
  | start => exact searchTable_iff xidStartTable_sorted utf8Char
  | continue_ => exact searchTable_iff xidContinueTable_sorted utf8Char

-- The UTF-8 bytes of a character in a word, the first of them in its low eight bits.
def packedChar (c : Char) : Nat := packed 0 0 (String.utf8EncodeChar c)

theorem packedChar_encoded {c : Char} {lead : UInt8} {more : Bytes} (encoded : Encoded c lead more) :
    packedChar c = packed lead.toNat 1 more := by
  unfold packedChar
  rw [encoded.bytes]
  simp [packed]

theorem packedChar_scalar {c : Char} (high : 0x80 ≤ c.toNat) : utf8CharToUnicodeScalar (packedChar c) = c.toNat := by
  obtain ⟨lead,more,encoded⟩ := encoded high
  rw [packedChar_encoded encoded]
  exact encoded.scalar

theorem xidTable_sorted (xid : Xid) : xid.table.Pairwise Below := by
  cases xid with
  | start => exact xidStartTable_sorted
  | continue_ => exact xidContinueTable_sorted

-- Any search that keeps to the contract of the standard finds what a scan of the table finds.
theorem xid_lookup {search : (Nat × Nat → Ordering) → List (Nat × Nat) → Bool} (standard : Search.FindsEqual search)
    (c : Char) (high : 0x80 ≤ c.toNat) : utf8CharToUnicodeScalar (packedChar c) = c.toNat ∧
      (isUtf8XidStartChar (packedChar c) = true ↔ InTable xidStartTable c.toNat) ∧
      (isUtf8XidContinueChar (packedChar c) = true ↔ InTable xidContinueTable c.toNat) ∧
      ∀ xid : Xid, search (fun range => compareRange range (utf8CharToUnicodeScalar (packedChar c))) xid.table = true ↔
        InTable xid.table c.toNat := by
  have scalar := packedChar_scalar high
  have start := predicate_iff .start (packedChar c)
  have continue_ := predicate_iff .continue_ (packedChar c)
  rw [scalar] at start continue_ ⊢
  refine ⟨rfl,start,continue_,fun xid => ?_⟩
  rw [inTable_equal]
  exact standard _ _ (table_partitioned (xidTable_sorted xid) _)

theorem xid_lookup_omega : utf8CharToUnicodeScalar (packedChar 'ω') = 'ω'.toNat ∧
    (isUtf8XidStartChar (packedChar 'ω') = true ↔ InTable xidStartTable 'ω'.toNat) ∧
    (isUtf8XidContinueChar (packedChar 'ω') = true ↔ InTable xidContinueTable 'ω'.toNat) ∧
    ∀ xid : Xid, Search.binarySearch (fun range => compareRange range (utf8CharToUnicodeScalar (packedChar 'ω'))) xid.table = true ↔
      InTable xid.table 'ω'.toNat := xid_lookup Search.binarySearch_finds 'ω' (by decide)

example : packedChar 'ω' = 0x89cf := by decide

-- The tables hold nothing but scalars.
theorem table_scalar {xid : Xid} {n : Nat} (inTable : InTable xid.table n) : n.isValidChar := by
  obtain ⟨range,member,low,high⟩ := inTable
  have start : ∀ range ∈ xidStartTable, range.2 < 0xd800 ∨ 0xdfff < range.1 ∧ range.2 < 0x110000 := by decide +kernel
  have continue_ : ∀ range ∈ xidContinueTable, range.2 < 0xd800 ∨ 0xdfff < range.1 ∧ range.2 < 0x110000 := by decide +kernel
  have scalar : range.2 < 0xd800 ∨ 0xdfff < range.1 ∧ range.2 < 0x110000 := by
    cases xid with
    | start => exact start range member
    | continue_ => exact continue_ range member
  rcases scalar with below | ⟨above,top⟩
  · exact .inl (by omega)
  · exact .inr ⟨by omega,by omega⟩
end Decoding

namespace Lexer
open Effect SourceCursor

section Validation
variable {x : Context} {xid : Xid} {lead : UInt8} {o : Nat} {rest : Bytes}

theorem consumeTrailing_exact (rounds i utf8Char : Nat) : consumeTrailing rounds i utf8Char ⟨o,rest⟩ =
    .ok ⟨.ok (packed utf8Char i (rest.take rounds)),⟨o + (rest.take rounds).length,rest.drop rounds⟩,[]⟩ := by
  induction rounds generalizing o i utf8Char rest with
  | zero => rfl
  | succ rounds ih =>
    cases rest with
    | nil =>
      have same : utf8Char ||| UInt8.toNat 0 <<< (i*8) = utf8Char := by simp
      rw [consumeTrailing,bind_ok next_end,same,ih]
      simp only [List.take_nil,List.drop_nil]
      rfl
    | cons b rest =>
      rw [consumeTrailing,bind_ok next_run,ih,List.take_succ_cons,List.length_cons,Nat.add_right_comm,← Nat.add_assoc]
      rfl

-- The source begins with the encoding of a character of the class.
def BeginsWith (xid : Xid) (c : Char) (lead : UInt8) (more rest : Bytes) : Prop :=
  String.utf8EncodeChar c = lead :: more ∧ InTable xid.table c.toNat ∧ more <+: rest

-- What is expected of the answer behind a lead byte, and of where the cursor is left.
structure Right (xid : Xid) (lead : UInt8) (c : SourceCursor) (accepted : Bool) (c' : SourceCursor) : Prop where
  accepts : accepted = true ↔ ∃ char more, BeginsWith xid char lead more c.rest
  consumes : accepted = true → ∃ char more, BeginsWith xid char lead more c.rest ∧ Moves c more c'
  spares : accepted = false → ∃ crossed, Moves c crossed c' ∧ ∀ b ∈ crossed, isContinuation b = true

def Validates (x : Context) (xid : Xid) (lead : UInt8) (offset : Nat) (c : SourceCursor) : Prop :=
  Holds (consumeMultibyteUtf8Char x lead offset xid.predicate) c fun accepted c' _ => Right xid lead c accepted c'

-- Every byte that is read behind the lead byte continues a character, and where some
-- are missing or the sequence is longer than it has to be, its number is not in the table.
def Unmistaken (xid : Xid) (lead : UInt8) (rest : Bytes) : Prop := isMultibyteLead lead = true →
  (∀ b ∈ trailing lead rest, isContinuation b = true) ∧
    (Shortest lead (trailing lead rest) ∨ ¬ InTable xid.table (payload lead (trailing lead rest)))

theorem beginsWith_facts {c : Char} {more : Bytes} (high : 0x80 ≤ lead.toNat) (begins : BeginsWith xid c lead more rest) :
    Encodes c lead more ∧ more = trailing lead rest ∧ InTable xid.table (payload lead (trailing lead rest)) := by
  obtain ⟨bytes,inTable,tail,rfl⟩ := begins
  have encodes := encode_spec high bytes
  have all : trailing lead (more ++ tail) = more := by
    rw [trailing,← encodes.shortest.1,Nat.add_sub_cancel,List.take_left]
  rw [all,encodes.value]
  exact ⟨encodes,rfl,inTable⟩

theorem trailing_length : (trailing lead rest).length ≤ countlOne lead - 1 := List.length_take_le _ _

theorem reject_run (fits : x.source.text.length ≤ sourceSizeMax) (inside : o ≤ x.source.text.length) (utf8Char : Nat) (c : SourceCursor) :
    ∃ made, (do report x .invalidCharacter o [.number utf8Char]; return false : Lexer Bool) c = .ok ⟨.ok false,c,[.report made]⟩ ∧
      ReportAt x o .invalidCharacter made := by
  obtain ⟨made,reported,there⟩ : ∃ made, report x .invalidCharacter o [.number utf8Char] c = .ok ⟨.ok (),c,[.report made]⟩ ∧
      ReportAt x o .invalidCharacter made := report_run fits inside rfl
  exact ⟨made,by rw [bind_ok reported]; rfl,there⟩

-- What the lexer makes of the bytes behind a lead byte.
def accepts (xid : Xid) (lead : UInt8) (rest : Bytes) : Bool :=
  isMultibyteLead lead && xid.predicate (packed lead.toNat 1 (trailing lead rest))

-- The bytes that are passed over either way.
def claimed (lead : UInt8) (rest : Bytes) : Bytes := if isMultibyteLead lead = true then trailing lead rest else []

theorem moves_claimed : Moves ⟨o,rest⟩ (claimed lead rest) ⟨o+(claimed lead rest).length,rest.drop (claimed lead rest).length⟩ := by
  refine ⟨?_,rfl⟩
  rw [claimed]
  split
  · exact List.prefix_iff_eq_append.mp ( List.take_prefix _ _) |>.symm
  · rfl

theorem accepts_iff : accepts xid lead rest = true ↔ isMultibyteLead lead = true ∧ InTable xid.table (payload lead (trailing lead rest)) := by
  rw [accepts,Bool.and_eq_true]
  refine and_congr_right fun multi => ?_
  have few : (trailing lead rest).length + 1 ≤ countlOne lead := by
    have short : (trailing lead rest).length ≤ countlOne lead - 1 := trailing_length
    have ones := ones_cases multi
    omega
  rw [predicate_iff,decoded multi few]

-- The run behind a lead byte: it reads the trailing bytes and looks their number up.
theorem consumeMultibyteUtf8Char_exact (xid : Xid) (here : At x.source ⟨o,lead :: rest⟩) : ∃ log,
    consumeMultibyteUtf8Char x lead o xid.predicate ⟨o+1,rest⟩ = .ok ⟨.ok (accepts xid lead rest),
      ⟨o+1+(claimed lead rest).length,rest.drop (claimed lead rest).length⟩,log⟩ ∧
    tokensOf log = [] ∧ (reportsOf log).length = if accepts xid lead rest = true then 0 else 1 := by
  have inside : o ≤ x.source.text.length := here.inside
  by_cases multi : isMultibyteLead lead = true
  · have ones : countlOne lead ≥ 2 ∧ countlOne lead ≤ 4 := by simpa [isMultibyteLead] using multi
    have behind : rest.drop (countlOne lead - 1) = rest.drop (trailing lead rest).length := by
      rw [trailing,List.length_take]
      rcases Nat.le_total (countlOne lead - 1) rest.length with le | le
      · rw [Nat.min_eq_left le]
      · rw [Nat.min_eq_right le,List.drop_of_length_le le,List.drop_length]
    have all : consumeTrailing (countlOne lead - 1) 1 lead.toNat ⟨o+1,rest⟩ = .ok ⟨.ok (packed lead.toNat 1 (trailing lead rest)),
        ⟨o+1+(trailing lead rest).length,rest.drop (trailing lead rest).length⟩,[]⟩ := by
      rw [← behind]
      exact consumeTrailing_exact _ _ _
    rw [consumeMultibyteUtf8Char,if_pos ones,bind_ok all,claimed,if_pos multi,accepts,multi,Bool.true_and]
    cases xid.predicate (packed lead.toNat 1 (trailing lead rest)) with
    | true => exact ⟨[],rfl,rfl,rfl⟩
    | false =>
      obtain ⟨made,rejected,_⟩ := reject_run here.fits inside (packed lead.toNat 1 (trailing lead rest))
        ⟨o+1+(trailing lead rest).length,rest.drop (trailing lead rest).length⟩
      rw [if_neg Bool.false_ne_true,rejected]
      exact ⟨[.report made],rfl,rfl,rfl⟩
  · have ones : ¬ (countlOne lead ≥ 2 ∧ countlOne lead ≤ 4) := by simpa [isMultibyteLead] using multi
    obtain ⟨made,rejected,_⟩ := reject_run here.fits inside lead.toNat ⟨o+1,rest⟩
    rw [consumeMultibyteUtf8Char,if_neg ones,rejected,claimed,if_neg multi,accepts,Bool.eq_false_iff.mpr multi,Bool.false_and]
    exact ⟨[.report made],rfl,rfl,rfl⟩

theorem moves_unique {c c' : SourceCursor} {u v : Bytes} (first : Moves c u c') (second : Moves c v c') : u = v :=
  List.append_cancel_right (first.1.symm.trans second.1)

-- A number of the table that is spelled in full is that of a character.
theorem beginsWith_of (multi : isMultibyteLead lead = true) (shortest : Shortest lead (trailing lead rest))
    (continued : ∀ b ∈ trailing lead rest, isContinuation b = true) (inTable : InTable xid.table (payload lead (trailing lead rest))) :
    ∃ c, BeginsWith xid c lead (trailing lead rest) rest := by
  have valid := table_scalar inTable
  have value : (Char.ofNat (payload lead (trailing lead rest))).toNat = payload lead (trailing lead rest) := by
    rw [Char.ofNat,dif_pos valid]
    rfl
  refine ⟨Char.ofNat (payload lead (trailing lead rest)),encode_of multi shortest continued value.symm,?_, List.take_prefix _ _⟩
  rw [value]
  exact inTable

-- The lexer is right about the sequences that are not mistaken for a character of
-- the table, and wrong about all others.
theorem utf8_validation (high : 0x80 ≤ lead.toNat) (here : At x.source ⟨o,lead :: rest⟩) :
    Validates x xid lead o ⟨o+1,rest⟩ ↔ Unmistaken xid lead rest := by
  obtain ⟨log,ran,_⟩ := consumeMultibyteUtf8Char_exact xid here
  have moved : Moves ⟨o+1,rest⟩ (claimed lead rest) ⟨o+1+(claimed lead rest).length,rest.drop (claimed lead rest).length⟩ :=
    moves_claimed
  by_cases multi : isMultibyteLead lead = true
  · have found : accepts xid lead rest = true ↔ InTable xid.table (payload lead (trailing lead rest)) := by
      rw [accepts_iff,and_iff_right multi]
    have all : claimed lead rest = trailing lead rest := if_pos multi
    rw [all] at moved ran
    constructor
    · rintro ⟨accepted,c',log',ran',right⟩ _
      obtain ⟨⟩ := ran.symm.trans ran'
      cases yes : accepts xid lead rest with
      | true =>
        obtain ⟨c,more,begins,_⟩ := right.consumes yes
        obtain ⟨encodes,same,_⟩ := beginsWith_facts high begins
        rw [← same]
        exact ⟨encodes.continued,.inl encodes.shortest⟩
      | false =>
        obtain ⟨crossed,passed,continued⟩ := right.spares yes
        rw [moves_unique passed moved] at continued
        exact ⟨continued,.inr fun inTable => Bool.false_ne_true (yes.symm.trans (found.mpr inTable))⟩
    · intro unmistaken
      obtain ⟨continued,full⟩ := unmistaken multi
      refine ⟨_,_,log,ran,⟨?_,?_⟩,?_,fun _ => ⟨_,moved,continued⟩⟩
      · intro yes
        have inTable := found.mp yes
        obtain ⟨c,begins⟩ := beginsWith_of multi (full.resolve_right (not_not_intro inTable)) continued inTable
        exact ⟨c,_,begins⟩
      · rintro ⟨c,more,begins⟩
        exact found.mpr (beginsWith_facts high begins).2.2
      · intro yes
        have inTable := found.mp yes
        obtain ⟨c,begins⟩ := beginsWith_of multi (full.resolve_right (not_not_intro inTable)) continued inTable
        exact ⟨c,_,begins,moved⟩
  · have rejected : accepts xid lead rest ≠ true := fun yes => multi (accepts_iff.mp yes).1
    have none_ : claimed lead rest = [] := if_neg multi
    rw [none_] at moved ran
    refine iff_of_true ?_ fun yes => absurd yes multi
    refine ⟨_,_,log,ran,⟨fun yes => absurd yes rejected,?_⟩,fun yes => absurd yes rejected,fun _ => ⟨[],moved,by simp⟩⟩
    rintro ⟨c,more,begins⟩
    exact absurd (beginsWith_facts high begins).1.multi multi
end Validation

-- The lead byte of a character of two bytes in front of a newline.
def cutOff : Context := ⟨⟨[0xc3,ch '\n'],""⟩,.none,4⟩

theorem cutOff_at : At cutOff.source ⟨0,[0xc3,ch '\n']⟩ := ⟨by decide,by decide,rfl⟩

theorem utf8_validation_cutOff : ¬ ∀ (x : Context) (xid : Xid) (lead : UInt8) (o : Nat) (rest : Bytes), 0x80 ≤ lead.toNat →
    At x.source ⟨o,lead :: rest⟩ → Validates x xid lead o ⟨o+1,rest⟩ := by
  intro always
  obtain ⟨accepted,c',log,ran,right⟩ := always cutOff .start 0xc3 0 [ch '\n'] (by decide) cutOff_at
  obtain ⟨log',ran',_⟩ := consumeMultibyteUtf8Char_exact .start cutOff_at
  obtain ⟨⟩ := ran.symm.trans ran'
  have inTable : InTable xidStartTable 0xca := ⟨(0xc0,0xd6),by decide +kernel,by decide,by decide⟩
  obtain ⟨char,more,begins⟩ := right.accepts.mp (accepts_iff.mpr ⟨by decide,inTable⟩)
  obtain ⟨encodes,same,_⟩ := beginsWith_facts (by decide) begins
  have continued := encodes.continued
  rw [same] at continued
  exact absurd (continued (ch '\n') (by decide)) (by decide)

-- A character of two bytes.
def eAcute : Context := ⟨⟨[0xc3,0xa9],""⟩,.none,4⟩

theorem utf8_validation_eAcute : Validates eAcute .continue_ 0xc3 0 ⟨1,[0xa9]⟩ ↔ Unmistaken .continue_ 0xc3 [0xa9] :=
  utf8_validation (by decide) ⟨by decide,by decide,rfl⟩
end Lexer
end Cero
