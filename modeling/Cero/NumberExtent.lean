import Cero.NumericLiterals

-- How far the numbers of a source reach.
namespace Cero.Lexer
open Effect SourceCursor

-- `u` is the longest text with `P` that `t` begins with.
structure Longest (P : Bytes → Prop) (t u : Bytes) : Prop where
  front : u <+: t
  is : P u
  most : ∀ v, v <+: t → P v → v.length ≤ u.length

-- The digits that a decimal number begins with, where no base prefix stands.
structure Whole (t i : Bytes) : Prop where
  longest : Longest (Digits isDecimalDigit) t i
  plain : ∀ marker digit kind t', Based marker digit kind → t ≠ ch '0' :: marker :: t'

-- The tokens that stand for the number or the dot at the beginning of `t`, over `w`.
inductive NumberRead (o : Nat) : (t w : Bytes) → List Token → Prop where
  | based {marker : UInt8} {digit : UInt8 → Bool} {kind : TokenKind} {t u : Bytes} : Based marker digit kind →
      Longest (DigitTail digit) t u →
      NumberRead o (ch '0' :: marker :: t) (ch '0' :: marker :: u) [.make kind o (u.length+2)]
  | float {i blanks t v : Bytes} : Whole (i ++ (blanks ++ ch '.' :: t)) i → Blank blanks →
      Longest (DigitTail isDecimalDigit) t v → v ≠ [] →
      NumberRead o (i ++ (blanks ++ ch '.' :: t)) (i ++ (blanks ++ ch '.' :: v))
        [.make .floatLiteral o (i ++ (blanks ++ ch '.' :: v)).length]
  | intDot {i blanks t : Bytes} : Whole (i ++ (blanks ++ ch '.' :: t)) i → Blank blanks →
      Longest (DigitTail isDecimalDigit) t [] →
      NumberRead o (i ++ (blanks ++ ch '.' :: t)) (i ++ (blanks ++ [ch '.']))
        [.make .decIntLiteral o i.length,.fixed .dot (o+i.length+blanks.length)]
  | int {i t : Bytes} : Whole (i ++ t) i → (∀ blanks t', Blank blanks → t ≠ blanks ++ ch '.' :: t') →
      NumberRead o (i ++ t) i [.make .decIntLiteral o i.length]
  | fraction {t v : Bytes} : Longest (DigitTail isDecimalDigit) t v → v ≠ [] →
      NumberRead o (ch '.' :: t) (ch '.' :: v) [.make .floatLiteral o (v.length+1)]
  | dot {t : Bytes} : Longest (DigitTail isDecimalDigit) t [] → NumberRead o (ch '.' :: t) [ch '.'] [.fixed .dot o]

-- The text of a token ends in a byte that is not whitespace.
def EndsVisible (source : SourceView) (token : Token) : Prop :=
  ∃ u b, token.getText source = .ok (u ++ [b]) ∧ isAsciiWhitespace b = false

section Longest
variable {P : Bytes → Prop} {digit : UInt8 → Bool} {b : UInt8} {t u v blanks rest : Bytes}

theorem Longest.unique (first : Longest P t u) (second : Longest P t v) : u = v := by
  have least := second.most u first.front first.is
  have most := first.most v second.front second.is
  exact ( List.prefix_of_prefix_length_le first.front second.front least).eq_of_length_le most

theorem DigitTail.bytes (digits : DigitTail digit u) : ∀ b ∈ u, digit b = true ∨ isAsciiWhitespace b = true := by
  induction digits with
  | nil => simp
  | digit is _ ih => exact List.forall_mem_cons.mpr ⟨.inl is,ih⟩
  | spaced _ blank is _ ih =>
      exact List.forall_mem_append.mpr ⟨fun b member => .inr (blank b member),List.forall_mem_cons.mpr ⟨.inl is,ih⟩⟩

theorem DigitTail.last (digits : DigitTail digit u) : u = [] ∨ ∃ v b, u = v ++ [b] ∧ digit b = true := by
  induction digits with
  | nil => exact .inl rfl
  | @digit b u is _ ih =>
      rcases ih with rfl | ⟨v,d,rfl,last⟩
      · exact .inr ⟨[],b,rfl,is⟩
      · exact .inr ⟨b :: v,d,rfl,last⟩
  | @spaced blanks b u _ _ is _ ih =>
      rcases ih with rfl | ⟨v,d,rfl,last⟩
      · exact .inr ⟨blanks,b,rfl,is⟩
      · exact .inr ⟨blanks ++ b :: v,d,by rw [List.append_assoc,List.cons_append],last⟩

-- Every text begins with digits, and whitespace may stand behind them.
theorem digits_exist (nonzero : digit 0 = false) (t : Bytes) :
    ∃ u blanks rest, t = u ++ (blanks ++ rest) ∧ DigitTail digit u ∧ Blank blanks ∧ Stops digit rest := by
  induction t with
  | nil => exact ⟨[],[],[],rfl,.nil,.nil,nonzero,rfl⟩
  | cons b t ih =>
      obtain ⟨u,blanks,rest,rfl,digits,blank,stops⟩ := ih
      by_cases is : digit b = true
      · exact ⟨b :: u,blanks,rest,rfl,.digit is digits,blank,stops⟩
      by_cases white : isAsciiWhitespace b = true
      · cases digits with
        | nil => exact ⟨[],b :: blanks,rest,rfl,.nil,blank.cons white,stops⟩
        | @digit d u isD digits =>
            exact ⟨[b] ++ d :: u,blanks,rest,rfl,.spaced (List.cons_ne_nil _ _) (Blank.nil.cons white) isD digits,blank,stops⟩
        | @spaced spaces d u _ spacesBlank isD digits =>
            exact ⟨(b :: spaces) ++ d :: u,blanks,rest,rfl,.spaced (List.cons_ne_nil _ _) (spacesBlank.cons white) isD digits,blank,stops⟩
      · exact ⟨[],[],b :: (u ++ (blanks ++ rest)),rfl,.nil,.nil,by simpa using is,by simpa using white⟩

-- What ends in front of whitespace and a byte that does not go on is the longest.
theorem digits_longest (apart : ∀ b, isAsciiWhitespace b = true → digit b = false) (digits : DigitTail digit u)
    (blank : Blank blanks) (stops : Stops digit rest) : Longest (DigitTail digit) (u ++ (blanks ++ rest)) u := by
  refine ⟨ List.prefix_append _ _,digits,fun v pre more => ?_⟩
  by_contra longer
  obtain ⟨z,rfl⟩ := List.prefix_of_prefix_length_le ( List.prefix_append u (blanks ++ rest)) pre (by omega)
  have behind : z <+: blanks ++ rest := (List.prefix_append_right_inj u).mp pre
  rcases List.eq_nil_or_concat z with rfl | ⟨z,d,rfl⟩
  · simp at longer
  rw [List.concat_eq_append] at more behind
  have isDigit : digit d = true := by
    rcases more.last with none_ | ⟨_,_,same,last⟩
    · simp at none_
    · rw [← List.append_assoc] at same
      rw [(List.cons.inj (List.append_inj' same rfl).2).1]
      exact last
  have within : ¬ z ++ [d] <+: blanks := fun within => by
    have white := blank d (within.subset (by simp))
    rw [apart d white] at isDigit
    cases isDigit
  rcases List.prefix_or_prefix_of_prefix behind ( List.prefix_append blanks rest) with inside | ⟨y,same⟩
  · exact within inside
  cases y with
  | nil =>
      rw [List.append_nil] at same
      rw [same] at within
      exact within List.prefix_rfl
  | cons c y =>
      rw [← same] at behind more
      obtain ⟨tail,rfl⟩ := (List.prefix_append_right_inj blanks).mp behind
      rcases more.bytes c (by simp) with is | white
      · rw [show digit c = false from stops.1] at is
        cases is
      · rw [show isAsciiWhitespace c = false from stops.2] at white
        cases white
-- What stands behind the longest digits: whitespace, and a byte that does not go on.
theorem Longest.parts (nonzero : digit 0 = false) (apart : ∀ b, isAsciiWhitespace b = true → digit b = false)
    (longest : Longest (DigitTail digit) t u) : ∃ blanks rest, t = u ++ (blanks ++ rest) ∧ Blank blanks ∧ Stops digit rest := by
  obtain ⟨u',blanks,rest,rfl,digits,blank,stops⟩ := digits_exist nonzero t
  obtain rfl := longest.unique (digits_longest apart digits blank stops)
  exact ⟨blanks,rest,rfl,blank,stops⟩
end Longest

-- What is expected of the lexer in front of a number or a dot: its tokens, and then
-- nothing but whitespace is passed over.
def ReadsNumber (x : Context) (o : Nat) (t w : Bytes) (tokens : List Token) : Prop :=
  ∀ b rest, t = b :: rest → ∃ blanks c', Blank blanks ∧ Moves ⟨o,b :: rest⟩ (w ++ blanks) c' ∧
    handleNextCharacter x b ⟨o,b :: rest⟩ = .ok ⟨.ok (),c',tokens.map .token⟩

section Existence
variable {o : Nat} {b : UInt8} {i t u v blanks gap rest : Bytes}

theorem decimal_apart : ∀ b, isAsciiWhitespace b = true → isDecimalDigit b = false := fun b blank => (blank_table b blank).1

theorem decimal_longest (digits : DigitTail isDecimalDigit u) (blank : Blank blanks) (stops : Stops isDecimalDigit rest) :
    Longest (DigitTail isDecimalDigit) (u ++ (blanks ++ rest)) u :=
  digits_longest decimal_apart digits blank stops

theorem longest_cons (is : isDecimalDigit b = true) (longest : Longest (DigitTail isDecimalDigit) t u) :
    Longest (Digits isDecimalDigit) (b :: t) (b :: u) := by
  refine ⟨List.cons_prefix_cons.mpr ⟨rfl,longest.front⟩,.mk is longest.is,fun v pre digits => ?_⟩
  obtain ⟨_,tail⟩ := digits
  obtain ⟨_,behind⟩ := List.cons_prefix_cons.mp pre
  exact Nat.succ_le_succ (longest.most _ behind tail)

theorem blank_drop (blank : Blank blanks) (visible : isAsciiWhitespace (front ⟨0,rest⟩) = false) :
    (blanks ++ rest).dropWhile isAsciiWhitespace = rest := by
  rw [List.dropWhile_append_of_pos blank]
  cases rest with
  | nil => rfl
  | cons b rest => exact List.dropWhile_cons_of_neg (by rw [show isAsciiWhitespace b = false from visible]; exact Bool.false_ne_true)

-- Whitespace in front of something visible is divided off in one way.
theorem blank_split {blanks' rest' : Bytes} (blank : Blank blanks) (visible : isAsciiWhitespace (front ⟨0,rest⟩) = false)
    (blank' : Blank blanks') (visible' : isAsciiWhitespace (front ⟨0,rest'⟩) = false) (same : blanks ++ rest = blanks' ++ rest') :
    rest = rest' := by
  rw [← blank_drop blank visible,same,blank_drop blank' visible']

theorem number_exists (starts : isDecimalDigit b = true ∨ b = ch '.') (o : Nat) (rest : Bytes) : ∃ w tokens, NumberRead o (b :: rest) w tokens := by
  by_cases based : ∃ marker digit kind t, Based marker digit kind ∧ b :: rest = ch '0' :: marker :: t
  · obtain ⟨marker,digit,kind,t,based,same⟩ := based
    obtain ⟨nonzero,apart⟩ := based.digits
    obtain ⟨u,blanks,rest',rfl,digits,blank,stops⟩ := digits_exist nonzero t
    rw [same]
    exact ⟨_,_,.based based (digits_longest apart digits blank stops)⟩
  have plain : ∀ marker digit kind t, Based marker digit kind → b :: rest ≠ ch '0' :: marker :: t :=
    fun marker digit kind t is same => based ⟨marker,digit,kind,t,is,same⟩
  obtain ⟨u,blanks,rest,rfl,digits,blank,stops⟩ := @digits_exist isDecimalDigit rfl rest
  have longest := decimal_longest digits blank stops
  rcases starts with is | rfl
  · have whole : Whole (b :: (u ++ (blanks ++ rest))) (b :: u) := ⟨longest_cons is longest,plain⟩
    by_cases dotted : ∃ t, rest = ch '.' :: t
    · obtain ⟨t,rfl⟩ := dotted
      obtain ⟨v,gap,rest,rfl,fraction,between,ends⟩ := @digits_exist isDecimalDigit rfl t
      have behind := decimal_longest fraction between ends
      by_cases none_ : v = []
      · subst none_
        exact ⟨_,_,.intDot (i := b :: u) whole blank behind⟩
      · exact ⟨_,_,.float (i := b :: u) whole blank behind none_⟩
    · refine ⟨_,_,.int (i := b :: u) whole fun blanks' t blank' same => ?_⟩
      have dot : isAsciiWhitespace (ch '.') = false := by decide
      exact dotted ⟨t,blank_split blank stops.2 blank' dot same⟩
  · by_cases none_ : u = []
    · subst none_
      exact ⟨_,_,.dot longest⟩
    · exact ⟨_,_,.fraction longest none_⟩
end Existence

section Runs
variable {x : Context} {o : Nat} {b : UInt8} {t w : Bytes} {tokens : List Token}

theorem noMarker_whole {i rest : Bytes} (whole : Whole (b :: rest) i) (zero : b = ch '0') : NoMarker rest := by
  subst zero
  cases rest with
  | nil => exact ⟨by decide,by decide,by decide⟩
  | cons c rest =>
      refine ⟨?_,?_,?_⟩ <;> rintro ⟨rfl⟩
      · exact whole.plain _ _ _ rest .hex rfl
      · exact whole.plain _ _ _ rest .bin rfl
      · exact whole.plain _ _ _ rest .oct rfl

-- A decimal number is dispatched to `handle_decimal_literal`.
theorem Whole.dispatched {i : Bytes} (whole : Whole (i ++ t) i) : ∃ d u, i = d :: u ∧ isDecimalDigit d = true ∧ DigitTail isDecimalDigit u ∧
    ∀ x o, handleNextCharacter x d ⟨o,d :: (u ++ t)⟩ = handleDecimalLiteral o ⟨o+1,u ++ t⟩ := by
  obtain ⟨digit,tail⟩ := whole.longest.is
  rename_i d u
  rw [List.cons_append] at whole
  exact ⟨d,u,rfl,digit,tail,fun x o => handle_digit digit (noMarker_whole whole)⟩

theorem decimal_parts (longest : Longest (DigitTail isDecimalDigit) t u) :
    ∃ blanks rest, t = u ++ (blanks ++ rest) ∧ Blank blanks ∧ Stops isDecimalDigit rest :=
  longest.parts rfl decimal_apart

theorem number_reads (read : NumberRead o t w tokens) : ReadsNumber x o t w tokens := by
  intro b rest same
  cases read with
  | @based marker digit kind t u is longest =>
      obtain ⟨rfl,rfl⟩ := List.cons.inj same
      obtain ⟨nonzero,apart⟩ := is.digits
      obtain ⟨gap,rest,rfl,blank,stops⟩ := longest.parts nonzero apart
      refine ⟨gap,⟨o+2+u.length+gap.length,rest⟩,blank,⟨by simp,?_⟩,onZero_based is longest.is blank stops⟩
      simp only [List.length_append,List.length_cons]
      omega
  | @float i blanks t v whole blank longest some_ =>
      obtain ⟨d,u,rfl,_,tail,dispatched⟩ := whole.dispatched
      obtain ⟨rfl,rfl⟩ := List.cons.inj same
      obtain ⟨gap,rest,rfl,between,stops⟩ := decimal_parts longest
      have ran := float_run (o := o) (p := o+1) tail blank longest.is some_ between stops (Nat.le_succ o)
      have length : o + 1 + u.length + blanks.length - o + 1 + v.length = (d :: u ++ (blanks ++ ch '.' :: v)).length := by
        simp only [List.length_append,List.length_cons]
        omega
      rw [← dispatched x,length] at ran
      refine ⟨gap,_,between,⟨by simp,?_⟩,ran⟩
      simp only [List.length_append,List.length_cons]
      omega
  | @intDot i blanks t whole blank longest =>
      obtain ⟨d,u,rfl,_,tail,dispatched⟩ := whole.dispatched
      obtain ⟨rfl,rfl⟩ := List.cons.inj same
      obtain ⟨gap,rest,rfl,between,stops⟩ := decimal_parts longest
      rw [List.nil_append] at dispatched
      have ran := decIntDot_run (o := o) (p := o+1) tail blank between stops
      have length : o + 1 + u.length - o = (d :: u).length := by
        rw [List.length_cons]
        omega
      have place : o + 1 + u.length + blanks.length = o + (d :: u).length + blanks.length := by
        rw [List.length_cons]
        omega
      rw [← dispatched x,length,place] at ran
      refine ⟨gap,_,between,⟨by simp,?_⟩,ran⟩
      simp only [List.length_append,List.length_cons,List.length_nil]
      omega
  | int whole noDot =>
      obtain ⟨d,u,rfl,digit,tail,dispatched⟩ := whole.dispatched
      rename_i t
      obtain ⟨rfl,rfl⟩ := List.cons.inj same
      obtain ⟨u',blanks,rest,cut,digits,blank,stops⟩ := @digits_exist isDecimalDigit rfl (u ++ t)
      have longest := longest_cons digit (decimal_longest digits blank stops)
      rw [← cut] at longest
      obtain ⟨_,rfl⟩ := List.cons.inj (whole.longest.unique longest)
      obtain rfl := List.append_cancel_left cut
      have other : front ⟨0,rest⟩ ≠ ch '.' := fun dotted => by
        cases rest with
        | nil => exact absurd dotted (by decide)
        | cons c rest =>
            obtain rfl : c = ch '.' := dotted
            exact noDot blanks rest blank rfl
      have ran := decInt_run (o := o) (p := o+1) tail blank stops other
      have length : o + 1 + u.length - o = (d :: u).length := by
        rw [List.length_cons]
        omega
      rw [← dispatched x,length] at ran
      refine ⟨blanks,_,blank,⟨by simp,?_⟩,ran⟩
      simp only [List.length_append,List.length_cons]
      omega
  | @fraction t v longest some_ =>
      obtain ⟨rfl,rfl⟩ := List.cons.inj same
      obtain ⟨gap,rest,rfl,blank,stops⟩ := decimal_parts longest
      refine ⟨gap,⟨o+1+v.length+gap.length,rest⟩,blank,⟨by simp,?_⟩,onDot_float longest.is some_ blank stops⟩
      simp only [List.length_append,List.length_cons]
      omega
  | @dot t longest =>
      obtain ⟨rfl,rfl⟩ := List.cons.inj same
      obtain ⟨gap,rest,rfl,blank,stops⟩ := decimal_parts longest
      refine ⟨gap,⟨o+1+gap.length,rest⟩,blank,⟨rfl,?_⟩,onDot_dot blank stops⟩
      simp only [List.length_append,List.length_cons,List.length_nil]
      omega
end Runs

section Visible
variable {source : SourceView} {o : Nat} {d : UInt8} {t v w K : Bytes} {tokens : List Token} {digit : UInt8 → Bool}

theorem visible_make (here : At source ⟨o,w ++ K⟩) (kind : TokenKind) (same : w = v ++ [d]) (visible : isAsciiWhitespace d = false) :
    EndsVisible source (.make kind o w.length) := by
  have moved : Moves ⟨o,w ++ K⟩ w ⟨o+w.length,K⟩ := ⟨rfl,rfl⟩
  have some_ : w ≠ [] := by simp [same]
  refine ⟨v,d,?_,visible⟩
  rw [← same]
  exact make_getText here moved some_ kind

theorem visible_dot (o : Nat) : EndsVisible source (.fixed .dot o) := ⟨[],ch '.',fixed_getText rfl,by decide⟩

theorem visible_of (apart : ∀ b, isAsciiWhitespace b = true → digit b = false) (is : digit d = true) : isAsciiWhitespace d = false := by
  by_contra white
  rw [apart d (by simpa using white)] at is
  cases is

theorem visible_tail (apart : ∀ b, isAsciiWhitespace b = true → digit b = false) (digits : DigitTail digit w) (some_ : w ≠ []) :
    ∃ v d, w = v ++ [d] ∧ isAsciiWhitespace d = false := by
  rcases digits.last with none_ | ⟨v,d,same,is⟩
  · exact absurd none_ some_
  · exact ⟨v,d,same,visible_of apart is⟩

theorem visible_whole {i K : Bytes} (whole : Whole (i ++ K) i) (here : At source ⟨o,i ++ K⟩) :
    EndsVisible source (.make .decIntLiteral o i.length) := by
  obtain ⟨is,tail⟩ := whole.longest.is
  obtain ⟨v,d,same,visible⟩ := visible_tail decimal_apart (.digit is tail) (List.cons_ne_nil _ _)
  exact visible_make here .decIntLiteral same visible

theorem number_visible (read : NumberRead o t w tokens) (here : At source ⟨o,t⟩) : ∀ token ∈ tokens, EndsVisible source token := by
  cases read with
  | @based marker digit kind t u is longest =>
      obtain ⟨K,rfl⟩ := longest.front
      refine List.forall_mem_singleton.mpr ?_
      have here' : At source ⟨o,(ch '0' :: marker :: u) ++ K⟩ := here
      by_cases none_ : u = []
      · subst none_
        exact visible_make here' kind (v := [ch '0']) rfl (by cases is <;> decide)
      · obtain ⟨v,d,same,visible⟩ := visible_tail is.digits.2 longest.is none_
        exact visible_make here' kind (v := ch '0' :: marker :: v) (by rw [same]; rfl) visible
  | @float i blanks t v whole blank longest some_ =>
      obtain ⟨K,rfl⟩ := longest.front
      refine List.forall_mem_singleton.mpr ?_
      obtain ⟨u,d,same,visible⟩ := visible_tail decimal_apart longest.is some_
      have here' : At source ⟨o,(i ++ (blanks ++ ch '.' :: v)) ++ K⟩ := by simpa using here
      exact visible_make here' .floatLiteral (v := i ++ (blanks ++ ch '.' :: u)) (by rw [same]; simp) visible
  | @intDot i blanks t whole blank longest =>
      exact List.forall_mem_cons.mpr ⟨visible_whole whole here,List.forall_mem_singleton.mpr (visible_dot _)⟩
  | @int i t whole noDot => exact List.forall_mem_singleton.mpr (visible_whole whole here)
  | @fraction t v longest some_ =>
      obtain ⟨K,rfl⟩ := longest.front
      refine List.forall_mem_singleton.mpr ?_
      obtain ⟨u,d,same,visible⟩ := visible_tail decimal_apart longest.is some_
      have here' : At source ⟨o,(ch '.' :: v) ++ K⟩ := here
      exact visible_make here' .floatLiteral (v := ch '.' :: u) (by rw [same]; rfl) visible
  | dot longest => exact List.forall_mem_singleton.mpr (visible_dot _)
end Visible

theorem numeric_literals (x : Context) (o : Nat) (b : UInt8) (rest : Bytes) (here : At x.source ⟨o,b :: rest⟩)
    (starts : isDecimalDigit b = true ∨ b = ch '.') : (∃ w tokens, NumberRead o (b :: rest) w tokens) ∧
      ∀ w tokens, NumberRead o (b :: rest) w tokens →
        ReadsNumber x o (b :: rest) w tokens ∧ ∀ token ∈ tokens, EndsVisible x.source token :=
  ⟨number_exists starts o rest,fun _ _ read => ⟨number_reads read,number_visible read here⟩⟩

-- A float literal with whitespace around its dot.
def spacedFloat : Context := ⟨⟨text "1 2 .\n5 ;",""⟩,.none,4⟩

theorem numeric_literals_spacedFloat : (∃ w tokens, NumberRead 0 (text "1 2 .\n5 ;") w tokens) ∧
    ∀ w tokens, NumberRead 0 (text "1 2 .\n5 ;") w tokens →
      ReadsNumber spacedFloat 0 (text "1 2 .\n5 ;") w tokens ∧ ∀ token ∈ tokens, EndsVisible spacedFloat.source token :=
  numeric_literals spacedFloat 0 (ch '1') (text " 2 .\n5 ;") ⟨by decide,by decide,by decide⟩ (by decide)
end Cero.Lexer
