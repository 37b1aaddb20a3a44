import Cero.LexerTiling
import Cero.NumberExtent
import Cero.QuotedLiterals
import Cero.WordExtent

-- What follows a token has no part in it: cut off behind the token, the lexer makes
-- the same of it.
namespace Cero.Lexer
open Effect SourceCursor

-- A source that is `w` alone is lexed to one token of the kind, and `w` is its text.
def LexesAs (kind : TokenKind) (w : Bytes) : Prop := ∀ (path : String) (tabSize : UInt8), ∃ token reports,
  runLexer ⟨w,path⟩ ⟨true⟩ tabSize = .ok ([token,.fixed .endOfFile w.length],reports) ∧
    token.kind = kind ∧ token.offset.toNat = 0 ∧ token.getText ⟨w,path⟩ = .ok w

-- In front of `w` alone the handler puts one token, for the whole of it.
def PutsWhole (kind : TokenKind) (w : Bytes) : Prop := ∀ x : Context, x.flags.emitComments = true → At x.source ⟨0,w⟩ →
  ∀ b rest, w = b :: rest → Holds (handleNextCharacter x b) ⟨0,b :: rest⟩ fun _ _ log =>
    ∃ token, tokensOf log = [token] ∧ token.kind = kind ∧ token.getText x.source = .ok w

-- What a handler is asked for: its tokens are of fixed length or come out of their
-- texts again.
def Standing (x : Context) (log : List Event) : Prop := ∀ token ∈ tokensOf log,
  token.variableLength = 0 ∨ ∃ w, token.getText x.source = .ok w ∧ PutsWhole token.kind w

section Parts
variable {x : Context} {o : Nat} {kind : TokenKind} {w K : Bytes} {log : List Event}

theorem whole_make (some_ : w ≠ []) (ran : ∀ x : Context, x.flags.emitComments = true → At x.source ⟨0,w⟩ →
    ∀ b rest, w = b :: rest → Holds (handleNextCharacter x b) ⟨0,b :: rest⟩ fun _ _ log => tokensOf log = [.make kind 0 w.length]) :
    PutsWhole kind w := by
  intro x emit here b rest same
  have moved : Moves ⟨0,w⟩ w ⟨0+w.length,[]⟩ := ⟨(List.append_nil w).symm,rfl⟩
  refine holds_weaken (ran x emit here b rest same) fun _ _ log put => ?_
  exact ⟨_,put,rfl,make_getText here moved some_ kind⟩

theorem standing_make (here : At x.source ⟨o,w ++ K⟩) (some_ : w ≠ []) (put : tokensOf log = [.make kind o w.length])
    (whole : PutsWhole kind w) : Standing x log := by
  have moved : Moves ⟨o,w ++ K⟩ w ⟨o+w.length,K⟩ := ⟨rfl,rfl⟩
  intro token member
  rw [put] at member
  rw [List.mem_singleton.mp member]
  exact .inr ⟨w,make_getText here moved some_ kind,whole⟩

end Parts

section Words
variable {x : Context} {xid : Xid} {ascii : UInt8 → Bool} {b : UInt8} {c v rest start u after : Bytes}

-- What is claimed depends on the bytes that are claimed only.
theorem claimed_between (reaches : claimed b rest <+: v) (front : v <+: rest) : claimed b v = claimed b rest := by
  unfold claimed at reaches ⊢
  split
  · rename_i multi
    rw [if_pos multi] at reaches
    have there : trailing b v <+: trailing b rest :=
      List.prefix_take_iff.mpr ⟨( List.take_prefix _ v).trans front,trailing_length⟩
    have back : trailing b rest <+: trailing b v := List.prefix_take_iff.mpr ⟨reaches,trailing_length⟩
    exact there.eq_of_length_le back.length_le
  · rfl

theorem accepts_between (same : claimed b v = claimed b rest) : accepts xid b v = accepts xid b rest := by
  unfold accepts
  cases multi : isMultibyteLead b with
  | false => rfl
  | true =>
      rw [claimed,claimed,if_pos multi,if_pos multi] at same
      rw [same]

theorem nameCharacter_cut (some_ : c ≠ []) (found : nameCharacter ascii xid (c ++ after) = c.length) (front : v <+: after) :
    nameCharacter ascii xid (c ++ v) = c.length := by
  cases c with
  | nil => exact absurd rfl some_
  | cons b t =>
      rw [List.cons_append,nameCharacter]
      rcases nameCharacter_cases found with ⟨is,rfl⟩ | ⟨is,high,accepted,all⟩
      · rw [if_pos is]
        rfl
      · have same : claimed b (t ++ v) = claimed b (t ++ after) := by
          apply claimed_between
          · rw [all]
            exact ( List.prefix_append t v)
          · exact (List.prefix_append_right_inj t).mpr front
        have accepted' : accepts xid b (t ++ v) = true := (accepts_between same).trans accepted
        rw [is,high,accepted',same,all,List.length_cons,Nat.add_comm t.length]
        rfl

theorem rejected_rejected (after : Bytes) : rejected (rejected after) = rejected after := by
  cases after with
  | nil => rfl
  | cons b rest =>
      have cut : claimed b (claimed b rest) = claimed b rest := claimed_between List.prefix_rfl (claimed_isPrefix b rest)
      by_cases low : isAscii b = true
      · rw [show rejected (b :: rest) = [] from if_pos low]
        rfl
      · rw [show rejected (b :: rest) = b :: claimed b rest from if_neg low]
        rw [show rejected (b :: claimed b rest) = b :: claimed b (claimed b rest) from if_neg low,cut]

-- The character that is rejected behind a run is rejected without what follows it too.
theorem longestRun_cut (run : LongestRun u after) : LongestRun u (rejected after) := by
  induction run with
  | @stop after none_ =>
      apply LongestRun.stop
      cases after with
      | nil => exact none_
      | cons b rest =>
          obtain ⟨notIdentifier,low | ⟨high,refused⟩⟩ := nameCharacter_none none_
          · rw [show rejected (b :: rest) = [] from if_pos low]
            rfl
          · have cut : claimed b (claimed b rest) = claimed b rest := claimed_between List.prefix_rfl (claimed_isPrefix b rest)
            have refused' : accepts .continue_ b (claimed b rest) = false := (accepts_between cut).trans refused
            rw [show rejected (b :: rest) = b :: claimed b rest from if_neg (by rw [high]; exact Bool.false_ne_true)]
            rw [identifierCharacter,nameCharacter,notIdentifier,high,refused']
            rfl
  | @more c u after some_ found _ ih =>
      refine .more some_ (nameCharacter_cut some_ found ?_) ih
      exact (List.prefix_append_right_inj u).mpr (rejected_isPrefix after)

theorem word_cut (word : Word start u after) : Word start u (rejected after) := by
  refine ⟨word.some_,nameCharacter_cut word.some_ word.starts ?_,longestRun_cut word.run⟩
  exact (List.prefix_append_right_inj u).mpr (rejected_isPrefix after)

theorem word_exists (starts : startCharacter (b :: rest) ≠ 0) : ∃ start u after, b :: rest = start ++ (u ++ after) ∧ Word start u after := by
  have within : startCharacter (b :: rest) ≤ (b :: rest).length := nameCharacter_within
  obtain ⟨u,after,same,run⟩ := longestRun_exists ((b :: rest).drop (startCharacter (b :: rest)))
  have length : ((b :: rest).take (startCharacter (b :: rest))).length = startCharacter (b :: rest) := by
    rw [List.length_take,Nat.min_eq_left within]
  have whole : (b :: rest).take (startCharacter (b :: rest)) ++ (u ++ after) = b :: rest := by rw [← same,List.take_append_drop]
  refine ⟨_,u,after,whole.symm,?_,?_,run⟩
  · exact List.ne_nil_of_length_pos (by omega)
  · rw [whole,length]

theorem wordToken_kind (o p : Nat) (word : Bytes) : (wordToken o word).kind = (wordToken p word).kind := by
  unfold wordToken
  split <;> rfl

theorem wordToken_getText {source : SourceView} {o : Nat} {word K : Bytes} (here : At source ⟨o,word ++ K⟩) (some_ : word ≠ []) :
    (wordToken o word).getText source = .ok word := by
  have moved : Moves ⟨o,word ++ K⟩ word ⟨o+word.length,K⟩ := ⟨rfl,rfl⟩
  rcases wordToken_cases o word with ⟨entry,member,rfl,token⟩ | token <;> rw [token]
  · exact fixed_getText (keyword_sound member).1
  · exact make_getText here moved some_ .identifier

theorem word_whole (word : Word start u after) (o : Nat) :
    PutsWhole (wordToken o (start ++ (u ++ rejected after))).kind (start ++ (u ++ rejected after)) := by
  intro x emit here b rest same
  have some_ : start ++ (u ++ rejected after) ≠ [] := by simp [word.some_]
  refine holds_weaken (word_exact (word_cut word) here b rest same) ?_
  rintro _ _ log ⟨put,_⟩
  rw [rejected_rejected] at put
  refine ⟨_,put,wordToken_kind 0 o _,?_⟩
  exact wordToken_getText (K := []) (by rw [List.append_nil]; exact here) some_

theorem word_standing {o : Nat} (here : At x.source ⟨o,b :: rest⟩) (starts : startCharacter (b :: rest) ≠ 0) :
    Holds (handleNextCharacter x b) ⟨o,b :: rest⟩ fun _ _ log => Standing x log := by
  obtain ⟨start,u,after,same,word⟩ := word_exists starts
  obtain ⟨K,cut⟩ := rejected_isPrefix after
  have some_ : start ++ (u ++ rejected after) ≠ [] := by simp [word.some_]
  rw [same] at here
  refine holds_weaken (word_exact word here b rest same.symm) ?_
  rintro _ _ log ⟨put,_⟩ token member
  rw [put] at member
  rw [List.mem_singleton.mp member]
  refine .inr ⟨_,wordToken_getText (K := K) ?_ some_,word_whole word o⟩
  rw [List.append_assoc,List.append_assoc,cut]
  exact here
end Words

section Numbers
variable {x : Context} {P : Bytes → Prop} {o : Nat} {b : UInt8} {kind : TokenKind} {t u v i w rest : Bytes} {tokens : List Token} {token : Token}

theorem Longest.cut (longest : Longest P t u) (front : v <+: t) (reaches : u <+: v) : Longest P v u :=
  ⟨reaches,longest.is,fun w pre is => longest.most w (pre.trans front) is⟩

theorem Whole.cut (whole : Whole t i) (front : v <+: t) (reaches : i <+: v) : Whole v i := by
  refine ⟨whole.longest.cut front reaches,fun marker digit kind t' based same => ?_⟩
  obtain ⟨K,rfl⟩ := front
  apply whole.plain marker digit kind (t' ++ K) based
  rw [same]
  rfl

theorem integer_alone (whole : Whole t i) : i ≠ [] ∧ NumberRead 0 i i [.make .decIntLiteral 0 i.length] := by
  have some_ : i ≠ [] := by
    obtain ⟨_,_⟩ := whole.longest.is
    exact List.cons_ne_nil _ _
  have cut : Whole (i ++ []) i := by
    rw [List.append_nil]
    exact whole.cut whole.longest.front List.prefix_rfl
  have alone : NumberRead 0 (i ++ []) i [.make .decIntLiteral 0 i.length] := .int cut fun _ _ _ same => by simp at same
  rw [List.append_nil] at alone
  exact ⟨some_,alone⟩

-- A literal of the number is the number that its own text begins with.
theorem number_cut (read : NumberRead o t w tokens) (member : token ∈ tokens) : token.variableLength = 0 ∨
    ∃ kind i, i <+: t ∧ i ≠ [] ∧ token = .make kind o i.length ∧ NumberRead 0 i i [.make kind 0 i.length] := by
  cases read with
  | @based marker digit kind t u is longest =>
      rw [List.mem_singleton.mp member]
      have cut := longest.cut longest.front List.prefix_rfl
      have front : ch '0' :: marker :: u <+: ch '0' :: marker :: t :=
        List.cons_prefix_cons.mpr ⟨rfl,List.cons_prefix_cons.mpr ⟨rfl,longest.front⟩⟩
      exact .inr ⟨kind,_,front,List.cons_ne_nil _ _,rfl,.based is cut⟩
  | @float i blanks t v whole blank longest some_ =>
      rw [List.mem_singleton.mp member]
      have front : i ++ (blanks ++ ch '.' :: v) <+: i ++ (blanks ++ ch '.' :: t) := by
        simp only [List.prefix_append_right_inj]
        exact List.cons_prefix_cons.mpr ⟨rfl,longest.front⟩
      have cut := whole.cut front ( List.prefix_append _ _)
      exact .inr ⟨.floatLiteral,_,front,by simp,rfl,.float cut blank (longest.cut longest.front List.prefix_rfl) some_⟩
  | @intDot i blanks t whole blank longest =>
      rcases List.mem_cons.mp member with rfl | second
      · obtain ⟨some_,alone⟩ := integer_alone whole
        exact .inr ⟨.decIntLiteral,i,whole.longest.front,some_,rfl,alone⟩
      · rw [List.mem_singleton.mp second]
        exact .inl rfl
  | int whole noDot =>
      rw [List.mem_singleton.mp member]
      obtain ⟨some_,alone⟩ := integer_alone whole
      exact .inr ⟨.decIntLiteral,w,whole.longest.front,some_,rfl,alone⟩
  | @fraction t v longest some_ =>
      rw [List.mem_singleton.mp member]
      have front : ch '.' :: v <+: ch '.' :: t := List.cons_prefix_cons.mpr ⟨rfl,longest.front⟩
      exact .inr ⟨.floatLiteral,_,front,List.cons_ne_nil _ _,rfl,.fraction (longest.cut longest.front List.prefix_rfl) some_⟩
  | dot longest =>
      rw [List.mem_singleton.mp member]
      exact .inl rfl

theorem number_whole (some_ : i ≠ []) (read : NumberRead 0 i i [.make kind 0 i.length]) : PutsWhole kind i := by
  apply whole_make some_
  intro x _ _ b rest same
  obtain ⟨_,c',_,_,ran⟩ := number_reads (x := x) read b rest same
  exact ⟨_,c',_,ran,rfl⟩

theorem number_standing (here : At x.source ⟨o,b :: rest⟩) (starts : isDecimalDigit b = true ∨ b = ch '.') :
    Holds (handleNextCharacter x b) ⟨o,b :: rest⟩ fun _ _ log => Standing x log := by
  obtain ⟨w,tokens,read⟩ := number_exists starts o rest
  obtain ⟨_,c',_,_,ran⟩ := number_reads (x := x) read b rest rfl
  refine ⟨_,c',_,ran,fun token member => ?_⟩
  rw [tokensOf_tokens] at member
  rcases number_cut read member with fixed | ⟨kind,i,⟨K,cut⟩,some_,rfl,alone⟩
  · exact .inl fixed
  · rw [← cut] at here
    have moved : Moves ⟨o,i ++ K⟩ i ⟨o+i.length,K⟩ := ⟨rfl,rfl⟩
    exact .inr ⟨i,make_getText here moved some_ kind,number_whole some_ alone⟩
end Numbers

section Literals
variable {x : Context} {kind : TokenKind} {quote : UInt8} {o : Nat} {u after rest : Bytes}

theorem closed_whole (quoteOf : QuoteOf kind quote) (literal : Literal quote u after) (plain : Plain u) :
    PutsWhole kind (quote :: (u ++ [quote])) := by
  have closed : Closed quote u [quote] := ⟨⟨[],rfl⟩,plain⟩
  have cut : Literal quote u [quote] := ⟨literal.inside,literal.escaped,.inl closed⟩
  apply whole_make (List.cons_ne_nil _ _)
  intro x _ _ b rest same
  obtain ⟨rfl,rfl⟩ := List.cons.inj same
  obtain ⟨c',ran⟩ := read_closed (x := x) (o := 0) quoteOf cut closed
  rw [handle_quote quoteOf]
  exact ⟨_,c',_,ran,by simp⟩

theorem open_whole (quoteOf : QuoteOf kind quote) (literal : Literal quote u after) : PutsWhole kind (quote :: u) := by
  have end_ : CutByEnd [] := .inl rfl
  have cut : Literal quote u [] := ⟨literal.inside,literal.escaped,.inr (.inr end_)⟩
  apply whole_make (List.cons_ne_nil _ _)
  intro x _ _ b rest same
  obtain ⟨rfl,rfl⟩ := List.cons.inj same
  obtain ⟨c',ran⟩ := read_end (x := x) (o := 0) kind cut end_
  rw [List.append_nil] at ran
  rw [handle_quote quoteOf]
  exact ⟨_,c',_,ran,by simp⟩

theorem quote_standing (quoteOf : QuoteOf kind quote) (here : At x.source ⟨o,quote :: rest⟩) :
    Holds (handleNextCharacter x quote) ⟨o,quote :: rest⟩ fun _ _ log => Standing x log := by
  obtain ⟨u,after,rfl,literal⟩ := literal_exists quote rest
  rw [handle_quote quoteOf]
  rcases literal.ends with closed | line | end_
  · obtain ⟨c',ran⟩ := read_closed (x := x) (o := o) quoteOf literal closed
    obtain ⟨⟨K,rfl⟩,plain⟩ := closed
    have whole : quote :: (u ++ [quote]) ++ K = quote :: (u ++ quote :: K) := by simp
    rw [← whole] at here
    exact ⟨_,c',_,ran,standing_make here (List.cons_ne_nil _ _) (by simp) (closed_whole quoteOf literal plain)⟩
  · obtain ⟨c',made,ran,_⟩ := read_line kind literal line here
    exact ⟨_,c',_,ran,standing_make (w := quote :: u) here (List.cons_ne_nil _ _) rfl (open_whole quoteOf literal)⟩
  · obtain ⟨c',ran⟩ := read_end (x := x) (o := o) kind literal end_
    exact ⟨_,c',_,ran,standing_make (w := quote :: u) here (List.cons_ne_nil _ _) rfl (open_whole quoteOf literal)⟩
end Literals

section Comments
variable {x : Context} {o : Nat} {b : UInt8} {t u w gap rest : Bytes} {p : Piece} {read ps : List Piece} {log : List Event}

theorem Handled.ran (handled : Handled x o w gap rest log) (same : w ++ (gap ++ rest) = b :: t) :
    ∃ c', handleNextCharacter x b ⟨o,b :: t⟩ = .ok ⟨.ok (),c',log⟩ := by
  obtain ⟨d,u,rfl,_,ran⟩ := handled
  obtain ⟨rfl,_⟩ := List.cons.inj same
  rw [same] at ran
  exact ⟨_,ran⟩

theorem line_exists (rest : Bytes) : ∃ u after, rest = u ++ after ∧ (∀ b ∈ u, b ≠ ch '\n' ∧ b ≠ 0) ∧ LineStops after := by
  induction rest with
  | nil => exact ⟨[],[],rfl,by simp,.inl rfl⟩
  | cons b rest ih =>
      by_cases null : b = 0
      · exact ⟨[],b :: rest,rfl,by simp,.inl null⟩
      by_cases newline : b = ch '\n'
      · exact ⟨[],b :: rest,rfl,by simp,.inr newline⟩
      · obtain ⟨u,after,rfl,line,stops⟩ := ih
        exact ⟨b :: u,after,rfl,List.forall_mem_cons.mpr ⟨⟨newline,null⟩,line⟩,stops⟩

theorem lineComment_whole (line : ∀ b ∈ u, b ≠ ch '\n' ∧ b ≠ 0) : PutsWhole .lineComment (text "//" ++ u) := by
  apply whole_make (List.cons_ne_nil _ _)
  intro x emit _ b rest same
  have stops : LineStops [] := .inl rfl
  obtain ⟨c',ran⟩ := (lineComment_handled (x := x) (o := 0) emit line stops).ran (by rw [List.append_nil,List.append_nil]; exact same)
  exact ⟨_,c',_,ran,rfl⟩

theorem lineComment_standing (emit : x.flags.emitComments = true) (here : At x.source ⟨o,ch '/' :: ch '/' :: t⟩) :
    Holds (handleNextCharacter x (ch '/')) ⟨o,ch '/' :: ch '/' :: t⟩ fun _ _ log => Standing x log := by
  obtain ⟨u,after,rfl,line,stops⟩ := line_exists t
  obtain ⟨c',ran⟩ := (lineComment_handled (x := x) (o := o) emit line stops).ran rfl
  exact ⟨_,c',_,ran,standing_make (w := text "//" ++ u) here (List.cons_ne_nil _ _) rfl (lineComment_whole line)⟩

theorem begins_cut (begins : p.Begins (u ++ rest)) : p.Begins u := by
  cases p with
  | opening => trivial
  | closing => trivial
  | single b =>
      cases u with
      | nil => exact ⟨fun _ => .inr rfl,fun _ => .inr rfl⟩
      | cons c u =>
          refine ⟨fun slash => .inl ?_,fun star => .inl ?_⟩
          · exact (begins.1 slash).resolve_right (List.cons_ne_nil _ _)
          · exact (begins.2 star).resolve_right (List.cons_ne_nil _ _)

-- Cut off behind a piece a text has no other pieces than before.
theorem pieces_cut (cut : pieces t = read ++ ps) : pieces (spelled read) = read := by
  induction read generalizing t with
  | nil => rfl
  | cons p read ih =>
      obtain ⟨t,rfl,begins,behind⟩ : ∃ t', t = p.bytes ++ t' ∧ p.Begins t' ∧ pieces t' = read ++ ps := pieces_cons cut
      have whole : t = spelled read ++ spelled ps := by rw [← spelled_append,← behind,spelled_pieces]
      rw [whole] at begins
      rw [spelled_cons,pieces_begins (begins_cut begins),ih behind]

theorem behind_short (here : At x.source ⟨o,ch '/' :: ch '*' :: t⟩) : t.length ≤ sourceSizeMax := by
  have size := here.length
  have fits := here.fits
  simp only [List.length_cons] at size
  omega

theorem blockComment_whole (ends : Nesting.FirstZero Piece.change 1 (pieces u) ∨ Nesting.NeverZero Piece.change 1 (pieces u)) :
    PutsWhole .blockComment (ch '/' :: ch '*' :: u) := by
  apply whole_make (List.cons_ne_nil _ _)
  intro x emit here b rest same
  obtain ⟨rfl,rfl⟩ := List.cons.inj same
  have short := behind_short here
  rcases ends with first | never
  · have passed : consumeBlockComment x 0 ⟨0+2,u⟩ = _ := consumeBlockComment_closed short 0 (List.append_nil _).symm first
    rw [spelled_pieces] at passed
    exact ⟨_,_,_,blockComment_run emit passed,rfl⟩
  · obtain ⟨made,passed,_⟩ := consumeBlockComment_open (o := 0+2) here.fits here.inside short never
    exact ⟨_,_,_,blockComment_run emit passed,rfl⟩

theorem blockComment_standing (emit : x.flags.emitComments = true) (here : At x.source ⟨o,ch '/' :: ch '*' :: t⟩) :
    Holds (handleNextCharacter x (ch '/')) ⟨o,ch '/' :: ch '*' :: t⟩ fun _ _ log => Standing x log := by
  have short := behind_short here
  rcases Nesting.firstZero_or_never Piece.change 1 (pieces t) with never | ⟨read,⟨ps,cut⟩,first⟩
  · obtain ⟨made,passed,_⟩ := consumeBlockComment_open (o := o+2) here.fits here.inside short never
    refine ⟨_,_,_,blockComment_run emit passed,?_⟩
    rw [← List.append_nil t] at here
    exact standing_make (w := ch '/' :: ch '*' :: t) here (List.cons_ne_nil _ _) rfl (blockComment_whole (.inr never))
  · have passed : consumeBlockComment x o ⟨o+2,t⟩ = _ := consumeBlockComment_closed short o cut.symm first
    have same : t = spelled read ++ spelled ps := by rw [← spelled_append,cut,spelled_pieces]
    have ends : Nesting.FirstZero Piece.change 1 (pieces (spelled read)) := by rwa [pieces_cut cut.symm]
    refine ⟨_,_,_,blockComment_run emit passed,?_⟩
    rw [same] at here
    exact standing_make (w := ch '/' :: ch '*' :: spelled read) here (List.cons_ne_nil _ _) rfl (blockComment_whole (.inl ends))
end Comments

section Fixed
variable {x : Context} {o : Nat} {b : UInt8} {kind : TokenKind} {w rest : Bytes} {m n : Lexer Unit}

theorem fixed_whole (spelled : fixedText kind = some w) (notEnd : kind ≠ .endOfFile) : PutsWhole kind w := by
  intro x _ here b rest same
  have ends : LineEnds [] := .inl rfl
  have handled : Handled x 0 w [] [] [.token (.fixed kind 0)] := by
    by_cases dot : kind = .dot
    · subst dot
      obtain rfl := Option.some.inj spelled
      have stops : Stops isDecimalDigit [] := ⟨rfl,rfl⟩
      exact dot_handled (.inl ⟨rfl,rfl⟩) stops
    by_cases word : isWord kind = true
    · exact keyword_handled (fixed_keyword spelled word) (by rw [List.append_nil]; exact here) ends
    · exact fixed_handled spelled notEnd dot (by simpa using word) ends
  obtain ⟨c',ran⟩ := handled.ran (by rw [List.append_nil,List.append_nil]; exact same)
  exact ⟨_,c',_,ran,_,rfl,rfl,fixed_getText spelled⟩

-- The tokens that are put have the texts of their kinds.
def PutsFixed (m : Lexer Unit) : Prop := ∀ c, Holds m c fun _ _ log => ∀ token ∈ tokensOf log, token.variableLength = 0

theorem putsFixed_put : PutsFixed (put (.fixed kind o)) := by
  intro c
  exact holds_tell (List.forall_mem_singleton.mpr rfl)

theorem putsFixed_seq (first : PutsFixed m) (second : PutsFixed n) : PutsFixed (do m; n) := by
  intro c
  refine holds_bind (first c) fun _ c' log fixed => holds_weaken (second c') fun _ _ more fixed' => ?_
  rw [tokensOf_append]
  exact List.forall_mem_append.mpr ⟨fixed,fixed'⟩

theorem putsFixed_match (expected : UInt8) (matched : PutsFixed m) (other : PutsFixed n) :
    PutsFixed (do if ← matchChar expected then m else n) := by
  intro c
  rcases matchChar_spec expected c with ⟨_,_,rfl,ran⟩ | ⟨_,ran⟩
  · exact holds_silent ran (matched _)
  · exact holds_silent ran (other c)

theorem putsFixed_chain (chain : MatchChain) (o : Nat) : PutsFixed (chain.run o) := by
  induction chain with
  | put kind => exact putsFixed_put
  | ifMatch expected matched other ihMatched ihOther => exact putsFixed_match expected ihMatched ihOther

theorem rightAngle_fixed : Holds onRightAngle ⟨o,b :: rest⟩ fun _ _ log => ∀ token ∈ tokensOf log, token.variableLength = 0 := by
  apply holds_silent getOffsetAndAdvance_run
  apply putsFixed_match
  · apply putsFixed_match
    · exact putsFixed_put
    · exact putsFixed_seq putsFixed_put putsFixed_put
  · exact putsFixed_match _ putsFixed_put putsFixed_put

theorem slash_fixed (notLine : ∀ t, rest ≠ ch '/' :: t) (notBlock : ∀ t, rest ≠ ch '*' :: t) :
    Holds (handleNextCharacter x (ch '/')) ⟨o,ch '/' :: rest⟩ fun _ _ log => ∀ token ∈ tokensOf log, token.variableLength = 0 := by
  apply holds_silent getOffsetAndAdvance_run
  rcases matchChar_spec (ch '/') ⟨o+1,rest⟩ with ⟨_,t,⟨rfl,rfl⟩,_⟩ | ⟨_,line⟩
  · exact absurd rfl (notLine t)
  apply holds_silent line
  rcases matchChar_spec (ch '*') ⟨o+1,rest⟩ with ⟨_,t,⟨rfl,rfl⟩,_⟩ | ⟨_,block⟩
  · exact absurd rfl (notBlock t)
  apply holds_silent block
  exact putsFixed_match _ putsFixed_put putsFixed_put _

-- A byte that begins no name puts no token here.
theorem onOtherChar_refused (here : At x.source ⟨o,b :: rest⟩) (refused : accepts .start b rest = false) :
    Holds (onOtherChar x b) ⟨o,b :: rest⟩ fun _ _ log => tokensOf log = [] := by
  obtain ⟨log,ran,quiet,_⟩ := consumeMultibyteUtf8Char_exact .start here
  rw [refused] at ran
  apply holds_silent getOffsetAndAdvance_run
  apply holds_step (show consumeMultibyteUtf8Char x b o isUtf8XidStartChar _ = _ from ran)
  exact holds_pure (by rw [List.append_nil]; exact quiet)

theorem ascii_refused (low : isAscii b = true) : accepts .start b rest = false := by
  have table : ∀ n : Fin 256, isAscii ⟨⟨n⟩⟩ = true → isMultibyteLead ⟨⟨n⟩⟩ = false := by decide +kernel
  have single : isMultibyteLead b = false := table b.toFin low
  rw [accepts,single,Bool.false_and]
end Fixed

section Source
variable {x : Context} {o : Nat} {b : UInt8} {kind : TokenKind} {w rest : Bytes} {c c' : SourceCursor} {log : List Event} {token : Token}

theorem nonzero_digit (range : ch '1' ≤ b ∧ b ≤ ch '9') : isDecimalDigit b = true := by
  have table : ∀ n : Fin 256, ch '1' ≤ (⟨⟨n⟩⟩ : UInt8) ∧ (⟨⟨n⟩⟩ : UInt8) ≤ ch '9' → isDecimalDigit ⟨⟨n⟩⟩ = true := by decide +kernel
  exact table b.toFin range

-- The handlers that are left put tokens of fixed length only.
theorem operator_fixed (here : At x.source ⟨o,b :: rest⟩) (notWord : startCharacter (b :: rest) = 0) (notDigit : isDecimalDigit b ≠ true)
    (notDot : b ≠ ch '.') (notSlash : b ≠ ch '/') (notQuote : b ≠ ch '"' ∧ b ≠ ch '\'') :
    Holds (handleNextCharacter x b) ⟨o,b :: rest⟩ fun _ _ log => ∀ token ∈ tokensOf log, token.variableLength = 0 := by
  obtain ⟨notStart,other⟩ := nameCharacter_none notWord
  have none_ : ∀ log, tokensOf log = [] → ∀ token ∈ tokensOf log, token.variableLength = 0 := by
    intro log none_ token member
    rw [none_] at member
    cases member
  have refused : accepts .start b rest = false := by
    rcases other with low | ⟨_,refused⟩
    · exact ascii_refused low
    · exact refused
  apply handle_dispatched (P := fun m => Holds m ⟨o,b :: rest⟩ fun _ _ log => ∀ token ∈ tokensOf log, token.variableLength = 0)
  constructor
  case blank => exact fun _ => ⟨_,_,_,advance_run,none_ [] rfl⟩
  case upper => exact fun upper => absurd (notStart.symm.trans (asciiStart_iff.mpr (.inl upper))) Bool.false_ne_true
  case lower => exact fun lower => absurd (notStart.symm.trans (asciiStart_iff.mpr (.inr lower))) Bool.false_ne_true
  case zero =>
    rintro rfl
    exact absurd rfl notDigit
  case nonzero => exact fun range => absurd (nonzero_digit range) notDigit
  case single => exact fun _ _ _ => holds_silent getOffsetAndAdvance_run (putsFixed_put _)
  case operator => exact fun chain _ => holds_silent getOffsetAndAdvance_run (putsFixed_chain chain o _)
  case rightAngle => exact fun _ => rightAngle_fixed
  case dot => exact fun dot => absurd dot notDot
  case slash => exact fun slash => absurd slash notSlash
  case string => exact fun quote => absurd quote notQuote.1
  case character => exact fun quote => absurd quote notQuote.2
  case other => exact holds_weaken (onOtherChar_refused here refused) fun _ _ log => none_ log

theorem handle_standing (emit : x.flags.emitComments = true) (here : At x.source ⟨o,b :: rest⟩) :
    Holds (handleNextCharacter x b) ⟨o,b :: rest⟩ fun _ _ log => Standing x log := by
  by_cases word : startCharacter (b :: rest) = 0
  case neg => exact word_standing here word
  by_cases digit : isDecimalDigit b = true
  · exact number_standing here (.inl digit)
  by_cases dot : b = ch '.'
  · exact number_standing here (.inr dot)
  by_cases string : b = ch '"'
  · subst string
    exact quote_standing .string here
  by_cases character : b = ch '\''
  · subst character
    exact quote_standing .character here
  have fixed_standing : ∀ log, (∀ token ∈ tokensOf log, token.variableLength = 0) → Standing x log :=
    fun log fixed token member => .inl (fixed token member)
  by_cases slash : b = ch '/'
  · subst slash
    by_cases line : ∃ t, rest = ch '/' :: t
    · obtain ⟨t,rfl⟩ := line
      exact lineComment_standing emit here
    by_cases block : ∃ t, rest = ch '*' :: t
    · obtain ⟨t,rfl⟩ := block
      exact blockComment_standing emit here
    · have fixed := slash_fixed (x := x) (o := o) (fun t same => line ⟨t,same⟩) (fun t same => block ⟨t,same⟩)
      exact holds_weaken fixed fun _ _ log => fixed_standing log
  · exact holds_weaken (operator_fixed here word digit dot slash ⟨string,character⟩) fun _ _ log => fixed_standing log

-- A token that has the whole source as its text is at its beginning, and the handler
-- is at its end.
theorem whole_source (here : At x.source c') (lexed : Lexed x c c' log) (member : token ∈ tokensOf log)
    (read : token.getText x.source = .ok x.source.text) : token.offset.toNat = 0 ∧ c' = ⟨x.source.text.length,[]⟩ := by
  obtain ⟨_,w,text,_,_,inside,behind⟩ := lexed.token_read member
  obtain rfl := Except.ok.inj (read.symm.trans text)
  have length := here.length
  obtain ⟨p,left⟩ := c'
  simp only at behind length
  obtain rfl : left = [] := List.eq_nil_of_length_eq_zero (by omega)
  rw [List.length_nil] at length
  exact ⟨by omega,by rw [show p = x.source.text.length by omega]⟩

theorem lexesAs_of (whole : PutsWhole kind w) (some_ : w ≠ []) (fits : w.length ≤ sourceSizeMax) : LexesAs kind w := by
  intro path tabSize
  cases w with
  | nil => exact absurd rfl some_
  | cons b rest =>
      have here : At ⟨b :: rest,path⟩ ⟨0,b :: rest⟩ := .start fits
      obtain ⟨_,c',log,ran,token,put,rfl,read⟩ := whole ⟨⟨b :: rest,path⟩,⟨true⟩,tabSize⟩ rfl here b rest rfl
      obtain ⟨_,_,_,again,lexed,_⟩ := handleNextCharacter_spec (x := ⟨⟨b :: rest,path⟩,⟨true⟩,tabSize⟩) here
      obtain ⟨⟩ := ran.symm.trans again
      obtain ⟨start,rfl⟩ := whole_source (lexed.at_ here) lexed (by rw [put]; exact List.mem_cons_self) read
      have notNull : b ≠ 0 := by
        rintro rfl
        obtain ⟨_,_,_,quiet,none_⟩ := onOtherChar_refused (x := ⟨⟨0 :: rest,path⟩,⟨true⟩,tabSize⟩) here (ascii_refused rfl)
        obtain ⟨⟩ := ran.symm.trans quiet
        cases put.symm.trans none_
      have handled : Handled ⟨⟨b :: rest,path⟩,⟨true⟩,tabSize⟩ 0 (b :: rest) [] [] log := by
        refine ⟨b,rest,rfl,notNull,?_⟩
        rw [List.append_nil,List.append_nil,List.length_nil,Nat.add_zero,Nat.zero_add]
        exact ran
      have looped := loop_handled handled loop_end
      rw [List.append_nil,List.append_nil,List.append_nil,List.length_nil,Nat.add_zero,Nat.zero_add] at looped
      have all := run_of_loop (x := ⟨⟨b :: rest,path⟩,⟨true⟩,tabSize⟩) fits looped
      rw [put] at all
      exact ⟨token,_,all,rfl,start,read⟩

-- A token that comes out of its own text again.
def Isolated (source : SourceView) (token : Token) : Prop := ∃ w, token.getText source = .ok w ∧ LexesAs token.kind w

theorem isolated_of (lexed : Lexed x c c' log) (standing : Standing x log) (fits : x.source.text.length ≤ sourceSizeMax) :
    ∀ token ∈ tokensOf log, Isolated x.source token := by
  intro token member
  obtain ⟨notEnd,w,text,positive,_,inside,_⟩ := lexed.token_read member
  refine ⟨w,text,lexesAs_of ?_ (List.ne_nil_of_length_pos positive) (by omega)⟩
  rcases standing token member with fixed | ⟨w',read,whole⟩
  · rw [Token.getText,if_neg (by omega)] at text
    refine fixed_whole ?_ notEnd
    cases spelled : fixedText token.kind with
    | none =>
        rw [spelled] at text
        cases text
    | some w' =>
        rw [spelled] at text
        exact congrArg some (Except.ok.inj text)
  · rwa [← Except.ok.inj (read.symm.trans text)]

theorem rounds_isolated (emit : x.flags.emitComments = true) (here : At x.source c) :
    Holds (loop (sourceRound x) ()) c fun _ _ log => ∀ token ∈ tokensOf log, Isolated x.source token := by
  refine holds_loop (fun _ c => At x.source c) (fun _ _ _ _ log => ∀ token ∈ tokensOf log, Isolated x.source token) ?_ here
  rintro ⟨⟩ c here
  refine holds_silent peek_run ?_
  refine holds_ite (fun _ => holds_pure (by simp)) fun some_ => ?_
  obtain ⟨o,_ | ⟨b,rest⟩⟩ := c
  · exact absurd front_nil some_
  refine holds_bind (holds_both (handleNextCharacter_spec here) (handle_standing emit here)) ?_
  rintro ⟨⟩ c' log ⟨⟨lexed,progress⟩,standing⟩
  have there := lexed.at_ here
  have isolated := isolated_of lexed standing here.fits
  refine holds_pure ⟨there,?_,?_⟩
  · have before := here.length
    have after := there.length
    simp only at before progress ⊢
    omega
  · intro _ _ more later
    rw [List.append_nil,tokensOf_append]
    exact List.forall_mem_append.mpr ⟨isolated,later⟩

theorem run_isolated (emit : x.flags.emitComments = true) (fits : x.source.text.length ≤ sourceSizeMax) :
    Holds (run x) (.start x.source) fun _ _ log => ∀ token ∈ tokensOf log, token.kind ≠ .endOfFile → Isolated x.source token := by
  have looped : Holds (handleSource x) (.start x.source) fun _ _ log => ∀ token ∈ tokensOf log, Isolated x.source token := by
    have here : At x.source (.start x.source) := .start fits
    refine holds_bind (holds_both (sourceRounds_spec here) (rounds_isolated emit here)) ?_
    rintro ⟨⟩ c' log ⟨⟨lexed,_⟩,isolated⟩
    have there := lexed.at_ here
    refine holds_silent valid_run (holds_ite (fun _ => ?_) fun _ => ?_)
    · obtain ⟨made,ran,_⟩ : ∃ made, report x .invalidCharacter c'.offset [.number 0] c' = .ok ⟨.ok (),c',[.report made]⟩ ∧
          ReportAt x c'.offset .invalidCharacter made := report_run there.fits there.inside rfl
      refine holds_silent currentOffset_run ⟨_,_,_,ran,fun token member => isolated token ?_⟩
      rwa [tokensOf_append,tokensOf_report,tokensOf_nil,List.append_nil] at member
    · exact holds_pure (by rwa [List.append_nil])
  rw [run,if_pos fits]
  refine holds_bind looped fun _ c' log isolated => holds_silent currentOffset_run (holds_tell ?_)
  rw [tokensOf_append]
  refine List.forall_mem_append.mpr ⟨fun token member _ => isolated token member,?_⟩
  exact List.forall_mem_singleton.mpr fun notEnd => absurd rfl notEnd

-- Every token is context independent: its text alone gives that token alone.
theorem tokens_alone (source : SourceView) (tabSize : UInt8) (fits : source.text.length ≤ sourceSizeMax) :
    ∃ tokens reports, runLexer source ⟨true⟩ tabSize = .ok (tokens,reports) ∧
      ∀ token ∈ tokens, token.kind ≠ .endOfFile → ∃ w, token.getText source = .ok w ∧ LexesAs token.kind w := by
  obtain ⟨_,_,log,ran,isolated⟩ := run_isolated (x := ⟨source,⟨true⟩,tabSize⟩) rfl fits
  refine ⟨tokensOf log,reportsOf log,?_,isolated⟩
  rw [runLexer,ran]
  rfl
end Source

-- Malformed UTF-8 in a word, a spaced number with its dot, and a literal that the
-- line ends.
def malformed : SourceView := ⟨text "if" ++ [0xc3] ++ text "+ 1 0 . \"\\\n/*",""⟩

theorem tokens_alone_malformed : ∃ tokens reports, runLexer malformed ⟨true⟩ 4 = .ok (tokens,reports) ∧
    ∀ token ∈ tokens, token.kind ≠ .endOfFile → ∃ w, token.getText malformed = .ok w ∧ LexesAs token.kind w :=
  tokens_alone malformed 4 (by decide)
end Cero.Lexer
