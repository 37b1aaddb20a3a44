import Cero.LexerReports
import Cero.Library.Synchronization
import Cero.WordExtent

-- On a source that is well-formed UTF-8 the lexer stops between characters only.
namespace Cero.Lexer
open Effect SourceCursor Code

abbrev WellFormed (bytes : Bytes) : Prop := Code.Whole String.utf8EncodeChar bytes

theorem ascii_outer {b : UInt8} (ascii : isAscii b = true) : isContinuation b = false := by
  have table : ∀ n : Fin 256, isAscii ⟨⟨n⟩⟩ = true → isContinuation ⟨⟨n⟩⟩ = false := by decide +kernel
  exact table b.toFin ascii

theorem lead_outer {lead : UInt8} (multi : isMultibyteLead lead = true) : isContinuation lead = false := by
  have table : ∀ n : Fin 256, isMultibyteLead ⟨⟨n⟩⟩ = true → isContinuation ⟨⟨n⟩⟩ = false := by decide +kernel
  exact table lead.toFin multi

theorem low_ascii : ∀ n < 0x80, isAscii (UInt8.ofNat n) = true := by decide +kernel

-- A character is one ASCII byte, or a lead byte with continuations behind it.
theorem character_cases (c : Char) : (∃ b, String.utf8EncodeChar c = [b] ∧ isAscii b = true) ∨
    ∃ lead more, String.utf8EncodeChar c = lead :: more ∧ isAscii lead = false ∧ Encodes c lead more := by
  by_cases low : c.toNat < 0x80
  · exact .inl ⟨_,ascii_char low,low_ascii _ low⟩
  · obtain ⟨lead,more,encoded⟩ := encoded (Nat.le_of_not_lt low)
    have high : 0x80 ≤ lead.toNat := by
      have above := not_ascii encoded.high
      rw [UInt8.lt_iff_toNat_lt] at above
      exact Nat.le_of_not_lt above
    exact .inr ⟨lead,more,encoded.bytes,encoded.high,encode_spec high encoded.bytes⟩

theorem utf8_synchronizes : SelfSynchronizing String.utf8EncodeChar isContinuation where
  shape c := by
    rcases character_cases c with ⟨b,bytes,ascii⟩ | ⟨lead,more,bytes,_,encodes⟩
    · exact ⟨b,[],bytes,ascii_outer ascii,by simp⟩
    · exact ⟨lead,more,bytes,lead_outer encodes.multi,encodes.continued⟩

theorem ascii_single {b : UInt8} (ascii : isAscii b = true) (c : Char) (more : Bytes) (bytes : String.utf8EncodeChar c = b :: more) :
    more = [] := by
  rcases character_cases c with ⟨d,bytes',_⟩ | ⟨lead,others,bytes',high,_⟩
  · exact (List.cons.inj (bytes.symm.trans bytes')).2
  · obtain ⟨rfl,_⟩ := List.cons.inj (bytes.symm.trans bytes')
    rw [ascii] at high
    cases high

-- A cursor between two characters.
structure Between (x : Context) (c : SourceCursor) : Prop where
  at_ : At x.source c
  fresh : Code.Fresh isContinuation c.rest

section Steps
variable {x : Context} {c c' : SourceCursor} {o : Nat} {b : UInt8} {rest crossed : Bytes} {log : List Event}

theorem at_suffix (here : At x.source c) : ∃ u, x.source.text = u ++ c.rest :=
  ⟨x.source.text.take c.offset,by rw [here.rest,List.take_append_drop]⟩

def Ascii (bytes : Bytes) : Prop := ∀ b ∈ bytes, isAscii b = true

theorem ascii_cons (ascii : isAscii b = true) (more : Ascii crossed) : Ascii (b :: crossed) := List.forall_mem_cons.mpr ⟨ascii,more⟩

theorem between_start (fits : x.source.text.length ≤ sourceSizeMax) (clean : WellFormed x.source.text) : Between x (.start x.source) :=
  ⟨.start fits,whole_fresh utf8_synchronizes clean⟩

variable (clean : WellFormed x.source.text)
include clean

theorem between_ascii (here : At x.source ⟨o,b :: rest⟩) (ascii : isAscii b = true) : Between x ⟨o+1,rest⟩ := by
  obtain ⟨u,whole⟩ := at_suffix here
  rw [whole] at clean
  exact ⟨here.moves moves_cons,fresh_behind utf8_synchronizes clean (ascii_outer ascii) (ascii_single ascii)⟩

theorem between_passed (here : Between x c) (moved : Moves c crossed c') (ascii : Ascii crossed) : Between x c' := by
  induction crossed generalizing c with
  | nil =>
    obtain ⟨rest,offset⟩ := moved
    obtain ⟨o,w⟩ := c
    obtain ⟨o',w'⟩ := c'
    obtain rfl : w = w' := rest
    obtain rfl : o' = o := offset
    exact here
  | cons b crossed ih =>
    obtain ⟨o,w⟩ := c
    obtain ⟨rfl,offset⟩ := moved
    have first := between_ascii clean here.at_ (ascii b List.mem_cons_self)
    refine ih first ⟨rfl,?_⟩ fun d member => ascii d (List.mem_cons_of_mem _ member)
    simp only [List.length_cons] at offset ⊢
    omega

-- Behind its lead byte the rest of a character is consumed, whatever is made of it.
theorem character_between (here : Between x ⟨o,b :: rest⟩) (high : isAscii b = false) (utf8Predicate : Nat → Bool) :
    Holds (consumeMultibyteUtf8Char x b o utf8Predicate) ⟨o+1,rest⟩ (fun _ c' log =>
      Between x c' ∧ c'.rest.length < rest.length ∧ tokensOf log = []) := by
  obtain ⟨u,whole⟩ := at_suffix here.at_
  rw [whole] at clean
  obtain ⟨c,more,later,bytes,rfl,fresh⟩ := whole_word utf8_synchronizes clean (here.fresh b rest rfl)
  rcases character_cases c with ⟨d,bytes',ascii⟩ | ⟨lead,others,bytes',_,encodes⟩
  · obtain ⟨rfl,_⟩ := List.cons.inj (bytes.symm.trans bytes')
    rw [ascii] at high
    cases high
  obtain ⟨rfl,rfl⟩ := List.cons.inj (bytes.symm.trans bytes')
  have ones := ones_cases encodes.multi
  have length : countlOne b - 1 = more.length := by rw [← encodes.shortest.1]; rfl
  have there : Between x ⟨o+1+more.length,later⟩ := by
    have moved : Moves ⟨o,b :: (more ++ later)⟩ (b :: more) ⟨o+1+more.length,later⟩ := by
      refine ⟨rfl,?_⟩
      simp only [List.length_cons]
      omega
    exact ⟨here.at_.moves moved,fresh⟩
  have shorter : later.length < (more ++ later).length := by
    rw [List.length_append]
    omega
  rw [consumeMultibyteUtf8Char,if_pos (by omega),length]
  refine holds_step (consumeTrailing_run 1 b.toNat) (holds_ite (fun _ => holds_pure ⟨there,shorter,rfl⟩) fun _ => ?_)
  refine holds_weaken (reject_spec _ here.at_.fits here.at_.inside) ?_
  rintro _ _ _ ⟨_,rfl,made,rfl,_⟩
  exact ⟨there,shorter,rfl⟩

theorem word_between (here : Between x c) : Holds (consumeWord x) c (fun _ c' _ => Between x c') := by
  refine holds_loop (fun _ c => Between x c) (fun _ _ _ c' _ => Between x c') ?_ here
  rintro ⟨⟩ ⟨o,_ | ⟨b,rest⟩⟩ here
  · exact holds_silent peek_run (holds_pure here)
  refine holds_silent peek_run ?_
  rw [front_cons]
  refine holds_ite (fun _ => holds_pure here) fun _ => holds_ite (fun plain => ?_) fun _ => holds_ite (fun _ => holds_pure here) fun low => ?_
  · have ascii : isAscii b = true := by
      cases same : isAscii b with
      | true => rfl
      | false => exact absurd plain (high_notIdentifier same).2
    exact holds_silent advance_run (holds_pure ⟨between_ascii clean here.at_ ascii,Nat.lt_succ_self _,fun _ _ _ there => there⟩)
  have high : isAscii b = false := by simpa using low
  refine holds_silent getOffsetAndAdvance_run (holds_bind (character_between clean here high _) ?_)
  rintro (_ | _) c' log ⟨there,shorter,_⟩
  · exact holds_pure there
  · exact holds_pure ⟨there,Nat.lt_succ_of_lt shorter,fun _ _ _ there' => there'⟩

-- A literal is left in front of a null byte, a newline or the end, or behind its quote.
theorem quote_between {quote : UInt8} (ascii : isAscii quote = true) (here : At x.source c) (ignoreQuote : Bool) :
    Holds (loop (quoteRound x quote) ignoreQuote) c (fun _ c' _ => Between x c') := by
  refine holds_loop (fun _ c => At x.source c) (fun _ _ _ c' _ => Between x c') ?_ here
  rintro ignoreQuote ⟨o,_ | ⟨b,rest⟩⟩ here
  · exact holds_silent peek_run (holds_pure ⟨here,fresh_nil⟩)
  refine holds_silent peek_run ?_
  rw [front_cons]
  have stay (outer : isAscii b = true) : Between x ⟨o,b :: rest⟩ := ⟨here,fresh_cons (ascii_outer outer) rest⟩
  have next : At x.source ⟨o+1,rest⟩ := here.moves moves_cons
  refine holds_ite (fun null => holds_pure (stay (by rw [null]; rfl))) fun _ => holds_ite (fun newline => ?_) fun _ => ?_
  · obtain ⟨made,ran,_⟩ : ∃ made, report x .missingClosingQuote o [] ⟨o,b :: rest⟩ =
        .ok ⟨.ok (),⟨o,b :: rest⟩,[.report made]⟩ ∧ ReportAt x o .missingClosingQuote made :=
      report_run here.fits here.inside rfl
    exact holds_silent currentOffset_run (holds_step ran (holds_pure (stay (by rw [newline]; rfl))))
  refine holds_silent advance_run (holds_ite (fun _ => ?_) fun _ => holds_ite (fun closed => ?_) fun _ => holds_ite (fun _ => ?_) fun _ => ?_)
  · exact holds_pure ⟨next,Nat.lt_succ_self _,fun _ _ _ there => there⟩
  · exact holds_pure (between_ascii clean here (by rw [closed.1]; exact ascii))
  · exact holds_pure ⟨next,Nat.lt_succ_self _,fun _ _ _ there => there⟩
  · exact holds_pure ⟨next,Nat.lt_succ_self _,fun _ _ _ there => there⟩

omit clean in
theorem line_between (here : At x.source c) : Holds consumeLineComment c (fun _ c' _ => Between x c') := by
  refine holds_loop (fun _ c => At x.source c) (fun _ _ _ c' _ => Between x c') ?_ here
  rintro ⟨⟩ ⟨o,_ | ⟨b,rest⟩⟩ here
  · exact holds_silent peek_run (holds_pure ⟨here,fresh_nil⟩)
  refine holds_silent peek_run ?_
  rw [front_cons]
  have stay (outer : isAscii b = true) : Between x ⟨o,b :: rest⟩ := ⟨here,fresh_cons (ascii_outer outer) rest⟩
  refine holds_ite (fun null => holds_pure (stay (by rw [null]; rfl))) fun _ => ?_
  refine holds_ite (fun newline => holds_pure (stay (by rw [newline]; rfl))) fun _ => ?_
  exact holds_silent advance_run (holds_pure ⟨here.moves moves_cons,Nat.lt_succ_self _,fun _ _ _ there => there⟩)

-- A block comment is left at the end, or behind the slash that closes it.
theorem block_between (here : At x.source c) (unclosedCount : UInt32) :
    Holds (loop blockCommentRound unclosedCount) c (fun _ c' _ => Between x c') := by
  refine holds_loop (fun _ c => At x.source c) (fun _ _ _ c' _ => Between x c') ?_ here
  rintro unclosedCount ⟨o,_ | ⟨b,rest⟩⟩ here
  · exact holds_silent valid_run (holds_pure ⟨here,fresh_nil⟩)
  refine holds_silent valid_run ?_
  rw [if_neg (by simp)]
  have next : At x.source ⟨o+1,rest⟩ := here.moves moves_cons
  rcases matchChar_spec (ch '*') ⟨o,b :: rest⟩ with ⟨_,_,⟨rfl,rfl⟩,star⟩ | ⟨_,star⟩
  · refine holds_silent star ?_
    rw [if_pos rfl]
    rcases matchChar_spec (ch '/') ⟨o+1,rest⟩ with ⟨_,later,⟨rfl,rfl⟩,slash⟩ | ⟨_,slash⟩
    · refine holds_silent slash ?_
      rw [if_pos rfl]
      refine holds_ite (fun _ => holds_pure (between_ascii clean next rfl)) fun _ => ?_
      exact holds_pure ⟨next.moves moves_cons,by simp only [List.length_cons]; omega,fun _ _ _ there => there⟩
    · refine holds_silent slash ?_
      rw [if_neg Bool.false_ne_true]
      exact holds_pure ⟨next,Nat.lt_succ_self _,fun _ _ _ there => there⟩
  refine holds_silent star ?_
  rw [if_neg Bool.false_ne_true]
  rcases matchChar_spec (ch '/') ⟨o,b :: rest⟩ with ⟨_,_,⟨rfl,rfl⟩,slash⟩ | ⟨_,slash⟩
  · refine holds_silent slash ?_
    rw [if_pos rfl]
    rcases matchChar_spec (ch '*') ⟨o+1,rest⟩ with ⟨_,later,⟨rfl,rfl⟩,opened⟩ | ⟨_,opened⟩
    · refine holds_silent opened ?_
      rw [if_pos rfl]
      exact holds_pure ⟨next.moves moves_cons,by simp only [List.length_cons]; omega,fun _ _ _ there => there⟩
    · refine holds_silent opened ?_
      rw [if_neg Bool.false_ne_true]
      exact holds_pure ⟨next,Nat.lt_succ_self _,fun _ _ _ there => there⟩
  · refine holds_silent slash ?_
    rw [if_neg Bool.false_ne_true]
    exact holds_silent advance_run (holds_pure ⟨next,Nat.lt_succ_self _,fun _ _ _ there => there⟩)
end Steps
end Cero.Lexer
