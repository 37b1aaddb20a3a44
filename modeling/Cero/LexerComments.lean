import Cero.FrontEnd
import Cero.LexerPlacement

-- The flag for comments leaves them out of the tokens and changes nothing else, and
-- a cursor that skips them goes through the tokens that are left.
namespace Cero
open Effect SourceCursor

def isPlain (t : Token) : Bool := !Lexer.isComment t.kind

theorem isPlain_iff {t : Token} : isPlain t = true ↔ ¬ (t.kind = .lineComment ∨ t.kind = .blockComment) := by
  simp [isPlain,Lexer.isComment]

section Skipping
variable {ω : Type}
open TokenCursor

theorem skipComments_run {ts : List Token} (some_ : ∃ t ∈ ts, isPlain t = true) :
    (skipComments : Effect Fault (List Token) ω Unit) ts = .ok ⟨.ok (),ts.dropWhile (!isPlain ·),[]⟩ := by
  suffices rounds : ∀ enough, ts.length < enough →
      (iterate .exhausted skipCommentRound enough () : Effect Fault (List Token) ω Unit) ts = .ok ⟨.ok (),ts.dropWhile (!isPlain ·),[]⟩ by
    rw [skipComments,bind_ok get_run,map_after_nil]
    exact rounds _ (Nat.lt_succ_self _)
  intro enough room
  induction ts generalizing enough with
  | nil =>
    obtain ⟨_,member,_⟩ := some_
    cases member
  | cons t ts ih =>
    obtain ⟨rounds,rfl⟩ : ∃ rounds, enough = rounds + 1 := ⟨enough-1,by omega⟩
    by_cases plain : isPlain t = true
    · rw [List.dropWhile_cons_of_neg (by rw [plain]; decide)]
      refine iterate_leave rounds ?_
      rw [skipCommentRound,bind_ok peekKind_run,if_neg (isPlain_iff.mp plain)]
      rfl
    · have comment : t.kind = .lineComment ∨ t.kind = .blockComment := not_not.mp (fun other => plain (isPlain_iff.mpr other))
      rw [List.dropWhile_cons_of_pos (by simpa using plain)]
      obtain ⟨u,among,found⟩ := some_
      have later : ∃ t ∈ ts, isPlain t = true := by
        rcases List.mem_cons.mp among with rfl | behind
        · exact absurd found plain
        · exact ⟨u,behind,found⟩
      rw [List.length_cons] at room
      have round : (skipCommentRound () : Effect Fault (List Token) ω _) (t :: ts) = .ok ⟨.ok (.inl ()),ts,[]⟩ := by
        rw [skipCommentRound,bind_ok peekKind_run,if_pos comment]
        rfl
      exact iterate_again round (ih later rounds (by omega))
end Skipping

theorem below_zero (made : Report) : made.below 0 = made := by
  have line : made.location.line + UInt32.ofNat 0 = made.location.line := UInt32.add_zero _
  rw [Report.below,CodeLocation.below,line]

theorem shift_zero (t : Token) : (Parser.Layout.shift 0).token t = t := by
  have place : t.offset + BitVec.ofNat sourceSizeBits 0 = t.offset := BitVec.add_zero _
  rw [Parser.Layout.token,Parser.Layout.shift]
  simp only [place]

-- A cursor on the tokens with comments that skips them stands on the first of the
-- others.
structure Skips (ts : List Token) : Prop where
  stands : ∃ u, (TokenCursor.skipComments : Effect Fault _ Parser.Expected Unit) ts = .ok ⟨.ok (),u,[]⟩ ∧ u <:+ ts ∧
    u.head? = (ts.filter isPlain).head? ∧ u.filter isPlain = ts.filter isPlain

theorem head_dropWhile (ts : List Token) : (ts.dropWhile (!isPlain ·)).head? = (ts.filter isPlain).head? ∧
    (ts.dropWhile (!isPlain ·)).filter isPlain = ts.filter isPlain := by
  induction ts with
  | nil => exact ⟨rfl,rfl⟩
  | cons t ts ih =>
    by_cases plain : isPlain t = true
    · rw [List.dropWhile_cons_of_neg (by rw [plain]; decide),List.filter_cons_of_pos plain]
      exact ⟨rfl,rfl⟩
    · rw [List.dropWhile_cons_of_pos (by simpa using plain),List.filter_cons_of_neg plain]
      exact ih

theorem skips_plain {ts : List Token} (some_ : ∃ t ∈ ts, isPlain t = true) : Skips ts :=
  ⟨_,skipComments_run some_,List.dropWhile_suffix _,head_dropWhile ts⟩

-- The tokens end in a token that is no comment, and so does what is left of them.
theorem plain_behind {tokens ts : List Token} (ends : Parser.Terminated tokens) (behind : ts <:+ tokens) (more : ts ≠ []) :
    ∃ t ∈ ts, isPlain t = true := by
  obtain ⟨front,e,rfl,atEnd,_⟩ := ends
  refine ⟨e,?_,by rw [isPlain,atEnd]; rfl⟩
  obtain ⟨before,same⟩ := behind
  have last : ts.getLast more = e := by
    have whole : (before ++ ts).getLast (by simp [more]) = e := by simp [same]
    rwa [List.getLast_append_of_ne_nil _ more] at whole
  exact last ▸ List.getLast_mem more

theorem runLexer_plain {source : SourceView} {tabSize : UInt8} {tokens : List Token} {reports : List Report}
    (lexed : runLexer source ⟨true⟩ tabSize = .ok (tokens,reports)) :
    runLexer source .none tabSize = .ok (tokens.filter isPlain,reports) := by
  by_cases fits : source.text.length ≤ sourceSizeMax
  · obtain ⟨_,c,log,ran,_⟩ := Lexer.run_spec (x := ⟨source,⟨true⟩,tabSize⟩) fits
    have placed : Lexer.Placed [] ⟨source,⟨true⟩,tabSize⟩ ⟨source,.none,tabSize⟩ :=
      ⟨rfl,rfl,rfl,fun _ => rfl,fits,.inl rfl⟩
    obtain ⟨log',ran',rfl⟩ := Lexer.follows_logs placed ran
    rw [show (⟨[].length + (SourceCursor.start source).offset,(SourceCursor.start source).rest⟩ : SourceCursor) =
      .start source from rfl] at ran'
    rw [runLexer,ran] at lexed
    cases lexed
    rw [runLexer,ran',map_ok,Lexer.tokensOf_behind,Lexer.reportsOf_behind]
    have same : (Parser.Layout.shift ([] : Bytes).length).token = id := funext shift_zero
    have alike : Report.below (([] : Bytes).count (ch '\n')) = id := funext below_zero
    rw [same,alike,List.map_id,List.map_id]
    simp only [LexerFlags.none,Bool.or_false]
    rfl
  · rw [runLexer,Lexer.run,if_neg fits] at lexed ⊢
    cases lexed
    rfl

theorem comments_left_out (source : SourceView) (tabSize : UInt8) : ∃ tokens reports,
    runLexer source ⟨true⟩ tabSize = .ok (tokens,reports) ∧ runLexer source .none tabSize = .ok (tokens.filter isPlain,reports) ∧
      ∀ ts, ts <:+ tokens → ts ≠ [] → Skips ts := by
  obtain ⟨tokens,reports,lexed,ends,_⟩ := lexer_total source ⟨true⟩ tabSize
  exact ⟨tokens,reports,lexed,runLexer_plain lexed,fun ts behind more => skips_plain (plain_behind ends behind more)⟩
end Cero
