import Cero.Lexer

namespace Cero

theorem toNat_next {i : UInt64} (room : i.toNat + 1 < 2 ^ 64) : (i+1).toNat = i.toNat + 1 := by
  rw [UInt64.toNat_add]
  exact Nat.mod_eq_of_lt room

-- The start of the last line lies within what has been counted.
theorem countLines_inside {rest : Bytes} {i lastLine : UInt64} {line : UInt32} (room : i.toNat + rest.length < 2 ^ 64)
    (inside : (lastLine+1).toNat ≤ i.toNat) : ((countLines rest i line lastLine).2 + 1).toNat ≤ i.toNat + rest.length := by
  induction rest generalizing i line lastLine with
  | nil => exact inside
  | cons c rest ih =>
    rw [List.length_cons] at room ⊢
    have step : (i+1).toNat = i.toNat + 1 := toNat_next (by omega)
    rw [countLines]
    split
    · have counted := @ih (i+1) i (line+1) (by omega) (Nat.le_refl _)
      omega
    · have counted := @ih (i+1) lastLine line (by omega) (by omega)
      omega

theorem locate_total {source : SourceView} {offset : Nat} (tabSize : UInt8) (inside : offset ≤ source.text.length)
    (room : offset < 2 ^ 64) : ∃ location, source.locate offset tabSize = .ok location := by
  have taken : substr source.text 0 offset = .ok (source.text.take offset) := substr_ok (Nat.zero_le _) offset
  have size : (source.text.take offset).length = offset := by rw [List.length_take]; omega
  have counted : ((countLines (source.text.take offset) 0 1 npos).2 + 1).toNat ≤
      UInt64.toNat 0 + (source.text.take offset).length :=
    countLines_inside (by rw [size]; simpa using room) (by decide)
  rw [SourceView.locate,taken]
  simp only [bind,Except.bind]
  rw [substr_ok (by simpa using counted)]
  exact ⟨_,rfl⟩

namespace Lexer
open Effect SourceCursor

section Runs
variable {ω : Type} {o : Nat} {b : UInt8} {rest : Bytes} {c : SourceCursor}

@[simp] theorem peek_run : (peek : Effect Fault _ ω _) c = .ok ⟨.ok c.front,c,[]⟩ := rfl
@[simp] theorem valid_run : (valid : Effect Fault _ ω _) c = .ok ⟨.ok (!c.rest.isEmpty),c,[]⟩ := rfl
@[simp] theorem currentOffset_run : (currentOffset : Effect Fault _ ω _) c = .ok ⟨.ok c.offset,c,[]⟩ := rfl
@[simp] theorem front_cons : SourceCursor.front ⟨o,b :: rest⟩ = b := rfl
@[simp] theorem front_nil : SourceCursor.front ⟨o,[]⟩ = 0 := rfl
@[simp] theorem advance_run : (advance : Effect Fault _ ω _) ⟨o,b :: rest⟩ = .ok ⟨.ok (),⟨o+1,rest⟩,[]⟩ := rfl
@[simp] theorem next_run : (next : Effect Fault _ ω _) ⟨o,b :: rest⟩ = .ok ⟨.ok b,⟨o+1,rest⟩,[]⟩ := rfl
@[simp] theorem next_end : (next : Effect Fault _ ω _) ⟨o,[]⟩ = .ok ⟨.ok 0,⟨o,[]⟩,[]⟩ := rfl
@[simp] theorem put_run (token : Token) : put token c = .ok ⟨.ok (),c,[.token token]⟩ := rfl

@[simp] theorem getOffsetAndAdvance_run : getOffsetAndAdvance ⟨o,b :: rest⟩ = .ok ⟨.ok o,⟨o+1,rest⟩,[]⟩ := rfl

theorem matchChar_same : (matchChar b : Effect Fault _ ω _) ⟨o,b :: rest⟩ = .ok ⟨.ok true,⟨o+1,rest⟩,[]⟩ := by
  simp [matchChar]

theorem matchChar_other {expected : UInt8} (other : c.front ≠ expected ∨ c.rest = []) :
    (matchChar expected : Effect Fault _ ω _) c = .ok ⟨.ok false,c,[]⟩ := by
  obtain ⟨o,_ | ⟨b,rest⟩⟩ := c
  · rfl
  · simp only [matchChar]
    rw [if_neg (by simpa using other)]

theorem matchChar_not {expected : UInt8} (other : b ≠ expected) :
    (matchChar expected : Effect Fault _ ω _) ⟨o,b :: rest⟩ = .ok ⟨.ok false,⟨o,b :: rest⟩,[]⟩ := matchChar_other (.inl other)

theorem ofExcept_run {σ α : Type} {r : Except Fault α} {a : α} {s : σ} (ran : r = .ok a) :
    (ofExcept r : Effect Fault σ ω α) s = .ok ⟨.ok a,s,[]⟩ := by rw [ran]; rfl

@[simp] theorem tokensOf_nil : tokensOf [] = [] := rfl
@[simp] theorem tokensOf_append (log more : List Event) : tokensOf (log ++ more) = tokensOf log ++ tokensOf more :=
  List.filterMap_append
@[simp] theorem tokensOf_token (token : Token) (log : List Event) : tokensOf (.token token :: log) = token :: tokensOf log := rfl
@[simp] theorem tokensOf_report (made : Report) (log : List Event) : tokensOf (.report made :: log) = tokensOf log := rfl
@[simp] theorem reportsOf_append (log more : List Event) : reportsOf (log ++ more) = reportsOf log ++ reportsOf more :=
  List.filterMap_append
@[simp] theorem reportsOf_token (token : Token) (log : List Event) : reportsOf (.token token :: log) = reportsOf log := rfl
@[simp] theorem reportsOf_report (made : Report) (log : List Event) : reportsOf (.report made :: log) = made :: reportsOf log := rfl
end Runs

-- `c` is a cursor of the source: what is left is the text from its offset on.
structure At (source : SourceView) (c : SourceCursor) : Prop where
  fits : source.text.length ≤ sourceSizeMax
  inside : c.offset ≤ source.text.length
  rest : c.rest = source.text.drop c.offset

theorem At.start {source : SourceView} (fits : source.text.length ≤ sourceSizeMax) : At source (.start source) :=
  ⟨fits,Nat.zero_le _,rfl⟩

theorem At.length {source : SourceView} {c : SourceCursor} (here : At source c) :
    c.offset + c.rest.length = source.text.length := by
  have inside := here.inside
  rw [here.rest,List.length_drop]
  omega

theorem At.moves {source : SourceView} {c c' : SourceCursor} {crossed : Bytes} (here : At source c) (moved : Moves c crossed c') :
    At source c' := by
  have size := here.length
  rw [moved.length] at size
  refine ⟨here.fits,by rw [moved.2]; omega,?_⟩
  have behind : c'.rest = c.rest.drop crossed.length := by rw [moved.1,List.drop_left]
  rw [behind,here.rest,List.drop_drop,moved.2]

theorem At.slice {source : SourceView} {c c' : SourceCursor} {crossed : Bytes} (here : At source c) (moved : Moves c crossed c') :
    (source.text.drop c.offset).take crossed.length = crossed := by
  rw [← here.rest,moved.1,List.take_left]

section Texts
variable {source : SourceView} {c c' : SourceCursor} {w : Bytes} {kind : TokenKind}

theorem offset_exact (here : At source c) (kind : TokenKind) (length : Nat) :
    (Token.make kind c.offset length).offset.toNat = c.offset := by
  have inside := here.inside
  have fits := here.fits
  have small : c.offset < 2 ^ sourceSizeBits := by
    have room : sourceSizeMax < 2 ^ sourceSizeBits := by decide
    omega
  simpa [Token.make] using Nat.mod_eq_of_lt small

-- A token of variable length reads its text off the source, ...
theorem make_getText (here : At source c) (moved : Moves c w c') (some_ : w ≠ []) (kind : TokenKind) :
    (Token.make kind c.offset w.length).getText source = .ok w := by
  rw [Token.getText,if_pos (show (Token.make kind c.offset w.length).variableLength > 0 from List.length_pos_iff.mpr some_),
    offset_exact here,substr_ok here.inside]
  exact congrArg Except.ok (here.slice moved)

-- ... and one of fixed length has that of its kind.
theorem fixed_getText {o : Nat} (spelled : fixedText kind = some w) : (Token.fixed kind o).getText source = .ok w := by
  rw [Token.getText,if_neg (show ¬ (Token.fixed kind o).variableLength > 0 from Nat.lt_irrefl 0)]
  simp only [Token.fixed,Token.make,spelled]
end Texts

section Reports
variable {x : Context} {message : Message} {offset : Nat} {args : MessageArgs} {c : SourceCursor}

-- Where a report about `offset` points.
def ReportAt (x : Context) (offset : Nat) (message : Message) (made : Report) : Prop :=
  made.message = message ∧ x.source.locate offset x.tabSize = .ok made.location

theorem report_run (fits : x.source.text.length ≤ sourceSizeMax) (inside : offset ≤ x.source.text.length)
    (counted : args.validForMessage message = true) :
    ∃ made, report x message offset args c = .ok ⟨.ok (),c,[.report made]⟩ ∧ ReportAt x offset message made := by
  have room : offset < 2 ^ 64 := by
    have : sourceSizeMax < 2 ^ 64 := by decide
    omega
  obtain ⟨location,located⟩ := locate_total x.tabSize inside room
  have made : Reporter.report location message args = .ok ⟨location,getDefaultMessageLevel message,message,args⟩ :=
    if_pos counted
  refine ⟨⟨location,getDefaultMessageLevel message,message,args⟩,?_,rfl,located⟩
  rw [report,bind_ok (ofExcept_run located),bind_ok (ofExcept_run made)]
  rfl
end Reports

section Loops
variable {α β : Type} {body : α → Lexer (α ⊕ β)} {a next : α} {b : β} {c c' c'' : SourceCursor} {log more : List Event}

theorem loop_leave (ran : body a c = .ok ⟨.ok (.inr b),c',log⟩) : loop body a c = .ok ⟨.ok b,c',log⟩ :=
  iterate_leave c.rest.length ran

theorem loop_again (ran : body a c = .ok ⟨.ok (.inl next),c',log⟩) (shorter : c'.rest.length < c.rest.length)
    (rest : loop body next c' = .ok ⟨.ok b,c'',more⟩) : loop body a c = .ok ⟨.ok b,c'',log ++ more⟩ :=
  iterate_again ran (iterate_enough rest shorter)

-- The loop rule of the lexer: the invariant holds at the head of every round, and a
-- round that goes on has moved.
theorem holds_loop (inv : α → SourceCursor → Prop) (spec : α → SourceCursor → β → SourceCursor → List Event → Prop)
    (round : ∀ a c, inv a c → Holds (body a) c (fun r c' log => match r with
      | .inl next => inv next c' ∧ c'.rest.length < c.rest.length ∧
          ∀ b c'' more, spec next c' b c'' more → spec a c b c'' (log ++ more)
      | .inr b => spec a c b c' log))
    (entered : inv a c) : Holds (loop body a) c (spec a c) :=
  holds_iterate (fun c => c.rest.length) inv spec round (c.rest.length+1) a c (Nat.lt_succ_self _) entered
end Loops
end Lexer
end Cero
