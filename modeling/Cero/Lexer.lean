import Cero.Keywords
import Cero.Report
import Cero.Unicode

namespace Cero

structure LexerFlags where
  emitComments : Bool
  deriving DecidableEq, Repr

def LexerFlags.none : LexerFlags := ⟨false⟩

namespace Lexer
open Effect SourceCursor

-- What the lexer holds besides its cursor: the tokens it has put and the reports it
-- has made are the log.
structure Context where
  source : SourceView
  flags : LexerFlags
  tabSize : UInt8

inductive Event where
  | token (token : Token)
  | report (report : Report)
  deriving DecidableEq, Repr

end Lexer

abbrev Lexer (α : Type) := Effect Fault SourceCursor Lexer.Event α

namespace Lexer
open Effect SourceCursor

def put (token : Token) : Lexer Unit := tell (.token token)

def report (x : Context) (message : Message) (offset : Nat) (args : MessageArgs) : Lexer Unit := do
  let location ← ofExcept (x.source.locate offset x.tabSize)
  let made ← ofExcept (Reporter.report location message args)
  tell (.report made)

def getOffsetAndAdvance : Lexer Nat := do
  let offset ← currentOffset
  advance
  return offset

-- A loop of the lexer; its body is the definition that is named for its rounds.
-- Every round that goes on consumes a byte, so that the bytes that are left bound
-- the rounds.
def loop {α β : Type} (body : α → Lexer (α ⊕ β)) (a : α) : Lexer β := fun c =>
  iterate .exhausted body (c.rest.length+1) a c

-- `for (uint8_t i = 1; i < leading_ones; ++i)`, from index `i` on.
def consumeTrailing : (rounds : Nat) → (i utf8Char : Nat) → Lexer Nat
  | 0,_,utf8Char => return utf8Char
  | rounds+1,i,utf8Char => do
    let c ← next
    consumeTrailing rounds (i+1) (utf8Char ||| c.toNat <<< (i*8))

def consumeMultibyteUtf8Char (x : Context) (leadingByte : UInt8) (offset : Nat) (utf8Predicate : Nat → Bool) : Lexer Bool := do
  let leadingOnes := countlOne leadingByte
  if leadingOnes ≥ 2 ∧ leadingOnes ≤ 4 then
    let utf8Char ← consumeTrailing (leadingOnes-1) 1 leadingByte.toNat
    if utf8Predicate utf8Char then return true
    else
      report x .invalidCharacter offset [.number utf8Char]
      return false
  else
    report x .invalidCharacter offset [.number leadingByte.toNat]
    return false

def wordRound (x : Context) (_ : Unit) : Lexer (Unit ⊕ Unit) := do
  let c ← peek
  if c = 0 then return .inr ()
  else if isAsciiIdentifierChar c then
    advance
    return .inl ()
  else if isAscii c then return .inr ()
  else
    let offset ← getOffsetAndAdvance
    if !(← consumeMultibyteUtf8Char x c offset isUtf8XidContinueChar) then return .inr ()
    else return .inl ()

def consumeWord (x : Context) : Lexer Unit := loop (wordRound x) ()

def onAlphabetic (x : Context) : Lexer Unit := do
  let offset ← getOffsetAndAdvance
  consumeWord x
  let length := (← currentOffset) - offset
  put (.make .identifier offset length)

def onAlphabeticMaybeKeyword (x : Context) (keywordTails : List KeywordTail) : Lexer Unit := do
  let offset ← getOffsetAndAdvance
  consumeWord x
  let length := (← currentOffset) - offset
  if length ≤ 9 then
    let tail ← ofExcept (substr x.source.text (offset+1) (length-1))
    match keywordTails.find? (fun kwTail => kwTail.tail = encodeTail tail) with
    | some kwTail => put (.fixed kwTail.kind offset)
    | none => put (.make .identifier offset length)
  else put (.make .identifier offset length)

def keywordHandler (x : Context) (first : UInt8) : Lexer Unit :=
  if (getKeywordTails first).isEmpty then onAlphabetic x else onAlphabeticMaybeKeyword x (getKeywordTails first)

-- `do { advance(); c = peek(); } while (is_ascii_whitespace(c));`
def whitespaceRound (_ : Unit) : Lexer (Unit ⊕ UInt8) := do
  advance
  let c ← peek
  if isAsciiWhitespace c then return .inl () else return .inr c

def skipWhitespace : Lexer UInt8 := loop whitespaceRound ()

-- The loop ends with the length that is returned from within it, if there is one.
def digitRound (digitPredicate : UInt8 → Bool) (offset : Nat) (_ : Unit) : Lexer (Unit ⊕ Option Nat) := do
  let c ← peek
  if c = 0 then return .inr none
  else if digitPredicate c then
    advance
    return .inl ()
  else if !isAsciiWhitespace c then return .inr none
  else
    let length := (← currentOffset) - offset
    let c ← skipWhitespace
    if digitPredicate c then
      advance
      return .inl ()
    else return .inr (some length)

def consumeDigitSequence (digitPredicate : UInt8 → Bool) (offset : Nat) : Lexer Nat := do
  match ← loop (digitRound digitPredicate offset) () with
  | some length => return length
  | none => return (← currentOffset) - offset

def handleDecimalLiteral (offset : Nat) : Lexer Unit := do
  let length ← consumeDigitSequence isDecimalDigit offset
  if (← peek) = ch '.' then
    let dotOffset ← getOffsetAndAdvance
    let lengthAfterDot ← consumeDigitSequence isDecimalDigit dotOffset
    if lengthAfterDot > 1 then put (.make .floatLiteral offset (dotOffset - offset + lengthAfterDot))
    else
      put (.make .decIntLiteral offset length)
      put (.fixed .dot dotOffset)
  else put (.make .decIntLiteral offset length)

-- The three branches of `on_zero` behind a base prefix.
def putBasedLiteral (kind : TokenKind) (digitPredicate : UInt8 → Bool) (offset : Nat) : Lexer Unit := do
  let length ← consumeDigitSequence digitPredicate offset
  put (.make kind offset length)

def onZero : Lexer Unit := do
  let offset ← getOffsetAndAdvance
  if ← matchChar (ch 'x') then putBasedLiteral .hexIntLiteral isHexadecimalDigit offset
  else if ← matchChar (ch 'b') then putBasedLiteral .binIntLiteral isDecimalDigit offset
  else if ← matchChar (ch 'o') then putBasedLiteral .octIntLiteral isDecimalDigit offset
  else handleDecimalLiteral offset

def onNonzero : Lexer Unit := do
  let offset ← getOffsetAndAdvance
  handleDecimalLiteral offset

def onDot : Lexer Unit := do
  let offset ← getOffsetAndAdvance
  let length ← consumeDigitSequence isDecimalDigit offset
  if length > 1 then put (.make .floatLiteral offset length)
  else put (.fixed .dot offset)

def onOneCharToken (kind : TokenKind) : Lexer Unit := do
  let offset ← getOffsetAndAdvance
  put (.fixed kind offset)

-- The nested `if (cursor_.match(c)) .. else ..` of an operator handler, with the
-- kinds that it puts at the leaves.
inductive MatchChain where
  | put (kind : TokenKind)
  | ifMatch (c : UInt8) (matched other : MatchChain)

def MatchChain.run (offset : Nat) : MatchChain → Lexer Unit
  | .put kind => Lexer.put (.fixed kind offset)
  | .ifMatch c matched other => do
    if ← matchChar c then matched.run offset else other.run offset

def onOperator (chain : MatchChain) : Lexer Unit := do
  let offset ← getOffsetAndAdvance
  chain.run offset

def leftAngleChain : MatchChain :=
  .ifMatch (ch '<') (.ifMatch (ch '=') (.put .lAngleAngleEq) (.put .lAngleAngle))
    (.ifMatch (ch '=') (.put .lAngleEq) (.put .lAngle))
def colonChain : MatchChain := .ifMatch (ch ':') (.put .colonColon) (.put .colon)
def equalsChain : MatchChain := .ifMatch (ch '=') (.put .eqEq) (.ifMatch (ch '>') (.put .thickArrow) (.put .eq))
def plusChain : MatchChain := .ifMatch (ch '+') (.put .plusPlus) (.ifMatch (ch '=') (.put .plusEq) (.put .plus))
def minusChain : MatchChain :=
  .ifMatch (ch '>') (.put .thinArrow) (.ifMatch (ch '-') (.put .minusMinus) (.ifMatch (ch '=') (.put .minusEq) (.put .minus)))
def starChain : MatchChain := .ifMatch (ch '=') (.put .starEq) (.put .star)
def percentChain : MatchChain := .ifMatch (ch '=') (.put .percentEq) (.put .percent)
def ampersandChain : MatchChain :=
  .ifMatch (ch '&') (.ifMatch (ch '=') (.put .andAndEq) (.put .andAnd)) (.ifMatch (ch '=') (.put .ampersandEq) (.put .ampersand))
def pipeChain : MatchChain :=
  .ifMatch (ch '|') (.ifMatch (ch '=') (.put .pipePipeEq) (.put .pipePipe)) (.ifMatch (ch '=') (.put .pipeEq) (.put .pipe))
def tildeChain : MatchChain := .ifMatch (ch '=') (.put .tildeEq) (.put .tilde)
def bangChain : MatchChain := .ifMatch (ch '=') (.put .bangEq) (.put .bang)

def onLeftAngle : Lexer Unit := onOperator leftAngleChain
def onColon : Lexer Unit := onOperator colonChain
def onEquals : Lexer Unit := onOperator equalsChain
def onPlus : Lexer Unit := onOperator plusChain
def onMinus : Lexer Unit := onOperator minusChain
def onStar : Lexer Unit := onOperator starChain
def onPercent : Lexer Unit := onOperator percentChain
def onAmpersand : Lexer Unit := onOperator ampersandChain
def onPipe : Lexer Unit := onOperator pipeChain
def onTilde : Lexer Unit := onOperator tildeChain
def onBang : Lexer Unit := onOperator bangChain

-- Two right angles that no `=` follows are put as two tokens.
def onRightAngle : Lexer Unit := do
  let offset ← getOffsetAndAdvance
  if ← matchChar (ch '>') then
    if ← matchChar (ch '=') then put (.fixed .rAngleAngleEq offset)
    else
      put (.fixed .rAngle offset)
      put (.fixed .rAngle (offset+1))
  else if ← matchChar (ch '=') then put (.fixed .rAngleEq offset)
  else put (.fixed .rAngle offset)

def lineCommentRound (_ : Unit) : Lexer (Unit ⊕ Unit) := do
  let c ← peek
  if c = 0 then return .inr ()
  else if c = ch '\n' then return .inr ()
  else
    advance
    return .inl ()

def consumeLineComment : Lexer Unit := loop lineCommentRound ()

-- Leaves with whether the comment was closed.
def blockCommentRound (unclosedCount : UInt32) : Lexer (UInt32 ⊕ Bool) := do
  if !(← valid) then return .inr false
  else if ← matchChar (ch '*') then
    if ← matchChar (ch '/') then
      if unclosedCount - 1 = 0 then return .inr true else return .inl (unclosedCount-1)
    else return .inl unclosedCount
  else if ← matchChar (ch '/') then
    if ← matchChar (ch '*') then return .inl (unclosedCount+1) else return .inl unclosedCount
  else
    advance
    return .inl unclosedCount

def consumeBlockComment (x : Context) (offset : Nat) : Lexer Unit := do
  if ← loop blockCommentRound 1 then return ()
  else report x .unterminatedBlockComment offset []

def putComment (x : Context) (kind : TokenKind) (offset : Nat) : Lexer Unit := do
  if x.flags.emitComments then
    let length := (← currentOffset) - offset
    put (.make kind offset length)
  else return ()

def onSlash (x : Context) : Lexer Unit := do
  let offset ← getOffsetAndAdvance
  if ← matchChar (ch '/') then
    consumeLineComment
    putComment x .lineComment offset
  else if ← matchChar (ch '*') then
    consumeBlockComment x offset
    putComment x .blockComment offset
  else if ← matchChar (ch '=') then put (.fixed .slashEq offset)
  else put (.fixed .slash offset)

def quoteRound (x : Context) (quote : UInt8) (ignoreQuote : Bool) : Lexer (Bool ⊕ Unit) := do
  let c ← peek
  if c = 0 then return .inr ()
  else if c = ch '\n' then
    report x .missingClosingQuote (← currentOffset) []
    return .inr ()
  else
    advance
    if c = ch '\\' then return .inl (!ignoreQuote)
    else if c = quote ∧ ignoreQuote = false then return .inr ()
    else if ignoreQuote then return .inl false
    else return .inl ignoreQuote

def onQuote (x : Context) (kind : TokenKind) (quote : UInt8) : Lexer Unit := do
  let offset ← getOffsetAndAdvance
  loop (quoteRound x quote) false
  let length := (← currentOffset) - offset
  put (.make kind offset length)

def onOtherChar (x : Context) (character : UInt8) : Lexer Unit := do
  let offset ← getOffsetAndAdvance
  if ← consumeMultibyteUtf8Char x character offset isUtf8XidStartChar then
    consumeWord x
    let length := (← currentOffset) - offset
    put (.make .identifier offset length)
  else return ()

def handleNextCharacter (x : Context) (c : UInt8) : Lexer Unit :=
  if c = ch ' ' ∨ c = ch '\t' ∨ c = ch '\n' ∨ c = 0x0b ∨ c = 0x0c ∨ c = ch '\r' then advance
  else if ch 'A' ≤ c ∧ c ≤ ch 'Z' ∨ c = ch '_' then onAlphabetic x
  else if ch 'a' ≤ c ∧ c ≤ ch 'z' then keywordHandler x c
  else if c = ch '0' then onZero
  else if ch '1' ≤ c ∧ c ≤ ch '9' then onNonzero
  else if c = ch '(' then onOneCharToken .lParen
  else if c = ch ')' then onOneCharToken .rParen
  else if c = ch '[' then onOneCharToken .lBracket
  else if c = ch ']' then onOneCharToken .rBracket
  else if c = ch '{' then onOneCharToken .lBrace
  else if c = ch '}' then onOneCharToken .rBrace
  else if c = ch ',' then onOneCharToken .comma
  else if c = ch ';' then onOneCharToken .semicolon
  else if c = ch '^' then onOneCharToken .caret
  else if c = ch '<' then onLeftAngle
  else if c = ch '>' then onRightAngle
  else if c = ch '.' then onDot
  else if c = ch ':' then onColon
  else if c = ch '=' then onEquals
  else if c = ch '+' then onPlus
  else if c = ch '-' then onMinus
  else if c = ch '*' then onStar
  else if c = ch '/' then onSlash x
  else if c = ch '%' then onPercent
  else if c = ch '&' then onAmpersand
  else if c = ch '|' then onPipe
  else if c = ch '~' then onTilde
  else if c = ch '!' then onBang
  else if c = ch '"' then onQuote x .stringLiteral (ch '"')
  else if c = ch '\'' then onQuote x .charLiteral (ch '\'')
  else onOtherChar x c

def sourceRound (x : Context) (_ : Unit) : Lexer (Unit ⊕ Unit) := do
  let c ← peek
  if c = 0 then return .inr ()
  else
    handleNextCharacter x c
    return .inl ()

def handleSource (x : Context) : Lexer Unit := do
  loop (sourceRound x) ()
  -- an embedded null character ends the loop early
  if ← valid then report x .invalidCharacter (← currentOffset) [.number 0]
  else return ()

def run (x : Context) : Lexer Unit := do
  if x.source.text.length ≤ sourceSizeMax then handleSource x
  else
    let made ← ofExcept (Reporter.report ⟨x.source.path,0,0⟩ .sourceFileTooLarge [.number sourceSizeMax])
    tell (.report made)
  put (.fixed .endOfFile (← currentOffset))

def tokensOf (log : List Event) : List Token := log.filterMap fun
  | .token token => some token
  | .report _ => none

def reportsOf (log : List Event) : List Report := log.filterMap fun
  | .token _ => none
  | .report made => some made
end Lexer

-- The tokens, and what the reporter was handed.
def runLexer (source : SourceView) (flags : LexerFlags) (tabSize : UInt8) : Except Fault (List Token × List Report) :=
  (Lexer.run ⟨source,flags,tabSize⟩ (.start source)).map fun outcome =>
    (Lexer.tokensOf outcome.log,Lexer.reportsOf outcome.log)
end Cero
