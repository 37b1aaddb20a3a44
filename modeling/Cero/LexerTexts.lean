import Cero.LexerScanners

-- The texts that spell each kind of token, and how a list of them is written.
namespace Cero.Lexer

-- Digits behind a first one; whitespace may stand between digits.
inductive DigitTail (digit : UInt8 → Bool) : Bytes → Prop where
  | nil : DigitTail digit []
  | digit {b : UInt8} {rest : Bytes} : digit b = true → DigitTail digit rest → DigitTail digit (b :: rest)
  | spaced {blanks : Bytes} {b : UInt8} {rest : Bytes} : blanks ≠ [] → Blank blanks → digit b = true →
      DigitTail digit rest → DigitTail digit (blanks ++ b :: rest)

inductive Digits (digit : UInt8 → Bool) : Bytes → Prop where
  | mk {b : UInt8} {rest : Bytes} : digit b = true → DigitTail digit rest → Digits digit (b :: rest)

-- The characters of a name: ASCII ones, and others by the Unicode tables.
def StartsName (c : Char) : Prop :=
  if c.toNat < 0x80 then c.isAlpha ∨ c = '_' else InTable xidStartTable c.toNat

def ContinuesName (c : Char) : Prop :=
  if c.toNat < 0x80 then c.isAlphanum ∨ c = '_' else InTable xidContinueTable c.toNat

def encode (cs : List Char) : Bytes := cs.flatMap String.utf8EncodeChar

-- The inside of a literal: no quote, backslash, newline or null byte, but for what
-- stands behind a backslash.
inductive QuotedBody (quote : UInt8) : Bytes → Prop where
  | nil : QuotedBody quote []
  | plain {b : UInt8} {rest : Bytes} : b ≠ quote → b ≠ ch '\\' → b ≠ ch '\n' → b ≠ 0 →
      QuotedBody quote rest → QuotedBody quote (b :: rest)
  | escape {b : UInt8} {rest : Bytes} : b ≠ ch '\n' → b ≠ 0 →
      QuotedBody quote rest → QuotedBody quote (ch '\\' :: b :: rest)

-- Whether a text read with `depth` comments open closes the last of them with its
-- last bytes and none before.
def closes : (depth : Nat) → Bytes → Bool
  | depth,a :: b :: rest =>
    if a = ch '*' ∧ b = ch '/' then (if depth = 1 then rest.isEmpty else closes (depth-1) rest)
    else if a = ch '/' ∧ b = ch '*' then closes (depth+1) rest
    else closes depth (b :: rest)
  | _,_ => false

-- The texts of a kind.
inductive TextOf : TokenKind → Bytes → Prop where
  | fixed {kind : TokenKind} {w : Bytes} : fixedText kind = some w → kind ≠ .endOfFile → TextOf kind w
  | identifier {c : Char} {cs : List Char} : StartsName c → (∀ d ∈ cs, ContinuesName d) →
      (∀ kind, (encode (c :: cs),kind) ∉ keywords) → TextOf .identifier (encode (c :: cs))
  | decInt {w : Bytes} : Digits isDecimalDigit w → TextOf .decIntLiteral w
  | hexInt {u : Bytes} : Digits isHexadecimalDigit u → TextOf .hexIntLiteral (text "0x" ++ u)
  | binInt {u : Bytes} : Digits isDecimalDigit u → TextOf .binIntLiteral (text "0b" ++ u)
  | octInt {u : Bytes} : Digits isDecimalDigit u → TextOf .octIntLiteral (text "0o" ++ u)
  | float {u v : Bytes} : (u = [] ∨ Digits isDecimalDigit u) → Digits isDecimalDigit v →
      TextOf .floatLiteral (u ++ ch '.' :: v)
  | character {u : Bytes} : QuotedBody (ch '\'') u → TextOf .charLiteral (ch '\'' :: (u ++ [ch '\'']))
  | string {u : Bytes} : QuotedBody (ch '"') u → TextOf .stringLiteral (ch '"' :: (u ++ [ch '"']))
  | lineComment {u : Bytes} : (∀ b ∈ u, b ≠ ch '\n' ∧ b ≠ 0) → TextOf .lineComment (text "//" ++ u)
  | blockComment {u : Bytes} : closes 1 u = true → TextOf .blockComment (text "/*" ++ u)

structure Lexeme where
  kind : TokenKind
  text : Bytes

def isNumeric : TokenKind → Bool
  | .decIntLiteral | .hexIntLiteral | .binIntLiteral | .octIntLiteral | .floatLiteral => true
  | _ => false

def isWord (kind : TokenKind) : Bool := kind = .identifier || keywords.any (fun keyword => keyword.2 = kind)

end Cero.Lexer
