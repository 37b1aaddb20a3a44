import Cero.Source

namespace Cero

inductive TokenKind where
  | identifier | lineComment | blockComment | decIntLiteral | hexIntLiteral | binIntLiteral
  | octIntLiteral | floatLiteral | charLiteral | stringLiteral
  | kwBreak | kwCatch | kwConst | kwContinue | kwDo | kwElse | kwEnum | kwFor | kwIf | kwIn
  | kwInterface | kwLet | kwMut | kwPrivate | kwPublic | kwRaise | kwReturn | kwStatic | kwStruct
  | kwSwitch | kwTry | kwUnchecked | kwWhile
  | dot | comma | colon | semicolon | lBrace | rBrace | lParen | rParen | lBracket | rBracket
  | lAngle | rAngle | eq | plus | minus | star | slash | percent | ampersand | pipe | tilde
  | caret | bang
  | thinArrow | thickArrow | colonColon | plusPlus | minusMinus | lAngleAngle | andAnd | pipePipe
  | eqEq | bangEq | lAngleEq | rAngleEq | plusEq | minusEq | starEq | slashEq | percentEq
  | ampersandEq | pipeEq | tildeEq
  | lAngleAngleEq | rAngleAngleEq | andAndEq | pipePipeEq
  | endOfFile
  deriving DecidableEq, Repr

-- The offset is a bit field of `source_size_bits` bits; every length is at most
-- the size of the source and stays far below the width of its field.
structure Token where
  kind : TokenKind
  offset : BitVec sourceSizeBits
  variableLength : Nat
  deriving DecidableEq, Repr

-- The constructor masks the offset to the width of its field.
def Token.make (kind : TokenKind) (offset : Nat) (variableLength : Nat) : Token :=
  ⟨kind,BitVec.ofNat sourceSizeBits offset,variableLength⟩

def Token.fixed (kind : TokenKind) (offset : Nat) : Token := .make kind offset 0

def Token.locateIn (t : Token) (source : SourceView) (tabSize : UInt8) : Except Fault CodeLocation :=
  source.locate t.offset.toNat tabSize

-- The switch of `get_text`; the kinds of variable length have no case there.
def fixedText : TokenKind → Option Bytes
  | .kwBreak => text "break" | .kwCatch => text "catch" | .kwConst => text "const"
  | .kwContinue => text "continue" | .kwDo => text "do" | .kwElse => text "else"
  | .kwEnum => text "enum" | .kwFor => text "for" | .kwIf => text "if" | .kwIn => text "in"
  | .kwInterface => text "interface" | .kwLet => text "let" | .kwMut => text "mut"
  | .kwPrivate => text "private" | .kwPublic => text "public" | .kwRaise => text "raise"
  | .kwReturn => text "return" | .kwStatic => text "static" | .kwStruct => text "struct"
  | .kwSwitch => text "switch" | .kwTry => text "try" | .kwUnchecked => text "unchecked"
  | .kwWhile => text "while"
  | .dot => text "." | .comma => text "," | .colon => text ":" | .semicolon => text ";"
  | .lBrace => text "\x7b" | .rBrace => text "\x7d" | .lParen => text "(" | .rParen => text ")"
  | .lBracket => text "[" | .rBracket => text "]" | .lAngle => text "<" | .rAngle => text ">"
  | .eq => text "=" | .plus => text "+" | .minus => text "-" | .star => text "*" | .slash => text "/"
  | .percent => text "%" | .ampersand => text "&" | .pipe => text "|" | .tilde => text "~"
  | .caret => text "^" | .bang => text "!"
  | .thinArrow => text "->" | .thickArrow => text "=>" | .colonColon => text "::"
  | .plusPlus => text "++" | .minusMinus => text "--" | .lAngleAngle => text "<<"
  | .andAnd => text "&&" | .pipePipe => text "||" | .eqEq => text "==" | .bangEq => text "!="
  | .lAngleEq => text "<=" | .rAngleEq => text ">=" | .plusEq => text "+=" | .minusEq => text "-="
  | .starEq => text "*=" | .slashEq => text "/=" | .percentEq => text "%=" | .ampersandEq => text "&="
  | .pipeEq => text "|=" | .tildeEq => text "~="
  | .lAngleAngleEq => text "<<=" | .rAngleAngleEq => text ">>=" | .andAndEq => text "&&="
  | .pipePipeEq => text "||="
  | .endOfFile => text ""
  | _ => none

def Token.getText (t : Token) (source : SourceView) : Except Fault Bytes :=
  if t.variableLength > 0 then substr source.text t.offset.toNat t.variableLength
  else match fixedText t.kind with
    | some bytes => .ok bytes
    | none => .error .unreachable

def getTokenMessageFormat : TokenKind → String
  | .identifier => "name `{}`"
  | .lineComment | .blockComment => "comment"
  | .decIntLiteral | .hexIntLiteral | .binIntLiteral | .octIntLiteral => "integer literal `{}`"
  | .floatLiteral => "floating-point literal `{}`"
  | .charLiteral => "character literal {}"
  | .stringLiteral => "string literal {}"
  | .endOfFile => "end of file"
  | _ => "`{}`"
end Cero
