import Cero.Source

namespace Cero

inductive Message where
  | fileNotFound | couldNotOpenFile | sourceFileTooLarge | invalidCharacter | missingClosingQuote
  | unterminatedBlockComment
  | expectFunctionStructOrEnum | expectParenAfterFunctionName | expectParameterType
  | expectParameterName | expectParenAfterParameters | expectReturnType
  | expectBraceBeforeFunctionBody | expectExpression | expectSemicolon | expectClosingParenInCall
  deriving DecidableEq, Repr

def getMessageFormatString : Message → String
  | .fileNotFound => "file not found"
  | .couldNotOpenFile => "could not open file, system error: \"{}\""
  | .sourceFileTooLarge => "source file is too large, maximum allowed is {} bytes"
  | .invalidCharacter => "invalid character `0x\x7b:x\x7d`"
  | .missingClosingQuote => "missing closing quote"
  | .unterminatedBlockComment => "block comment must be closed with `*/`"
  | .expectFunctionStructOrEnum => "expected function, struct or enum, but found {}"
  | .expectParenAfterFunctionName => "expected `(` after function name, but found {}"
  | .expectParameterType => "expected type for parameter, but found {}"
  | .expectParameterName => "expected name for parameter, but found {}"
  | .expectParenAfterParameters => "expected `)` after parameters, but found {}"
  | .expectReturnType => "expected return type, but found {}"
  | .expectBraceBeforeFunctionBody => "expected `\x7b\x7b` before function body, but found {}"
  | .expectExpression => "expected expression, but found {}"
  | .expectSemicolon => "expected a `;`, but found {}"
  | .expectClosingParenInCall => "expected closing `)` in function call, but found {}"

inductive MessageLevel where
  | error | warning | help | note
  deriving DecidableEq, Repr

def getDefaultMessageLevel : Message → MessageLevel
  | .unterminatedBlockComment => .warning
  | _ => .error

inductive MessageArg where
  | number (value : Nat)
  | text (bytes : Bytes)
  deriving DecidableEq, Repr

abbrev MessageArgs := List MessageArg

def countPlaceholders : List Char → (isOpen : Bool) → Nat
  | [],_ => 0
  | c :: rest,isOpen =>
    if c = '\x7b' then countPlaceholders rest (!isOpen)
    else if c = '\x7d' && isOpen then countPlaceholders rest false + 1
    else countPlaceholders rest isOpen

def MessageArgs.validForMessage (args : MessageArgs) (message : Message) : Bool :=
  args.length == countPlaceholders (getMessageFormatString message).toList false

-- What a reporter is handed. Putting the arguments into the format string is left
-- to the formatting library.
structure Report where
  location : CodeLocation
  level : MessageLevel
  message : Message
  args : MessageArgs
  deriving DecidableEq, Repr

def Reporter.report (location : CodeLocation) (message : Message) (args : MessageArgs) : Except Fault Report :=
  if args.validForMessage message then .ok ⟨location,getDefaultMessageLevel message,message,args⟩
  else .error .argumentCount
end Cero
