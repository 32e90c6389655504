import BatchingCache.Json.Printer
import BatchingCache.Text.Quoted
/-!
# Failures of reading JSON

What can be wrong with a JSON text, how it is told, and where.  A failure keeps the number of
bytes after it; the whole text then gives its line and column.
-/

namespace BatchingCache.Json

inductive Found where
  | null
  | bool (b : Bool)
  | number (n : Number)
  | text (s : String)
  | sequence
  | map

inductive Flaw where
  | endInValue
  | endInList
  | endInObject
  | endInText
  | expectedValue
  | expectedIdent
  | expectedCommaOrBracket
  | expectedCommaOrBrace
  | expectedColon
  | keyNotText
  | trailingComma
  | trailingCharacters
  | invalidNumber
  | numberOutOfRange
  | controlCharacter
  | invalidEscape
  | unexpectedEndOfEscape
  | loneSurrogate
  | invalidCodePoint
  | tooDeep
  | invalidType (found : Found) (expected : String)
  | invalidValue (i : Int) (expected : String)
  | invalidLength (size : Nat) (expected : String)
  | missingField (name : String)
  | duplicateField (name : String)

def Found.describe : Found → String
  | .null => "null"
  | .bool b => "boolean `" ++ (if b then "true" else "false") ++ "`"
  | .number (.int i) => "integer `" ++ Decimal.intText i ++ "`"
  | .number (.float x) => "floating point `" ++ (Number.float x).write ++ "`"
  | .text s => "string " ++ Text.quoted s
  | .sequence => "sequence"
  | .map => "map"

def Flaw.describe : Flaw → String
  | .endInValue => "EOF while parsing a value"
  | .endInList => "EOF while parsing a list"
  | .endInObject => "EOF while parsing an object"
  | .endInText => "EOF while parsing a string"
  | .expectedValue => "expected value"
  | .expectedIdent => "expected ident"
  | .expectedCommaOrBracket => "expected `,` or `]`"
  | .expectedCommaOrBrace => "expected `,` or `\x7d`"
  | .expectedColon => "expected `:`"
  | .keyNotText => "key must be a string"
  | .trailingComma => "trailing comma"
  | .trailingCharacters => "trailing characters"
  | .invalidNumber => "invalid number"
  | .numberOutOfRange => "number out of range"
  | .controlCharacter => "control character (\\u0000-\\u001F) found while parsing a string"
  | .invalidEscape => "invalid escape"
  | .unexpectedEndOfEscape => "unexpected end of hex escape"
  | .loneSurrogate => "lone leading surrogate in hex escape"
  | .invalidCodePoint => "invalid unicode code point"
  | .tooDeep => "recursion limit exceeded"
  | .invalidType found expected =>
    "invalid type: " ++ found.describe ++ ", expected " ++ expected
  | .invalidValue i expected =>
    "invalid value: integer `" ++ Decimal.intText i ++ "`, expected " ++ expected
  | .invalidLength size expected =>
    "invalid length " ++ Decimal.natText size ++ ", expected " ++ expected
  | .missingField name => "missing field `" ++ name ++ "`"
  | .duplicateField name => "duplicate field `" ++ name ++ "`"

/-- A flaw and the number of bytes of the text that follow it. -/
structure Fault where
  flaw : Flaw
  left : Nat

def lineOf (bs : Bytes) : Nat := 1 + bs.count 0x0A

def columnOf (bs : Bytes) : Nat := (bs.reverse.takeWhile (· ≠ 0x0A)).length

def Fault.message (input : Bytes) (f : Fault) : String :=
  let before := input.take (input.length - f.left)
  f.flaw.describe ++ " at line " ++ Decimal.natText (lineOf before) ++ " column " ++
    Decimal.natText (columnOf before)

end BatchingCache.Json
