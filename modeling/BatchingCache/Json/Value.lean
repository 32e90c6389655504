import BatchingCache.Bytes
import BatchingCache.Number.Binary64
/-!
# JSON values

An object is a list of its fields.  Values that were read keep the fields in ascending order
of their names, each name once.
-/

namespace BatchingCache

/-- A number of a JSON text: whole and between `-2^63` and `2^64 - 1`, or a double. -/
inductive Json.Number where
  | int (i : Int)
  | float (x : Binary64)
  deriving DecidableEq, Repr

inductive Json where
  | null
  | bool (b : Bool)
  | number (n : Json.Number)
  | text (s : String)
  | list (items : List Json)
  | object (fields : List (String × Json))
  deriving Repr, Inhabited

namespace Json

abbrev int (i : Int) : Json := .number (.int i)

abbrev float (x : Binary64) : Json := .number (.float x)

abbrev quoteMark : UInt8 := 0x22
abbrev comma : UInt8 := 0x2C
abbrev minusSign : UInt8 := 0x2D
abbrev point : UInt8 := 0x2E
abbrev colonMark : UInt8 := 0x3A
abbrev openBracket : UInt8 := 0x5B
abbrev backslash : UInt8 := 0x5C
abbrev closeBracket : UInt8 := 0x5D
abbrev openBrace : UInt8 := 0x7B
abbrev closeBrace : UInt8 := 0x7D

def nullWord : Bytes := [0x6E, 0x75, 0x6C, 0x6C]
def trueWord : Bytes := [0x74, 0x72, 0x75, 0x65]
def falseWord : Bytes := [0x66, 0x61, 0x6C, 0x73, 0x65]

end Json

end BatchingCache
