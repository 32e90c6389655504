import BatchingCache.Json.Value
import BatchingCache.Number.Shortest
import BatchingCache.Text.Utf8
/-!
# Writing JSON

The one written form of a value: no blanks, only the escapes that JSON demands, whole numbers
in full and doubles in their shortest decimal.
-/

namespace BatchingCache.Json

/-- JSON writes decimals positionally from `10^-5` to `10^15`, and signs other exponents. -/
def numberLayout : DecimalLayout := ⟨-5, 15, true⟩

def hexByte (d : Nat) : UInt8 :=
  UInt8.ofNat (if d < 10 then 0x30 + d else 0x57 + d)

def printChar (c : Char) : Bytes :=
  match c with
  | '"' => [backslash, quoteMark]
  | '\\' => [backslash, backslash]
  | '\x08' => [backslash, 0x62]
  | '\x0c' => [backslash, 0x66]
  | '\n' => [backslash, 0x6E]
  | '\r' => [backslash, 0x72]
  | '\t' => [backslash, 0x74]
  | c =>
    if c.toNat < 0x20 then
      [backslash, 0x75, 0x30, 0x30, hexByte (c.toNat / 16), hexByte (c.toNat % 16)]
    else String.utf8EncodeChar c

def printText (s : String) : Bytes :=
  quoteMark :: s.toList.flatMap printChar ++ [quoteMark]

/-- A number as text; a double that is no number has none and is written `null`. -/
def Number.write : Number → String
  | .int i => Decimal.intText i
  | .float x => if x.isFinite then numberLayout.write x else "null"

mutual

def print : Json → Bytes
  | .null => nullWord
  | .bool b => if b then trueWord else falseWord
  | .number n => Utf8.encode n.write
  | .text s => printText s
  | .list items => openBracket :: printItems true items
  | .object fields => openBrace :: printFields true fields

def printItems (first : Bool) : List Json → Bytes
  | [] => [closeBracket]
  | v :: vs => (if first then [] else [comma]) ++ print v ++ printItems false vs

def printFields (first : Bool) : List (String × Json) → Bytes
  | [] => [closeBrace]
  | (name, v) :: fields =>
    (if first then [] else [comma]) ++ printText name ++ colonMark :: print v ++
      printFields false fields

end

end BatchingCache.Json
