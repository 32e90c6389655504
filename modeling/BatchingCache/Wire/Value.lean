import BatchingCache.Number.Decimal
import BatchingCache.Text.Quoted
import BatchingCache.Text.Utf8
/-!
# Values on the wire

What a server sends back for a command.  A fault can stand in place of any value, also inside
an array; the first one counts.
-/

namespace BatchingCache.Wire

/-- A fault that a server signals: a code, and what there is to say about it. -/
structure Fault where
  code : String
  detail : Option String
  deriving DecidableEq, Repr

def Fault.ofLine (line : String) : Fault :=
  let cs := line.toList
  ⟨String.ofList (cs.takeWhile (· ≠ ' ')),
    match cs.dropWhile (· ≠ ' ') with
    | [] => none
    | _ :: detail => some (String.ofList detail)⟩

inductive Value where
  | nil
  | int (n : Int64)
  | bulk (bs : Bytes)
  | okay
  | status (text : String)
  | array (items : List Value)
  | fault (f : Fault)

namespace Value

def ofStatus (text : String) : Value :=
  if text = "OK" then okay else status text

mutual

def firstFault? : Value → Option Fault
  | fault f => some f
  | array items => firstFaultIn? items
  | _ => none

def firstFaultIn? : List Value → Option Fault
  | [] => none
  | v :: vs =>
    match firstFault? v with
    | some f => some f
    | none => firstFaultIn? vs

end

mutual

def describe : Value → String
  | nil => "nil"
  | int n => "int(" ++ Decimal.intText n.toInt ++ ")"
  | bulk bs =>
    match Utf8.decode bs with
    | .ok s => "bulk-string('" ++ Text.quoted s ++ "')"
    | .error _ =>
      "binary-data([" ++ String.intercalate ", " (bs.map fun b => Decimal.natText b.toNat) ++ "])"
  | okay => "ok"
  | status text => "simple-string(" ++ Text.quoted text ++ ")"
  | array items => "array([" ++ String.intercalate ", " (describeAll items) ++ "])"
  | fault f =>
    "Server error: `" ++ f.code ++ (f.detail.map (": " ++ ·)).getD "" ++ "`"

def describeAll : List Value → List String
  | [] => []
  | v :: vs => describe v :: describeAll vs

end

end Value

end BatchingCache.Wire
