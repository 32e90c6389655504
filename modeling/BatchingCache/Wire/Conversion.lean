import BatchingCache.KeyMap
import BatchingCache.Store.Mutation
import BatchingCache.Wire.Value
/-!
# Conversions

A value on the wire is read as what the command that it replies to shall give: a whole number,
bytes, a list or a map.  Conversions are generous where there is just one way to read a value:
numbers also come as decimals, and nothing is an empty list.
-/

namespace BatchingCache.Wire

inductive Failure where
  | signalled (f : Fault)
  | mistyped (why : String) (value : Value)
  | numberNotUtf8
  | nameNotUtf8

def knownCodes : List (String × String) :=
  [("ERR", "ResponseError"), ("EXECABORT", "ExecAbortError"), ("LOADING", "BusyLoadingError"),
   ("NOSCRIPT", "NoScriptError"), ("TRYAGAIN", "TryAgain"), ("CROSSSLOT", "CrossSlot"),
   ("READONLY", "ReadOnly")]

def Fault.message (f : Fault) : String :=
  match knownCodes.lookup f.code with
  | some name =>
    "An error was signalled by the server" ++
      match f.detail with
      | some detail => " - " ++ name ++ ": " ++ detail
      | none => "- " ++ name
  | none => f.code ++ ": " ++ f.detail.getD "Unknown extension error encountered"

def Failure.message : Failure → String
  | signalled f => f.message
  | mistyped why value =>
    "Response was of incompatible type - TypeError: " ++ Text.quoted why ++
      " (response was " ++ value.describe ++ ")"
  | numberNotUtf8 => "Invalid UTF-8- TypeError"
  | nameNotUtf8 => "Cannot convert from UTF-8- TypeError"

abbrev Conversion (α : Type) := Value → Except Failure α

namespace Conversion

def ignore : Conversion Unit := fun _ => .ok ()

def raw : Conversion Value := .ok

/-! ## Numbers -/

structure NumberType (α : Type) where
  wrap : Int64 → α
  read : String → Option α

def decimalWithin (signed : Bool) (lo hi : Int) (s : String) : Option Int :=
  (Decimal.ofText? signed s).filter fun i => lo ≤ i && i ≤ hi

def NumberType.int64 : NumberType Int64 :=
  ⟨id, fun s => (decimalWithin true Int64.minValue.toInt Int64.maxValue.toInt s).map Int64.ofInt⟩

/-- Whole numbers without a sign.  A negative one wraps around. -/
def NumberType.uint64 : NumberType UInt64 :=
  ⟨Int64.toUInt64,
    fun s => (decimalWithin false 0 (UInt64.size - 1) s).map fun i => UInt64.ofNat i.toNat⟩

/-- Bytes.  Other numbers wrap around. -/
def NumberType.byte : NumberType UInt8 :=
  ⟨fun n => n.toUInt64.toUInt8,
    fun s => (decimalWithin false 0 (UInt8.size - 1) s).map fun i => UInt8.ofNat i.toNat⟩

def parsed {α : Type} (type : NumberType α) (v : Value) (s : String) : Except Failure α :=
  match type.read s with
  | some x => .ok x
  | none => .error (.mistyped "Could not convert from string." v)

def number {α : Type} (type : NumberType α) : Conversion α := fun v =>
  match v with
  | .int n => .ok (type.wrap n)
  | .status s => parsed type v s
  | .bulk bs =>
    match Utf8.decode bs with
    | .ok s => parsed type v s
    | .error _ => .error .numberNotUtf8
  | _ => .error (.mistyped "Response type not convertible to numeric." v)

/-! ## Lists and maps -/

def noList (v : Value) : Failure := .mistyped "Response type not vector compatible." v

def bytes : Conversion Bytes := fun v =>
  match v with
  | .nil => .ok []
  | .bulk bs => .ok bs
  | .array items => items.mapM (number .byte)
  | _ => .error (noList v)

def optional {α : Type} (convert : Conversion α) : Conversion (Option α) := fun v =>
  match v with
  | .nil => .ok none
  | _ => (convert v).map some

/-- Reads a list.  A single string stands for the list of it. -/
def list {α : Type} (convert : Conversion α) : Conversion (List α) := fun v =>
  match v with
  | .nil => .ok []
  | .bulk _ => (convert v).map fun x => [x]
  | .array items => items.mapM convert
  | _ => .error (noList v)

def name : Conversion String := fun v =>
  match v with
  | .bulk bs => (Utf8.decode bs).mapError fun _ => .nameNotUtf8
  | .okay => .ok "OK"
  | .status s => .ok s
  | .int n => .ok (Decimal.intText n.toInt)
  | _ => .error (.mistyped "Response type not string compatible." v)

def field (f : Value × Value) : Except Failure (String × Bytes) := do
  let k ← name f.1
  let x ← bytes f.2
  pure (k, x)

def map : Conversion (KeyMap Bytes) := fun v =>
  match v with
  | .nil => .ok ∅
  | .array items =>
    if items.length % 2 = 0 then ((pairUp items).mapM field).map KeyMap.ofList
    else .error (.mistyped "Response type not map compatible" v)
  | _ => .error (.mistyped "Response type not map compatible" v)

end Conversion

end BatchingCache.Wire
