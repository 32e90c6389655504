import BatchingCache.Json.Skip
/-!
# Reading records

A record is written as an object whose fields come in any order, or as a list of its fields
in their declared order.  Its fields are collected one by one and the record is built at the
end, from whatever has been collected.
-/

namespace BatchingCache.Json

/-! ## Single fields -/

/-- Refuses a value that is not what is expected.  It is read as far as that tells what it is. -/
def mismatch {α : Type} (expected : String) (bs : Bytes) : Except Fault α :=
  match bs with
  | [] => failBefore .endInValue []
  | b :: rest =>
    if b = 0x6E then do
      let rest ← word (nullWord.drop 1) rest
      failBefore (.invalidType .null expected) rest
    else if b = 0x74 then do
      let rest ← word (trueWord.drop 1) rest
      failBefore (.invalidType (.bool true) expected) rest
    else if b = 0x66 then do
      let rest ← word (falseWord.drop 1) rest
      failBefore (.invalidType (.bool false) expected) rest
    else if b = minusSign then do
      let (n, rest) ← readNumber true rest
      failBefore (.invalidType (.number n) expected) rest
    else if isDigit b then do
      let (n, rest) ← readNumber false bs
      failBefore (.invalidType (.number n) expected) rest
    else if b = quoteMark then do
      let (s, rest) ← readText rest
      failBefore (.invalidType (.text s) expected) rest
    else if b = openBracket then failBefore (.invalidType .sequence expected) bs
    else if b = openBrace then failBefore (.invalidType .map expected) bs
    else failAt .expectedValue bs

def textField : Reader String := fun bs =>
  let bs := skipBlank bs
  match bs with
  | [] => failBefore .endInValue []
  | b :: rest => if b = quoteMark then readText rest else mismatch "a string" bs

def optionalTextField : Reader (Option String) := fun bs =>
  let bs := skipBlank bs
  match bs with
  | [] => failBefore .endInValue []
  | b :: rest =>
    if b = 0x6E then do
      let rest ← word (nullWord.drop 1) rest
      pure (none, rest)
    else do
      let (s, rest) ← textField bs
      pure (some s, rest)

def numberField (expected : String) : Reader Number := fun bs =>
  let bs := skipBlank bs
  match bs with
  | [] => failBefore .endInValue []
  | b :: rest =>
    if b = minusSign then readNumber true rest
    else if isDigit b then readNumber false bs
    else mismatch expected bs

def natField (expected : String) (bound : Nat) : Reader Nat := fun bs => do
  let (n, rest) ← numberField expected bs
  match n with
  | .int i =>
    if 0 ≤ i ∧ i < bound then pure (i.toNat, rest) else failBefore (.invalidValue i expected) rest
  | .float x => failBefore (.invalidType (.number (.float x)) expected) rest

def doubleField : Reader Binary64 := fun bs => do
  let (n, rest) ← numberField "f64" bs
  match n with
  | .int i => pure (Binary64.ofInt i, rest)
  | .float x => pure (x, rest)

def boolField : Reader Bool := fun bs =>
  let bs := skipBlank bs
  match bs with
  | [] => failBefore .endInValue []
  | b :: rest =>
    if b = 0x74 then do
      let rest ← word (trueWord.drop 1) rest
      pure (true, rest)
    else if b = 0x66 then do
      let rest ← word (falseWord.drop 1) rest
      pure (false, rest)
    else mismatch "a boolean" bs

/-! ## Records -/

structure Field (P : Type) where
  name : String
  isSet : P → Bool
  read : P → Reader P

/-- A field that is kept under a projection of `P`, absent at first. -/
def Field.of {P α : Type} (name : String) (get : P → Option α) (set : P → α → P)
    (reader : Reader α) : Field P where
  name := name
  isSet p := (get p).isSome
  read p bs := do
    let (x, rest) ← reader bs
    pure (set p x, rest)

structure Record (P R : Type) where
  title : String
  sizedTitle : String
  fields : List (Field P)
  blank : P
  /-- The record, or the name of the first field that is missing. -/
  build : P → Except String R

def afterObject (bs : Bytes) : Bytes :=
  match skipBlank bs with
  | b :: rest => if b = closeBrace then rest else b :: rest
  | [] => []

def afterList (bs : Bytes) : Bytes :=
  match skipBlank bs with
  | b :: rest => if b = closeBracket then rest else b :: rest
  | [] => []

def closeList (bs : Bytes) : Except Fault Bytes :=
  let bs := skipBlank bs
  match bs with
  | [] => failBefore .endInList []
  | b :: rest =>
    if b = closeBracket then .ok rest
    else if b = comma then
      let rest := skipBlank rest
      match rest with
      | c :: _ =>
        failAt (if c = closeBracket then .trailingComma else .trailingCharacters) rest
      | [] => failAt .trailingCharacters []
    else failAt .trailingCharacters bs

namespace Record

variable {P R : Type}

/-- Collects fields from a list, in order, until it ends.  Gives also their number. -/
def collectList (p : P) (taken : Nat) : List (Field P) → Bytes → Except Fault (P × Nat × Bytes)
  | [], bs => .ok (p, taken, bs)
  | f :: fs, bs => do
    match ← nextElement (taken = 0) bs with
    | .stop bs => pure (p, taken, bs)
    | .more bs =>
      let (p, bs) ← f.read p bs
      collectList p (taken + 1) fs bs

def collectObject (fields : List (Field P)) :
    Nat → Bool → P → Bytes → Except Fault (P × Bytes)
  | 0, _, _, bs => failBefore .endInObject bs
  | fuel + 1, first, p, bs => do
    match ← nextKey first bs with
    | .stop bs => pure (p, bs)
    | .more bs =>
      let (name, bs) ← readText bs
      match fields.find? (·.name = name) with
      | none =>
        let bs ← colon bs
        let bs ← skipValue bs
        collectObject fields fuel false p bs
      | some f =>
        if f.isSet p then failBefore (.duplicateField name) (afterObject bs)
        else
          let bs ← colon bs
          let (p, bs) ← f.read p bs
          collectObject fields fuel false p bs

def read (r : Record P R) : Reader R := fun bs =>
  let bs := skipBlank bs
  match bs with
  | [] => failBefore .endInValue []
  | b :: rest =>
    if b = openBracket then do
      let (p, taken, rest) ← collectList r.blank 0 r.fields rest
      match r.build p with
      | .ok x =>
        let rest ← closeList rest
        pure (x, rest)
      | .error _ => failBefore (.invalidLength taken r.sizedTitle) (afterList rest)
    else if b = openBrace then do
      let (p, rest) ← collectObject r.fields (rest.length + 1) true r.blank rest
      match r.build p with
      | .ok x => pure (x, afterObject rest)
      | .error name => failBefore (.missingField name) (afterObject rest)
    else mismatch r.title bs

def parse (r : Record P R) (bs : Bytes) : Except Fault R :=
  document r.read bs

end Record

end BatchingCache.Json
