import BatchingCache.Bytes
import BatchingCache.Number.Decimal
/-!
# UTF-8

Writing a text as bytes, reading bytes back strictly, and reading them with every
ill-formed sequence replaced.  A sequence is ill-formed as far as it could still have
become a character, so its length says where reading resumes.
-/

namespace BatchingCache.Utf8

def encode (s : String) : Bytes :=
  s.toList.flatMap String.utf8EncodeChar

inductive Front where
  | char (c : Char) (rest : Bytes)
  /-- An ill-formed sequence of `size` bytes and the bytes after it. -/
  | invalid (size : Nat) (rest : Bytes)
  /-- The bytes end inside a character. -/
  | cut

/-- Reads the `owed` further bytes of a character of which `seen` bytes gave `bits`.
The first of them lies between `lo` and `hi`, the others between 80 and BF. -/
def Front.tail : Nat → Nat → UInt8 → UInt8 → Nat → Bytes → Front
  | 0, _, _, _, bits, rest => .char (Char.ofNat bits) rest
  | _ + 1, _, _, _, _, [] => .cut
  | owed + 1, seen, lo, hi, bits, b :: rest =>
    if lo ≤ b ∧ b ≤ hi then tail owed (seen + 1) 0x80 0xBF (bits * 64 + b.toNat % 64) rest
    else .invalid seen (b :: rest)

/-- Reads what begins with `b` and goes on with `rest`.  The second byte is bounded so that
overlong forms, surrogates and values above 10FFFF are ill-formed. -/
def front (b : UInt8) (rest : Bytes) : Front :=
  if b < 0x80 then .char (Char.ofNat b.toNat) rest
  else if b < 0xC2 then .invalid 1 rest
  else if b < 0xE0 then Front.tail 1 1 0x80 0xBF (b.toNat % 32) rest
  else if b = 0xE0 then Front.tail 2 1 0xA0 0xBF 0 rest
  else if b = 0xED then Front.tail 2 1 0x80 0x9F 13 rest
  else if b < 0xF0 then Front.tail 2 1 0x80 0xBF (b.toNat % 16) rest
  else if b = 0xF0 then Front.tail 3 1 0x90 0xBF 0 rest
  else if b < 0xF4 then Front.tail 3 1 0x80 0xBF (b.toNat % 8) rest
  else if b = 0xF4 then Front.tail 3 1 0x80 0x8F 4 rest
  else .invalid 1 rest

def Front.rest : Front → Bytes
  | .char _ rest => rest
  | .invalid _ rest => rest
  | .cut => []

theorem length_rest_tail_le (owed seen : Nat) (lo hi : UInt8) (bits : Nat) (bs : Bytes) :
    (Front.tail owed seen lo hi bits bs).rest.length ≤ bs.length := by
  induction owed generalizing seen lo hi bits bs with
  | zero => simp [Front.tail, Front.rest]
  | succ owed ih =>
    cases bs with
    | nil => simp [Front.tail, Front.rest]
    | cons b bs =>
      rw [Front.tail]
      split
      · exact Nat.le_succ_of_le (ih ..)
      · simp [Front.rest]

theorem length_rest_front_le (b : UInt8) (bs : Bytes) :
    (front b bs).rest.length ≤ bs.length := by
  unfold front
  repeat' split
  all_goals first
    | exact length_rest_tail_le ..
    | simp [Front.rest]

/-- How a byte string fails to be UTF-8: the number of well-formed bytes before the failure,
and the length of the ill-formed sequence, or `none` where the bytes end inside a character. -/
structure Fault where
  index : Nat
  size : Option Nat
  deriving DecidableEq, Repr

def Fault.message (f : Fault) : String :=
  match f.size with
  | some size =>
    "invalid utf-8 sequence of " ++ Decimal.natText size ++ " bytes from index " ++
      Decimal.natText f.index
  | none => "incomplete utf-8 byte sequence from index " ++ Decimal.natText f.index

def decodeChars (index : Nat) (bs : Bytes) : Except Fault (List Char) :=
  match bs with
  | [] => .ok []
  | b :: rest =>
    match h : front b rest with
    | .char c rest' => do
      let cs ← decodeChars (index + (rest.length + 1 - rest'.length)) rest'
      pure (c :: cs)
    | .invalid size _ => .error ⟨index, some size⟩
    | .cut => .error ⟨index, none⟩
termination_by bs.length
decreasing_by
  have hle := length_rest_front_le b rest
  rw [h] at hle
  exact Nat.lt_succ_of_le hle

def decode (bs : Bytes) : Except Fault String :=
  (decodeChars 0 bs).map String.ofList

/-- Reads characters, with one replacement character for every ill-formed sequence. -/
def lossyChars (bs : Bytes) : List Char :=
  match bs with
  | [] => []
  | b :: rest =>
    match _hfront : front b rest with
    | .char c rest' => c :: lossyChars rest'
    | .invalid _ rest' => '\uFFFD' :: lossyChars rest'
    | .cut => ['\uFFFD']
termination_by bs.length
decreasing_by
  all_goals
    have hle := length_rest_front_le b rest
    rw [_hfront] at hle
    exact Nat.lt_succ_of_le hle

def decodeLossy (bs : Bytes) : String :=
  String.ofList (lossyChars bs)

end BatchingCache.Utf8
