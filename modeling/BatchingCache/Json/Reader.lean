import BatchingCache.Json.Fault
import BatchingCache.KeyMap
/-!
# Reading JSON

A reader takes a value off the front of a byte string and leaves the rest.  Lists and objects
may be nested up to `maxDepth`, and the depth that is left is what `readValue` recurs on.
-/

namespace BatchingCache.Json

abbrev Reader (α : Type) := Bytes → Except Fault (α × Bytes)

def failAt {α : Type} (flaw : Flaw) (bs : Bytes) : Except Fault α :=
  .error ⟨flaw, bs.length - 1⟩

def failBefore {α : Type} (flaw : Flaw) (bs : Bytes) : Except Fault α :=
  .error ⟨flaw, bs.length⟩

def isBlank (b : UInt8) : Bool := b = 0x20 || b = 0x09 || b = 0x0A || b = 0x0D

def skipBlank (bs : Bytes) : Bytes := bs.dropWhile isBlank

def isDigit (b : UInt8) : Bool := 0x30 ≤ b && b ≤ 0x39

def digitValue (b : UInt8) : Nat := b.toNat - 0x30

def word : Bytes → Bytes → Except Fault Bytes
  | [], bs => .ok bs
  | _ :: _, [] => failBefore .endInValue []
  | w :: ws, b :: bs => if b = w then word ws bs else failBefore .expectedIdent bs

/-! ## Numbers -/

/-- Appends digits to `n` while it stays below `2^64`.  Gives the number, how many digits were
taken, and the rest. -/
def gather (n taken : Nat) : Bytes → Nat × Nat × Bytes
  | [] => (n, taken, [])
  | b :: bs =>
    if isDigit b && n * 10 + digitValue b < UInt64.size then
      gather (n * 10 + digitValue b) (taken + 1) bs
    else (n, taken, b :: bs)

def maxPower : Nat := 308

/-- The double for `n · 10^power`: one rounding of `n`, and one for each product or quotient
with a power of ten.  There is none above the largest double. -/
def assemble (negative : Bool) (n : Nat) (power : Int) : Option Binary64 :=
  let f := Binary64.ofNat n
  let k := power.natAbs
  let magnitude :=
    if 0 ≤ power then
      if k ≤ maxPower then
        let product := f * Binary64.ofNat (Nat.pow 10 k)
        if product.isInfinite then none else some product
      else if f.isZero then some f else none
    else if k ≤ maxPower then some (f / Binary64.ofNat (Nat.pow 10 k))
    else if k ≤ 2 * maxPower then
      some (f / Binary64.ofNat (Nat.pow 10 maxPower) / Binary64.ofNat (Nat.pow 10 (k - maxPower)))
    else some .zero
  magnitude.map fun x => if negative then -x else x

def readFloat (negative : Bool) (n : Nat) (power : Int) (bs : Bytes) :
    Except Fault (Number × Bytes) :=
  match assemble negative n power with
  | some x => .ok (.float x, bs)
  | none => failBefore .numberOutOfRange bs

def maxExponent : Nat := (1 <<< 31) - 1

/-- Appends digits to the exponent `n` while it is at most `maxExponent`.  Gives the exponent,
or `none` when a digit no longer fits, and the rest. -/
def gatherExponent (n : Nat) : Bytes → Option Nat × Bytes
  | [] => (some n, [])
  | b :: bs =>
    if isDigit b then
      if n * 10 + digitValue b ≤ maxExponent then gatherExponent (n * 10 + digitValue b) bs
      else (none, bs)
    else (some n, b :: bs)

def exponentPart (negative : Bool) (n : Nat) (power : Int) (bs : Bytes) :
    Except Fault (Number × Bytes) :=
  let (down, bs) := match bs with
    | b :: rest =>
      if b = 0x2B then (false, rest) else if b = minusSign then (true, rest) else (false, bs)
    | [] => (false, [])
  match bs with
  | [] => failBefore .endInValue []
  | b :: rest =>
    if isDigit b then
      match gatherExponent (digitValue b) rest with
      | (some e, rest) => readFloat negative n (if down then power - e else power + e) rest
      | (none, rest) =>
        if n ≠ 0 && !down then failBefore .numberOutOfRange rest
        else .ok (.float (Binary64.make negative 0), rest.dropWhile isDigit)
    else failAt .invalidNumber (b :: rest)

def isExponentMark (b : UInt8) : Bool := b = 0x65 || b = 0x45

def afterDigits (negative : Bool) (n : Nat) (power : Int) (bs : Bytes) :
    Except Fault (Number × Bytes) :=
  match bs with
  | b :: rest =>
    if isExponentMark b then exponentPart negative n power rest
    else readFloat negative n power bs
  | [] => readFloat negative n power []

/-- Reads what follows a decimal point.  Digits for which there is no room are dropped. -/
def fractionPart (negative : Bool) (n : Nat) (power : Int) (bs : Bytes) :
    Except Fault (Number × Bytes) :=
  let (n, taken, rest) := gather n 0 bs
  match rest with
  | [] =>
    if taken = 0 then failBefore .endInValue [] else readFloat negative n (power - taken) []
  | b :: more =>
    if isDigit b then afterDigits negative n (power - taken) (more.dropWhile isDigit)
    else if taken = 0 then failAt .invalidNumber rest
    else afterDigits negative n (power - taken) rest

def wholeNumber (negative : Bool) (n : Nat) : Number :=
  if negative then
    if 0 < n && n ≤ 1 <<< 63 then .int (-(n : Int)) else .float (-(Binary64.ofNat n))
  else .int n

def afterWhole (negative : Bool) (n : Nat) (bs : Bytes) : Except Fault (Number × Bytes) :=
  match bs with
  | [] => .ok (wholeNumber negative n, [])
  | b :: rest =>
    if b = point then fractionPart negative n 0 rest
    else if isExponentMark b then exponentPart negative n 0 rest
    else .ok (wholeNumber negative n, bs)

def longNumber (negative : Bool) (n : Nat) (bs : Bytes) : Except Fault (Number × Bytes) :=
  let power := (bs.takeWhile isDigit).length
  let bs := bs.dropWhile isDigit
  match bs with
  | b :: rest =>
    if b = point then fractionPart negative n power rest else afterDigits negative n power bs
  | [] => readFloat negative n power []

def readNumber (negative : Bool) (bs : Bytes) : Except Fault (Number × Bytes) :=
  match bs with
  | [] => failBefore .endInValue []
  | b :: rest =>
    if b = 0x30 then
      match rest with
      | c :: _ => if isDigit c then failAt .invalidNumber rest else afterWhole negative 0 rest
      | [] => afterWhole negative 0 []
    else if isDigit b then
      let (n, _, rest) := gather (digitValue b) 1 rest
      match rest with
      | c :: _ => if isDigit c then longNumber negative n rest else afterWhole negative n rest
      | [] => afterWhole negative n []
    else failAt .invalidNumber bs

/-! ## Texts -/

def hexValue? (b : UInt8) : Option Nat :=
  if isDigit b then some (digitValue b)
  else if 0x61 ≤ b && b ≤ 0x66 then some (b.toNat - 0x57)
  else if 0x41 ≤ b && b ≤ 0x46 then some (b.toNat - 0x37)
  else none

def codeUnit (bs : Bytes) : Except Fault (Nat × Bytes) :=
  match bs with
  | a :: b :: c :: d :: rest =>
    match hexValue? a, hexValue? b, hexValue? c, hexValue? d with
    | some a, some b, some c, some d => .ok (((a * 16 + b) * 16 + c) * 16 + d, rest)
    | _, _, _, _ => failBefore .invalidEscape rest
  | _ => failBefore .endInText []

def isLeading (n : Nat) : Bool := 0xD800 ≤ n && n < 0xDC00

def isTrailing (n : Nat) : Bool := 0xDC00 ≤ n && n < 0xE000

def trailingHalf (lead : Nat) (bs : Bytes) : Except Fault (Char × Bytes) :=
  match bs with
  | [] => failBefore .endInText []
  | b :: rest =>
    if b ≠ backslash then failAt .unexpectedEndOfEscape bs
    else
      match rest with
      | [] => failBefore .endInText []
      | c :: more =>
        if c ≠ 0x75 then failAt .unexpectedEndOfEscape rest
        else do
          let (n, more) ← codeUnit more
          if isTrailing n then
            pure (Char.ofNat (0x10000 + (lead - 0xD800) * 0x400 + (n - 0xDC00)), more)
          else failBefore .loneSurrogate more

def unicodeEscape (bs : Bytes) : Except Fault (Char × Bytes) := do
  let (n, rest) ← codeUnit bs
  if isTrailing n then failBefore .loneSurrogate rest
  else if isLeading n then trailingHalf n rest
  else pure (Char.ofNat n, rest)

def shortEscape? (b : UInt8) : Option Char :=
  if b = quoteMark then some '"'
  else if b = backslash then some '\\'
  else if b = 0x2F then some '/'
  else if b = 0x62 then some '\x08'
  else if b = 0x66 then some '\x0c'
  else if b = 0x6E then some '\n'
  else if b = 0x72 then some '\r'
  else if b = 0x74 then some '\t'
  else none

def escape (bs : Bytes) : Except Fault (Char × Bytes) :=
  match bs with
  | [] => failBefore .endInText []
  | b :: rest =>
    match shortEscape? b with
    | some c => .ok (c, rest)
    | none => if b = 0x75 then unicodeEscape rest else failAt .invalidEscape bs

theorem length_lt_of_codeUnit {bs rest : Bytes} {n : Nat} (h : codeUnit bs = .ok (n, rest)) :
    rest.length < bs.length := by
  unfold codeUnit at h
  split at h
  · split at h
    · simp only [Except.ok.injEq, Prod.mk.injEq] at h
      obtain ⟨_, rfl⟩ := h
      simp only [List.length_cons]
      omega
    · simp [failBefore] at h
  · simp [failBefore] at h

theorem length_lt_of_trailingHalf {lead : Nat} {bs rest : Bytes} {c : Char}
    (h : trailingHalf lead bs = .ok (c, rest)) : rest.length < bs.length := by
  unfold trailingHalf at h
  split at h
  · simp [failBefore] at h
  · split at h
    · simp [failAt] at h
    · split at h
      · simp [failBefore] at h
      · rename_i more
        split at h
        · simp [failAt] at h
        · cases hu : codeUnit more with
          | error e => simp [hu, bind, Except.bind] at h
          | ok r =>
            obtain ⟨n, r⟩ := r
            have hlt := length_lt_of_codeUnit hu
            simp only [hu, bind, Except.bind] at h
            split at h
            · simp only [pure, Except.pure, Except.ok.injEq, Prod.mk.injEq] at h
              simp only [List.length_cons, ← h.2]
              omega
            · simp [failBefore] at h

theorem length_lt_of_escape {bs rest : Bytes} {c : Char} (h : escape bs = .ok (c, rest)) :
    rest.length < bs.length := by
  unfold escape at h
  split at h
  · simp [failBefore] at h
  · rename_i b rest'
    split at h
    · simp only [Except.ok.injEq, Prod.mk.injEq] at h
      simp [← h.2]
    · split at h
      · unfold unicodeEscape at h
        cases hu : codeUnit rest' with
        | error e => simp [hu, bind, Except.bind] at h
        | ok r =>
          obtain ⟨n, r⟩ := r
          have hlt := length_lt_of_codeUnit hu
          simp only [hu, bind, Except.bind] at h
          split at h
          · simp [failBefore] at h
          · split at h
            · have := length_lt_of_trailingHalf h
              simp only [List.length_cons]
              omega
            · simp only [pure, Except.pure, Except.ok.injEq, Prod.mk.injEq] at h
              simp only [List.length_cons, ← h.2]
              omega
      · simp [failAt] at h

def textBytes (bs : Bytes) : Except Fault (Bytes × Bytes) :=
  match bs with
  | [] => failBefore .endInText []
  | b :: rest =>
    if b = quoteMark then .ok ([], rest)
    else if b = backslash then
      match _hescape : escape rest with
      | .error e => .error e
      | .ok (c, rest') => do
        let (more, rest'') ← textBytes rest'
        pure (String.utf8EncodeChar c ++ more, rest'')
    else if b < 0x20 then failAt .controlCharacter bs
    else do
      let (more, rest') ← textBytes rest
      pure (b :: more, rest')
termination_by bs.length
decreasing_by
  · have := length_lt_of_escape _hescape
    simp only [List.length_cons]
    omega
  · simp

/-- The bytes of a text after the one that gave byte number `n` of it. -/
def bytesAfter (n : Nat) (bs : Bytes) : Bytes :=
  match bs with
  | [] => []
  | b :: rest =>
    if b = backslash then
      match _hescape : escape rest with
      | .error _ => rest
      | .ok (c, rest') =>
        let size := (String.utf8EncodeChar c).length
        if n < size then rest' else bytesAfter (n - size) rest'
    else if n = 0 then rest
    else bytesAfter (n - 1) rest
termination_by bs.length
decreasing_by
  · have := length_lt_of_escape _hescape
    simp only [List.length_cons]
    omega
  · simp

def readText (bs : Bytes) : Except Fault (String × Bytes) := do
  let (content, rest) ← textBytes bs
  match Utf8.decode content with
  | .ok s => pure (s, rest)
  | .error e => failBefore .invalidCodePoint (bytesAfter e.index bs)

/-! ## Lists and objects -/

inductive Next where
  | stop (bs : Bytes)
  /-- At the next element, or after the opening quote of the next name. -/
  | more (bs : Bytes)

def nextElement (first : Bool) (bs : Bytes) : Except Fault Next :=
  let bs := skipBlank bs
  match bs with
  | [] => failBefore .endInList []
  | b :: rest =>
    if b = closeBracket then .ok (.stop bs)
    else if first then .ok (.more bs)
    else if b = comma then
      let bs := skipBlank rest
      match bs with
      | [] => failBefore .endInValue []
      | c :: _ => if c = closeBracket then failAt .trailingComma bs else .ok (.more bs)
    else failAt .expectedCommaOrBracket bs

def nextKey (first : Bool) (bs : Bytes) : Except Fault Next :=
  let bs := skipBlank bs
  match bs with
  | [] => failBefore .endInObject []
  | b :: rest =>
    if b = closeBrace then .ok (.stop bs)
    else if first then
      if b = quoteMark then .ok (.more rest) else failAt .keyNotText bs
    else if b = comma then
      let bs := skipBlank rest
      match bs with
      | [] => failBefore .endInValue []
      | c :: rest =>
        if c = quoteMark then .ok (.more rest)
        else if c = closeBrace then failAt .trailingComma bs
        else failAt .keyNotText bs
    else failAt .expectedCommaOrBrace bs

def colon (bs : Bytes) : Except Fault Bytes :=
  let bs := skipBlank bs
  match bs with
  | [] => failBefore .endInObject []
  | b :: rest => if b = colonMark then .ok rest else failAt .expectedColon bs

def elements {α : Type} (item : Reader α) : Nat → Bool → Bytes → Except Fault (List α × Bytes)
  | 0, _, bs => failBefore .endInList bs
  | fuel + 1, first, bs => do
    match ← nextElement first bs with
    | .stop bs => pure ([], bs.drop 1)
    | .more bs =>
      let (x, bs) ← item bs
      let (xs, bs) ← elements item fuel false bs
      pure (x :: xs, bs)

/-- Reads the fields of an object and its closing brace, at most `fuel` of them.  Of fields with
one name the last counts. -/
def members {α : Type} (item : Reader α) (fields : List (String × α)) :
    Nat → Bool → Bytes → Except Fault (List (String × α) × Bytes)
  | 0, _, bs => failBefore .endInObject bs
  | fuel + 1, first, bs => do
    match ← nextKey first bs with
    | .stop bs => pure (fields, bs.drop 1)
    | .more bs =>
      let (name, bs) ← readText bs
      let bs ← colon bs
      let (x, bs) ← item bs
      members item (KeyMap.insertEntry name x fields) fuel false bs

def maxDepth : Nat := 128

/-- Reads any value, with less than `depth` levels of lists and objects. -/
def readValue : Nat → Reader Json
  | 0, bs => failAt .tooDeep bs
  | depth + 1, bs =>
    let bs := skipBlank bs
    match bs with
    | [] => failBefore .endInValue []
    | b :: rest =>
      if b = 0x6E then do
        let rest ← word (nullWord.drop 1) rest
        pure (.null, rest)
      else if b = 0x74 then do
        let rest ← word (trueWord.drop 1) rest
        pure (.bool true, rest)
      else if b = 0x66 then do
        let rest ← word (falseWord.drop 1) rest
        pure (.bool false, rest)
      else if b = minusSign then do
        let (n, rest) ← readNumber true rest
        pure (.number n, rest)
      else if isDigit b then do
        let (n, rest) ← readNumber false bs
        pure (.number n, rest)
      else if b = quoteMark then do
        let (s, rest) ← readText rest
        pure (.text s, rest)
      else if b = openBracket then
        if depth = 0 then failAt .tooDeep bs
        else do
          let (items, rest) ← elements (readValue depth) (rest.length + 1) true rest
          pure (.list items, rest)
      else if b = openBrace then
        if depth = 0 then failAt .tooDeep bs
        else do
          let (fields, rest) ← members (readValue depth) [] (rest.length + 1) true rest
          pure (.object fields, rest)
      else failAt .expectedValue bs

def document {α : Type} (reader : Reader α) (bs : Bytes) : Except Fault α := do
  let (x, rest) ← reader bs
  match skipBlank rest with
  | [] => pure x
  | rest => failAt .trailingCharacters rest

def parse (bs : Bytes) : Except Fault Json :=
  document (readValue maxDepth) bs

end BatchingCache.Json
