import BatchingCache.Json.Reader
/-!
# Passing over JSON values

A field that nobody asks for is passed over without being kept.  Its brackets are held on a
stack, so it may be nested to any depth, and its texts and numbers are checked for their form
alone.
-/

namespace BatchingCache.Json

inductive Bracket where
  | list
  | object
  deriving DecidableEq

def Bracket.close : Bracket → UInt8
  | .list => closeBracket
  | .object => closeBrace

def Bracket.endFlaw : Bracket → Flaw
  | .list => .endInList
  | .object => .endInObject

def Bracket.commaFlaw : Bracket → Flaw
  | .list => .expectedCommaOrBracket
  | .object => .expectedCommaOrBrace

def skipExponent (bs : Bytes) : Except Fault Bytes :=
  let bs := match bs with
    | b :: rest => if b = 0x2B || b = minusSign then rest else bs
    | [] => []
  match bs with
  | [] => failBefore .invalidNumber []
  | b :: rest => if isDigit b then .ok (rest.dropWhile isDigit) else failAt .invalidNumber bs

def skipAfterWhole (bs : Bytes) : Except Fault Bytes :=
  match bs with
  | [] => .ok []
  | b :: rest =>
    if b = point then
      match rest with
      | [] => failAt .invalidNumber []
      | d :: _ =>
        if isDigit d then
          let rest := rest.dropWhile isDigit
          match rest with
          | [] => .ok []
          | e :: more => if isExponentMark e then skipExponent more else .ok rest
        else failAt .invalidNumber rest
    else if isExponentMark b then skipExponent rest
    else .ok bs

def skipNumber (bs : Bytes) : Except Fault Bytes :=
  match bs with
  | [] => failBefore .invalidNumber []
  | b :: rest =>
    if b = 0x30 then
      match rest with
      | c :: _ => if isDigit c then failAt .invalidNumber rest else skipAfterWhole rest
      | [] => .ok []
    else if isDigit b then skipAfterWhole (rest.dropWhile isDigit)
    else failAt .invalidNumber bs

def skipEscape (bs : Bytes) : Except Fault Bytes :=
  match bs with
  | [] => failBefore .endInText []
  | b :: rest =>
    if (shortEscape? b).isSome then .ok rest
    else if b = 0x75 then (codeUnit rest).map Prod.snd
    else failAt .invalidEscape bs

theorem length_lt_of_skipEscape {bs rest : Bytes} (h : skipEscape bs = .ok rest) :
    rest.length < bs.length := by
  unfold skipEscape at h
  split at h
  · simp [failBefore] at h
  · split at h
    · simp only [Except.ok.injEq] at h
      simp [← h]
    · split at h
      · rename_i rest' _ _
        cases hu : codeUnit rest' with
        | error e => simp [hu, Except.map] at h
        | ok r =>
          obtain ⟨n, r⟩ := r
          have hlt := length_lt_of_codeUnit hu
          simp only [hu, Except.map, Except.ok.injEq] at h
          simp only [List.length_cons, ← h]
          omega
      · simp [failAt] at h

def skipText (bs : Bytes) : Except Fault Bytes :=
  match bs with
  | [] => failBefore .endInText []
  | b :: rest =>
    if b = quoteMark then .ok rest
    else if b = backslash then
      match _hescape : skipEscape rest with
      | .error e => .error e
      | .ok rest' => skipText rest'
    else if b < 0x20 then failBefore .controlCharacter bs
    else skipText rest
termination_by bs.length
decreasing_by
  · have := length_lt_of_skipEscape _hescape
    simp only [List.length_cons]
    omega
  · simp

def skipKey (bs : Bytes) : Except Fault Bytes := do
  let bs := skipBlank bs
  match bs with
  | [] => failBefore .endInObject []
  | b :: rest =>
    if b = quoteMark then
      let rest ← skipText rest
      colon rest
    else failAt .keyNotText bs

inductive Opening where
  /-- A whole value, and what follows it. -/
  | scalar (rest : Bytes)
  /-- An opening bracket, and what follows it. -/
  | bracket (b : Bracket) (rest : Bytes)

def skipOpening (bs : Bytes) : Except Fault Opening :=
  let bs := skipBlank bs
  match bs with
  | [] => failBefore .endInValue []
  | b :: rest =>
    if b = 0x6E then (word (nullWord.drop 1) rest).map .scalar
    else if b = 0x74 then (word (trueWord.drop 1) rest).map .scalar
    else if b = 0x66 then (word (falseWord.drop 1) rest).map .scalar
    else if b = minusSign then (skipNumber rest).map .scalar
    else if isDigit b then (skipNumber bs).map .scalar
    else if b = quoteMark then (skipText rest).map .scalar
    else if b = openBracket then .ok (.bracket .list rest)
    else if b = openBrace then .ok (.bracket .object rest)
    else failAt .expectedValue bs

/-- Closes brackets from the inside out as far as the text does.  Gives what follows the comma
after a closed element, and the brackets that are still open; after the last bracket, none.
`fresh` is the innermost bracket when nothing has been read inside it. -/
def closeBrackets : Nat → Bool → List Bracket → Bytes → Except Fault (List Bracket × Bytes)
  | _, _, [], bs => .ok ([], bs)
  | 0, _, b :: _, bs => failBefore b.endFlaw bs
  | fuel + 1, fresh, b :: outer, bs =>
    let bs := skipBlank bs
    match bs with
    | [] => failBefore b.endFlaw []
    | c :: rest =>
      if c = b.close then closeBrackets fuel false outer rest
      else if fresh then .ok (b :: outer, bs)
      else if c = comma then .ok (b :: outer, rest)
      else failAt b.commaFlaw bs

/-- Passes over the value that the innermost of the open brackets waits for, and on to the end
of the outermost bracket. -/
def skipInside : Nat → List Bracket → Bytes → Except Fault Bytes
  | 0, _, bs => failBefore .endInValue bs
  | fuel + 1, opened, bs => do
    let (opened, bs) ← match ← skipOpening bs with
      | .scalar rest => closeBrackets (rest.length + 1) false opened rest
      | .bracket b rest => closeBrackets (rest.length + 1) true (b :: opened) rest
    match opened with
    | [] => pure bs
    | .list :: _ => skipInside fuel opened bs
    | .object :: _ => do
      let bs ← skipKey bs
      skipInside fuel opened bs

def skipValue (bs : Bytes) : Except Fault Bytes :=
  skipInside (bs.length + 1) [] bs

end BatchingCache.Json
