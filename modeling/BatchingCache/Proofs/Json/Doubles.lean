import BatchingCache.Json.Printer
import BatchingCache.Json.Record
import BatchingCache.Proofs.Json.Records
import BatchingCache.Proofs.Number.Shortest
/-!
# Doubles in JSON

Every finite double is written so that it is read as a double: the reader refuses a decimal only where
the product with its power of ten is no longer finite, and no shortest decimal goes that far.
-/

namespace BatchingCache

namespace Json

open Decimal (extend ofDigits Canonical)

/-! ## Powers of ten -/

section Assemble

variable {negative : Bool} {n : Nat}

theorem assemble_isSome_of_neg {power : Int} (h : power < 0) :
    (assemble negative n power).isSome = true := by
  unfold assemble
  dsimp only
  rw [Option.isSome_map, if_neg (Int.not_le.2 h)]
  split
  · rfl
  · split <;> rfl

theorem ten_pow_le : (10 : Nat) ^ maxPower ≤ (2 ^ 54 - 5) * 2 ^ 970 := by decide +kernel

theorem power_le {k : Nat} (hn : 0 < n) (h : n * 10 ^ k ≤ 2 ^ 54 * 2 ^ 970) : k ≤ maxPower := by
  by_contra hlarge
  have hlarge : maxPower + 1 ≤ k := Nat.not_le.1 hlarge
  have hbeyond : (2 : Nat) ^ 54 * 2 ^ 970 < 10 ^ (maxPower + 1) := by decide +kernel
  have hpower : 10 ^ (maxPower + 1) ≤ 10 ^ k := Nat.pow_le_pow_right (by decide) hlarge
  have hproduct : 10 ^ k ≤ n * 10 ^ k := Nat.le_mul_of_pos_left _ hn
  exact absurd (Nat.le_trans hpower (Nat.le_trans hproduct h)) (Nat.not_le.2 hbeyond)

theorem assemble_isSome_of_le {k : Nat} (hk : k ≤ maxPower) (h : n * 10 ^ k ≤ (2 ^ 54 - 5) * 2 ^ 970) :
    (assemble negative n k).isSome = true := by
  have hpower : 10 ^ k ≤ (2 ^ 54 - 5) * 2 ^ 970 :=
    Nat.le_trans (Nat.pow_le_pow_right (by decide) hk) ten_pow_le
  have hnumber : n ≤ (2 ^ 54 - 5) * 2 ^ 970 :=
    Nat.le_trans (Nat.le_mul_of_pos_right n (pow_pos (by decide) k)) h
  have hproduct := Binary64.not_isInfinite (Binary64.isFinite_mul_ofNat hnumber hpower h)
  unfold assemble
  dsimp only
  rw [Option.isSome_map, if_pos (Int.natCast_nonneg k), Int.natAbs_natCast, if_pos hk,
    Binary64.natPow_eq, hproduct]
  rfl

theorem readFloat_of_isSome {power : Int} (h : (assemble negative n power).isSome = true) :
    ∃ y, ∀ bs, readFloat negative n power bs = .ok (.float y, bs) := by
  obtain ⟨y, hy⟩ := Option.isSome_iff_exists.1 h
  refine ⟨y, fun bs => ?_⟩
  rw [readFloat, hy]

end Assemble

/-! ## Digits after a point -/

theorem afterDigits_ends {rest : Bytes} (hrest : NumberEnds rest) (negative : Bool) (n : Nat)
    (power : Int) : afterDigits negative n power rest = readFloat negative n power rest := by
  cases rest with
  | nil => rfl
  | cons b rest =>
    rw [afterDigits, hrest.2.2]
    rfl

theorem dropWhile_digits {ds : List Nat} (hds : AreDigits ds) {rest : Bytes} (hrest : NoDigit rest) :
    (ds.map digitByte ++ rest).dropWhile isDigit = rest := by
  have hdigits : ∀ b ∈ ds.map digitByte, isDigit b = true := by
    intro b hb
    obtain ⟨d, hd, rfl⟩ := List.mem_map.1 hb
    exact isDigit_digitByte (hds d hd)
  rw [List.dropWhile_append_of_pos hdigits]
  cases rest with
  | nil => rfl
  | cons b rest => exact List.dropWhile_cons_of_neg (by rw [show isDigit b = false from hrest]; decide)

/-- The first digits after a point are gathered, as many as there is room for, and the others are
passed over. -/
theorem fractionPart_digits {ds : List Nat} (hds : AreDigits ds) (hne : ds ≠ []) (n : Nat) :
    ∃ front back, ds = front ++ back ∧ (extend n ds < UInt64.size → back = []) ∧
      ∀ negative power rest, NoDigit rest → fractionPart negative n power (ds.map digitByte ++ rest) =
        afterDigits negative (extend n front) (power - front.length) rest := by
  obtain ⟨front, back, rfl, hall, hgather⟩ := gather_digits hds n
  refine ⟨front, back, rfl, hall, ?_⟩
  intro negative power rest hrest
  unfold fractionPart
  simp only [hgather 0 rest hrest, Nat.zero_add]
  cases back with
  | nil =>
    have hfront : front.length ≠ 0 := by simpa using hne
    cases rest with
    | nil =>
      simp only [List.map_nil, List.nil_append, if_neg hfront]
      rfl
    | cons b rest =>
      simp only [List.map_nil, List.nil_append, if_neg hfront, show isDigit b = false from hrest,
        Bool.false_eq_true, if_false]
  | cons d back =>
    obtain ⟨hd, hback⟩ := List.forall_mem_cons.1 (List.forall_mem_append.1 hds).2
    simp only [List.map_cons, List.cons_append, isDigit_digitByte hd, if_true,
      dropWhile_digits hback hrest]

/-! ## Exponents -/

theorem gatherExponent_digits {ds : List Nat} (hds : AreDigits ds) {n : Nat}
    (hfits : extend n ds ≤ maxExponent) {rest : Bytes} (hrest : NoDigit rest) :
    gatherExponent n (ds.map digitByte ++ rest) = (some (extend n ds), rest) := by
  induction ds generalizing n with
  | nil =>
    cases rest with
    | nil => rfl
    | cons b rest =>
      have hb : isDigit b = false := hrest
      rw [List.map_nil, List.nil_append, gatherExponent, hb]
      rfl
  | cons d ds ih =>
    obtain ⟨hd, hds⟩ := List.forall_mem_cons.1 hds
    have hcomm : n * 10 + d = 10 * n + d := by omega
    have hroom : 10 * n + d ≤ maxExponent := Nat.le_trans (Decimal.le_extend _ ds) hfits
    rw [List.map_cons, List.cons_append, gatherExponent, isDigit_digitByte hd, digitValue_digitByte hd,
      if_pos rfl, hcomm, if_pos hroom]
    exact ih hds hfits

/-- A signed exponent is added to the power of ten. -/
theorem exponentPart_signed {e : Int} (he : e.natAbs ≤ maxExponent) {rest : Bytes}
    (hrest : NoDigit rest) (negative : Bool) (n : Nat) (power : Int) :
    exponentPart negative n power ((if e < 0 then minusSign else 0x2B) ::
        ((Decimal.digits e.natAbs).map digitByte ++ rest)) =
      readFloat negative n (power + e) rest := by
  obtain ⟨d, ds, hdigits, hd⟩ := digits_eq_cons e.natAbs
  have hds : AreDigits ds := by
    intro c hc
    apply Decimal.lt_ten_of_mem_digits (n := e.natAbs)
    rw [hdigits]
    exact List.mem_cons_of_mem d hc
  have hvalue : extend d ds = e.natAbs := by
    have hall := Decimal.ofDigits_digits e.natAbs
    rw [hdigits, ← Decimal.extend_zero, Decimal.extend_cons, Nat.mul_zero, Nat.zero_add] at hall
    exact hall
  have hgather := gatherExponent_digits hds (hvalue ▸ he) hrest
  rw [hdigits, List.map_cons, List.cons_append]
  unfold exponentPart
  by_cases hneg : e < 0
  · have hpower : power - (e.natAbs : Int) = power + e := by omega
    rw [if_pos hneg]
    simp only [show ¬ minusSign = 0x2B by decide, if_false, if_true, isDigit_digitByte hd,
      digitValue_digitByte hd, hgather, hvalue, hpower]
  · have hpower : power + (e.natAbs : Int) = power + e := by omega
    rw [if_neg hneg]
    simp only [if_true, isDigit_digitByte hd, digitValue_digitByte hd, hgather, hvalue, hpower,
      Bool.false_eq_true, if_false]

/-! ## Decimals with a point -/

/-- Bytes that stand for a double, after its sign: a digit comes first, and they are taken off the front
whole. -/
structure ReadsDouble (bs : Bytes) : Prop where
  begins : ∃ d more, bs = digitByte d :: more ∧ d < 10
  reads : ∀ negative, ∃ y, ∀ rest, NumberEnds rest →
    readNumber negative (bs ++ rest) = .ok (.float y, rest)

def wholeDigits (ds : List Nat) (n : Nat) : List Nat :=
  let whole := ds.take n ++ List.replicate (n - ds.length) 0
  if whole = [] then [0] else whole

def partDigits (ds : List Nat) (n : Nat) : List Nat :=
  if ds.drop n = [] then [0] else ds.drop n

section Positional

variable {ds : List Nat} {n : Nat}

theorem areDigits_wholeDigits (hds : AreDigits ds) (n : Nat) : AreDigits (wholeDigits ds n) := by
  intro d hd
  unfold wholeDigits at hd
  dsimp only at hd
  split at hd
  · obtain rfl := List.mem_singleton.1 hd
    decide
  · rcases List.mem_append.1 hd with hd | hd
    · exact hds d (List.mem_of_mem_take hd)
    · obtain rfl := List.eq_of_mem_replicate hd
      decide

theorem areDigits_partDigits (hds : AreDigits ds) (n : Nat) : AreDigits (partDigits ds n) := by
  intro d hd
  unfold partDigits at hd
  split at hd
  · obtain rfl := List.mem_singleton.1 hd
    decide
  · exact hds d (List.mem_of_mem_drop hd)

theorem partDigits_ne_nil (ds : List Nat) (n : Nat) : partDigits ds n ≠ [] := by
  unfold partDigits
  split
  · exact List.cons_ne_nil _ _
  · assumption

theorem length_wholeDigits (ds : List Nat) (n : Nat) : (wholeDigits ds n).length = max n 1 := by
  have hlength : (ds.take n ++ List.replicate (n - ds.length) 0).length = n := by
    rw [List.length_append, List.length_take, List.length_replicate]
    omega
  unfold wholeDigits
  dsimp only
  split
  · rename_i hnil
    rw [hnil, List.length_nil] at hlength
    rw [List.length_singleton]
    omega
  · rename_i hne
    have hpos := List.length_pos_iff.2 hne
    omega

theorem encode_positional (hds : AreDigits ds) (n : Nat) :
    Utf8.encode (DecimalLayout.positional ds n) =
      (wholeDigits ds n).map digitByte ++ point :: (partDigits ds n).map digitByte := by
  have hwhole := encode_digits (areDigits_wholeDigits hds n)
  have hpart := encode_digits (areDigits_partDigits hds n)
  unfold DecimalLayout.positional
  rw [Utf8.encode, String.toList_ofList, List.flatMap_append, List.flatMap_cons]
  exact congrArg₂ (· ++ point :: ·) hwhole hpart

/-- A number with a point is read with the power of ten that its gathered digits after the point ask
for. -/
theorem readNumber_point {whole part : List Nat} (hwhole : AreDigits whole)
    (hcanonical : Canonical whole) (hfits : ofDigits whole < UInt64.size)
    (hpart : AreDigits part) (hne : part ≠ []) :
    ∃ front back, part = front ++ back ∧
      (extend (ofDigits whole) part < UInt64.size → back = []) ∧
      ∀ negative rest, NoDigit rest →
        readNumber negative (whole.map digitByte ++ point :: (part.map digitByte ++ rest)) =
          afterDigits negative (extend (ofDigits whole) front) (-(front.length : Int)) rest := by
  obtain ⟨front, back, hsplit, hall, hread⟩ := fractionPart_digits hpart hne (ofDigits whole)
  refine ⟨front, back, hsplit, hall, ?_⟩
  intro negative rest hrest
  have hpoint : NoDigit (point :: (part.map digitByte ++ rest)) := show isDigit point = false by decide
  rw [readNumber_whole hwhole hcanonical hfits hpoint, afterWhole, if_pos rfl, hread _ _ _ hrest,
    Int.zero_sub]

/-- A decimal that is written with a point after 16 digits at most is read. -/
theorem readsDouble_positional (hds : AreDigits ds) (hn : n ≤ 16)
    (hcanonical : Canonical (wholeDigits ds n)) :
    ReadsDouble (Utf8.encode (DecimalLayout.positional ds n)) := by
  have hwhole := areDigits_wholeDigits hds n
  have hlength : (wholeDigits ds n).length ≤ 16 := by
    rw [length_wholeDigits]
    omega
  have hsmall : ofDigits (wholeDigits ds n) < 10 ^ 16 :=
    Nat.lt_of_lt_of_le (Decimal.ofDigits_lt hwhole) (Nat.pow_le_pow_right (by decide) hlength)
  have hfits : ofDigits (wholeDigits ds n) < UInt64.size := Nat.lt_trans hsmall (by decide)
  rw [encode_positional hds]
  constructor
  · cases hdigits : wholeDigits ds n with
    | nil =>
      rw [hdigits] at hcanonical
      rcases hcanonical with h | ⟨_, _, h, -⟩ <;> cases h
    | cons d whole =>
      rw [hdigits] at hwhole
      exact ⟨d, _, rfl, hwhole d List.mem_cons_self⟩
  · intro negative
    obtain ⟨front, back, -, -, hread⟩ := readNumber_point hwhole hcanonical hfits
      (areDigits_partDigits hds n) (partDigits_ne_nil ds n)
    have hassemble : (assemble negative (extend (ofDigits (wholeDigits ds n)) front)
        (-(front.length : Int))).isSome = true := by
      cases front with
      | nil =>
        apply assemble_isSome_of_le (k := 0) (Nat.zero_le _)
        rw [pow_zero, mul_one]
        exact Nat.le_trans (Nat.le_of_lt hsmall) (by decide +kernel)
      | cons d front =>
        apply assemble_isSome_of_neg
        rw [List.length_cons]
        omega
    obtain ⟨y, hy⟩ := readFloat_of_isSome hassemble
    refine ⟨y, fun rest hrest => ?_⟩
    rw [List.append_assoc, List.cons_append, hread negative rest hrest.noDigit,
      afterDigits_ends hrest, hy]

end Positional

/-! ## Decimals with an exponent -/

structure Assembles (s : Scientific) : Prop where
  digits : AreDigits s.digits
  leading : ∃ d ds, s.digits = d :: ds ∧ d ≠ 0
  exponent : s.exponent.natAbs ≤ maxExponent
  front : ∀ {front back : List Nat}, s.digits = front ++ back →
    (ofDigits s.digits < UInt64.size → back = []) → front ≠ [] →
    ∀ negative (k : Nat), s.exponent + 1 - front.length = k →
      (assemble negative (ofDigits front) k).isSome = true

def exponentBytes (s : Scientific) : Bytes :=
  (match s.digits with
    | [d] => [digitByte d]
    | ds => Utf8.encode (DecimalLayout.positional ds 1)) ++
    0x65 :: (if s.exponent < 0 then minusSign else 0x2B) ::
      (Decimal.digits s.exponent.natAbs).map digitByte

variable {s : Scientific}

theorem exponentPart_isSome {negative : Bool} {n : Nat} {power e : Int} (he : e.natAbs ≤ maxExponent)
    (h : (assemble negative n (power + e)).isSome = true) :
    ∃ y, ∀ rest, NoDigit rest → exponentPart negative n power ((if e < 0 then minusSign else 0x2B) ::
      ((Decimal.digits e.natAbs).map digitByte ++ rest)) = .ok (.float y, rest) := by
  obtain ⟨y, hy⟩ := readFloat_of_isSome h
  refine ⟨y, fun rest hrest => ?_⟩
  rw [exponentPart_signed he hrest, hy]

theorem Assembles.isSome (h : Assembles s) (front back : List Nat) (hdigits : s.digits = front ++ back)
    (hall : ofDigits s.digits < UInt64.size → back = []) (hne : front ≠ []) (negative : Bool)
    {power : Int} (hpower : power = s.exponent + 1 - front.length) :
    (assemble negative (ofDigits front) power).isSome = true := by
  rcases lt_or_ge power 0 with hneg | hpos
  · exact assemble_isSome_of_neg hneg
  · obtain ⟨k, rfl⟩ := Int.eq_ofNat_of_zero_le hpos
    exact h.front hdigits hall hne negative k hpower.symm

theorem noDigit_mark (bs : Bytes) : NoDigit (0x65 :: bs) := by
  show isDigit 0x65 = false
  decide

theorem Assembles.readsDouble (h : Assembles s) : ReadsDouble (exponentBytes s) := by
  obtain ⟨d, ds, hdigits, hd⟩ := h.leading
  have hareDigits := h.digits
  rw [hdigits] at hareDigits
  obtain ⟨hdigit, hds⟩ := List.forall_mem_cons.1 hareDigits
  have hsingle : AreDigits [d] := List.forall_mem_singleton.2 hdigit
  have hcanonical : Canonical [d] := .inr ⟨d, [], rfl, hd⟩
  have hvalue : ofDigits [d] = d := Nat.zero_add d
  have hfits : ofDigits [d] < UInt64.size := by
    rw [hvalue]
    exact Nat.lt_trans hdigit (by decide)
  unfold exponentBytes
  rw [hdigits]
  cases ds with
  | nil =>
    constructor
    · exact ⟨d, _, rfl, hdigit⟩
    · intro negative
      have hsome := h.isSome [d] [] hdigits (fun _ => rfl) (List.cons_ne_nil _ _)
        negative (show 0 + s.exponent = _ by rw [List.length_singleton]; omega)
      obtain ⟨y, hy⟩ := exponentPart_isSome h.exponent hsome
      refine ⟨y, fun rest hrest => ?_⟩
      rw [List.append_assoc]
      exact (readNumber_whole hsingle hcanonical hfits (noDigit_mark _) negative).trans
        (hy rest hrest.noDigit)
  | cons c ds =>
    have hwhole : wholeDigits (d :: c :: ds) 1 = [d] := by simp [wholeDigits]
    have hpart : partDigits (d :: c :: ds) 1 = c :: ds := rfl
    dsimp only
    rw [encode_positional hareDigits, hwhole, hpart]
    constructor
    · exact ⟨d, _, rfl, hdigit⟩
    · intro negative
      obtain ⟨front, back, hsplit, hall, hread⟩ :=
        readNumber_point hsingle hcanonical hfits hds (List.cons_ne_nil c ds)
      have hextend : ∀ es, extend (ofDigits [d]) es = ofDigits (d :: es) := fun es => by
        rw [hvalue, ← Decimal.extend_zero (d :: es), Decimal.extend_cons, Nat.mul_zero, Nat.zero_add]
      rw [hextend] at hall hread
      have hsome := h.isSome (d :: front) back (by rw [hdigits, hsplit]; rfl)
        (by rwa [hdigits]) (List.cons_ne_nil _ _) negative
        (show -(front.length : Int) + s.exponent = _ by rw [List.length_cons]; omega)
      obtain ⟨y, hy⟩ := exponentPart_isSome h.exponent hsome
      refine ⟨y, fun rest hrest => ?_⟩
      rw [List.append_assoc, List.append_assoc, List.cons_append]
      exact (hread negative _ (noDigit_mark _)).trans (hy rest hrest.noDigit)

/-! ## Any layout -/

theorem encode_exponent (h : AreDigits s.digits) :
    Utf8.encode ((match s.digits with
        | [d] => String.ofList [Decimal.digitChar d]
        | ds => DecimalLayout.positional ds 1) ++ "e" ++ (if s.exponent < 0 then "-" else "+") ++
          Decimal.natText s.exponent.natAbs) = exponentBytes s := by
  have hmark : Utf8.encode "e" = [0x65] := by decide
  have hsign : Utf8.encode (if s.exponent < 0 then "-" else "+") =
      [if s.exponent < 0 then minusSign else 0x2B] := by
    split <;> decide
  have hmantissa : Utf8.encode (match s.digits with
        | [d] => String.ofList [Decimal.digitChar d]
        | ds => DecimalLayout.positional ds 1) =
      match s.digits with
        | [d] => [digitByte d]
        | ds => Utf8.encode (DecimalLayout.positional ds 1) := by
    split
    · rename_i d hdigits
      rw [hdigits] at h
      rw [Utf8.encode, String.toList_ofList]
      exact encode_digits h
    · rfl
  rw [Utf8.encode_append, Utf8.encode_append, Utf8.encode_append, hmantissa, hmark, hsign,
    encode_natText, List.append_assoc, List.append_assoc]
  rfl

theorem Assembles.readsDouble_written (h : Assembles s) :
    ReadsDouble (Utf8.encode (numberLayout.writeScientific s)) := by
  obtain ⟨d, ds, hdigits, hd⟩ := h.leading
  unfold DecimalLayout.writeScientific
  split
  · rename_i hrange
    split
    · rename_i hneg
      have hds : AreDigits (List.replicate (s.exponent.natAbs - 1) 0 ++ s.digits) := by
        intro c hc
        rcases List.mem_append.1 hc with hc | hc
        · obtain rfl := List.eq_of_mem_replicate hc
          decide
        · exact h.digits c hc
      exact readsDouble_positional hds (Nat.zero_le _) (.inl (by simp [wholeDigits]))
    · have hplaces : s.exponent.toNat + 1 ≤ 16 := by
        have hhighest : s.exponent ≤ 15 := hrange.2
        omega
      apply readsDouble_positional h.digits hplaces
      refine .inr ⟨d, ds.take s.exponent.toNat ++
        List.replicate (s.exponent.toNat + 1 - s.digits.length) 0, ?_, hd⟩
      simp [wholeDigits, hdigits]
  · have hwritten := h.readsDouble
    rw [← encode_exponent h.digits] at hwritten
    exact hwritten

/-! ## Shortest decimals -/

open Binary64 (make)

variable {x : Binary64}

theorem le_of_scaled {n k a : Nat} (h : n * 10 ^ k * 2 ^ 1076 ≤ a * 2 ^ 2046) :
    n * 10 ^ k ≤ a * 2 ^ 970 := by
  have htop : (2 : Nat) ^ 2046 = 2 ^ 970 * 2 ^ 1076 := by rw [← pow_add]
  rw [htop, ← mul_assoc] at h
  exact Nat.le_of_mul_le_mul_right h (pow_pos two_pos 1076)

theorem pos_of_leading {d : Nat} {ds : List Nat} (hd : d ≠ 0) : 0 < ofDigits (d :: ds) := by
  have hle := Decimal.le_extend d ds
  rw [← Decimal.extend_zero, Decimal.extend_cons, Nat.mul_zero, Nat.zero_add]
  omega

theorem exponent_le (hx : x.isFinite = true) (hzero : x.isZero = false) :
    x.shortest.exponent.natAbs ≤ maxExponent := by
  have hbelow := Binary64.shortest_below hzero
  have hlowest := hbelow.lowest
  have hgrid : (Binary64.gridOffset : Int) = 400 := rfl
  have hmost : (maxExponent : Int) = 2147483647 := by decide
  obtain ⟨d, ds, hdigits, hd⟩ := hbelow.leading
  rcases lt_or_ge x.shortest.exponent 0 with hneg | hpos
  · omega
  · obtain ⟨k, hk⟩ := Int.eq_ofNat_of_zero_le hpos
    have hfirst := hbelow.front (show x.shortest.digits = [d] ++ ds from hdigits) (k := k)
      (by rw [List.length_singleton]; omega)
    have hvalue := le_of_scaled (Nat.le_trans hfirst (Binary64.upper_le hx))
    have hpower := power_le (pos_of_leading hd) hvalue
    have hmax : maxPower = 308 := rfl
    omega

/-- Below the two largest magnitudes, rounding the digits and the power of ten does not lead out of the
finite numbers. -/
theorem assembles_of_below_top (hx : x.magnitudeWord + 2 < 2047 * 2 ^ 52) (hzero : x.isZero = false) :
    Assembles x.shortest := by
  have hfinite : x.isFinite = true := Binary64.isFinite_iff.2 (by omega)
  have hbelow := Binary64.shortest_below hzero
  refine ⟨hbelow.digits, hbelow.leading, exponent_le hfinite hzero, ?_⟩
  intro front back hdigits _ hne negative k hk
  have hvalue := le_of_scaled
    (Nat.le_trans (hbelow.front hdigits hk) (Binary64.upper_le_of_below_top hx))
  have hpos : 0 < ofDigits front := by
    obtain ⟨d, ds, hleading, hd⟩ := hbelow.leading
    obtain ⟨c, front, rfl⟩ := List.exists_cons_of_ne_nil hne
    rw [hdigits, List.cons_append] at hleading
    obtain ⟨rfl, -⟩ := List.cons.inj hleading
    exact pos_of_leading hd
  apply assemble_isSome_of_le _ hvalue
  exact power_le hpos (Nat.le_trans hvalue (Nat.mul_le_mul_right _ (by decide)))

def topDigits (below : Fin 2) : List Nat :=
  [1, 7, 9, 7, 6, 9, 3, 1, 3, 4, 8, 6, 2, 3, 1, 5, 7 - 2 * below]

theorem shortest_top (negative : Bool) (below : Fin 2) :
    (make negative (2047 * 2 ^ 52 - 1 - below)).shortest = ⟨topDigits below, 308⟩ := by
  have hlow : ∀ b (i : Fin 2),
      10 ^ 708 ≤ (make b (2047 * 2 ^ 52 - 1 - i)).interval.value >>> 1076 := by decide +kernel
  have hhigh : ∀ b (i : Fin 2),
      (make b (2047 * 2 ^ 52 - 1 - i)).interval.value >>> 1076 < 10 ^ (708 + 1) := by decide +kernel
  have hfound : ∀ b (i : Fin 2),
      (make b (2047 * 2 ^ 52 - 1 - i)).search 709 = some (ofDigits (topDigits i), 692) := by
    decide +kernel
  rw [Binary64.shortest_of_search (hlow negative below) (hhigh negative below) (hfound negative below)]
  revert below
  decide +kernel

theorem assembles_of_fits {k : Nat} (hdigits : AreDigits s.digits)
    (hleading : ∃ d ds, s.digits = d :: ds ∧ d ≠ 0) (hexponent : s.exponent.natAbs ≤ maxExponent)
    (hfits : ofDigits s.digits < UInt64.size) (hk : s.exponent + 1 - s.digits.length = k)
    (h : ∀ negative, (assemble negative (ofDigits s.digits) k).isSome = true) : Assembles s := by
  refine ⟨hdigits, hleading, hexponent, ?_⟩
  intro front back hsplit hall _ negative j hj
  obtain rfl := hall hfits
  rw [List.append_nil] at hsplit
  rw [← hsplit] at hj ⊢
  obtain rfl : k = j := by omega
  exact h negative

theorem assembles_top (below : Fin 2) : Assembles ⟨topDigits below, 308⟩ := by
  have hdigits : ∀ i, AreDigits (topDigits i) := by decide
  have hfits : ∀ i, ofDigits (topDigits i) < UInt64.size := by decide
  have hk : ∀ i, (308 : Int) + 1 - (topDigits i).length = (292 : Nat) := by decide
  have hfinite : ∀ i negative,
      (assemble negative (ofDigits (topDigits i)) (292 : Nat)).isSome = true := by decide +kernel
  exact assembles_of_fits (hdigits below) ⟨1, _, rfl, by decide⟩
    (show (308 : Int).natAbs ≤ maxExponent by decide) (hfits below) (hk below) (hfinite below)

theorem assembles_shortest (hx : x.isFinite = true) (hzero : x.isZero = false) :
    Assembles x.shortest := by
  have hword := Binary64.isFinite_iff.1 hx
  rcases Nat.lt_or_ge (x.magnitudeWord + 2) (2047 * 2 ^ 52) with hbelow | htop
  · exact assembles_of_below_top hbelow hzero
  · obtain ⟨below, hlast⟩ : ∃ below : Fin 2, x.magnitudeWord = 2047 * 2 ^ 52 - 1 - below :=
      ⟨⟨2047 * 2 ^ 52 - 1 - x.magnitudeWord, by omega⟩, by dsimp only; omega⟩
    rw [← Binary64.make_eq x, hlast, shortest_top]
    exact assembles_top below

/-! ## Fields -/

theorem readsDouble_zero : ReadsDouble (Utf8.encode "0.0") := by
  have hbytes : Utf8.encode "0.0" = Utf8.encode (DecimalLayout.positional [0] 1) := by decide
  rw [hbytes]
  exact readsDouble_positional (by decide) (by decide) (.inl (by decide))

theorem readsDouble_finite (hx : x.isFinite = true) :
    ReadsDouble
      (Utf8.encode (if x.isZero then "0.0" else numberLayout.writeScientific x.shortest)) := by
  cases hzero : x.isZero with
  | true => exact readsDouble_zero
  | false => exact (assembles_shortest hx hzero).readsDouble_written

theorem takes_doubleField (hx : x.isFinite = true) : ∃ y, Takes doubleField (Json.float x).print y := by
  have hreads := readsDouble_finite hx
  have hprint : (Json.float x).print = Utf8.encode (if x.isNegative then "-" else "") ++
      Utf8.encode (if x.isZero then "0.0" else numberLayout.writeScientific x.shortest) := by
    rw [print, Number.write, if_pos hx, DecimalLayout.write, Utf8.encode_append]
  obtain ⟨y, hy⟩ := hreads.reads x.isNegative
  refine ⟨y, fun rest hrest => ?_⟩
  have hnumber : numberField "f64" ((Json.float x).print ++ rest) = .ok (.float y, rest) := by
    rw [hprint, List.append_assoc, ← hy rest hrest]
    cases x.isNegative with
    | true => exact numberField_of_minus "f64" _
    | false =>
      obtain ⟨d, more, hbegins, hd⟩ := hreads.begins
      rw [hbegins]
      exact numberField_of_digit (isDigit_digitByte hd) "f64" _
  rw [doubleField, hnumber]
  rfl

/-- What is no number is written `null`, and that is no double. -/
theorem doubleField_of_not_finite (hx : x.isFinite = false) (rest : Bytes) :
    doubleField ((Json.float x).print ++ rest) = failBefore (.invalidType .null "f64") rest := by
  have hprint : (Json.float x).print = nullWord := by
    rw [print, Number.write, hx, if_neg Bool.false_ne_true]
    decide
  rw [hprint]
  rfl

end Json

/-! ## Readings -/

namespace Reading

open Json

theorem collects_sensor (r : Reading) :
    Record.Collects record.fields {} [("sensor", .text r.sensor)] { sensor := some r.sensor } :=
  Record.Collects.cons rfl rfl (takes_field (takes_textField r.sensor) _) .nil

theorem parse_print (r : Reading) (hr : r.value.isFinite = true) :
    ∃ y, record.parse r.toJson.print = .ok ⟨r.sensor, y⟩ := by
  obtain ⟨y, hy⟩ := takes_doubleField hr
  have hcollects : Record.Collects record.fields {}
      [("sensor", .text r.sensor), ("value", .float r.value)]
      { sensor := some r.sensor, value := some y } := by
    apply Record.Collects.cons rfl rfl (takes_field (takes_textField r.sensor) _)
    apply Record.Collects.cons rfl rfl (takes_field hy _)
    exact Record.Collects.nil
  exact ⟨y, (Record.takes_object hcollects rfl).document⟩

theorem parse_print_error (r : Reading) (hr : r.value.isFinite = false) :
    ∃ e, record.parse r.toJson.print = .error e := by
  have hread : ∀ rest, ∃ e,
      (Json.Field.of "value" (·.value) (fun d x => { d with value := some x }) doubleField :
        Json.Field Draft).read { sensor := some r.sensor } ((Json.float r.value).print ++ rest) =
          .error e := by
    intro rest
    refine ⟨⟨.invalidType .null "f64", rest.length⟩, ?_⟩
    show (doubleField ((Json.float r.value).print ++ rest) >>= _) = _
    rw [doubleField_of_not_finite hr]
    rfl
  exact Record.parse_error r.collects_sensor rfl rfl hread []

theorem decode_encode (r : Reading) (hr : r.value.isFinite = true) :
    ∃ y, codec.decode r.toJson.print = .ok ⟨r.sensor, y⟩ := by
  obtain ⟨y, hy⟩ := r.parse_print hr
  refine ⟨y, ?_⟩
  show (record.parse r.toJson.print).mapError _ = _
  rw [hy]
  rfl

theorem decode_encode_error (r : Reading) (hr : r.value.isFinite = false) :
    ∃ message, codec.decode r.toJson.print = .error (.decode message) := by
  obtain ⟨e, he⟩ := r.parse_print_error hr
  refine ⟨e.message r.toJson.print, ?_⟩
  show (record.parse r.toJson.print).mapError _ = _
  rw [he]
  rfl

end Reading

end BatchingCache
