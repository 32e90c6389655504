import BatchingCache.Json.Reader
import BatchingCache.Proofs.Number.Decimal
import BatchingCache.Proofs.Text.Utf8
/-!
# Numbers in JSON

Decimal digits that were written are gathered into the number that they stand for, and a whole number
of 64 bits is read back up to what follows it.
-/

namespace BatchingCache

namespace Json

open Decimal (extend ofDigits Canonical)

/-! ## Digits as bytes -/

def digitByte (d : Nat) : UInt8 := UInt8.ofNat (0x30 + d)

def AreDigits (ds : List Nat) : Prop := ∀ d ∈ ds, d < 10

instance (ds : List Nat) : Decidable (AreDigits ds) := inferInstanceAs (Decidable (∀ d ∈ ds, d < 10))

theorem encodeChar_digitChar {d : Nat} (h : d < 10) :
    String.utf8EncodeChar (Decimal.digitChar d) = [digitByte d] := by
  revert d
  decide

theorem isDigit_digitByte {d : Nat} (h : d < 10) : isDigit (digitByte d) = true := by
  revert d
  decide

theorem digitValue_digitByte {d : Nat} (h : d < 10) : digitValue (digitByte d) = d := by
  revert d
  decide

theorem digitByte_ne_zero {d : Nat} (h : d < 10) (hne : d ≠ 0) : digitByte d ≠ 0x30 := by
  revert d
  decide

theorem encode_digits {ds : List Nat} (h : AreDigits ds) :
    (ds.map Decimal.digitChar).flatMap String.utf8EncodeChar = ds.map digitByte := by
  induction ds with
  | nil => rfl
  | cons d ds ih =>
    obtain ⟨hd, hds⟩ := List.forall_mem_cons.1 h
    rw [List.map_cons, List.flatMap_cons, encodeChar_digitChar hd, ih hds]
    rfl

theorem encode_natText (n : Nat) :
    Utf8.encode (Decimal.natText n) = (Decimal.digits n).map digitByte := by
  rw [Utf8.encode, Decimal.natText, String.toList_ofList]
  exact encode_digits fun d hd => Decimal.lt_ten_of_mem_digits hd

/-! ## Gathering digits -/

def NoDigit : Bytes → Prop
  | [] => True
  | b :: _ => isDigit b = false

def NumberEnds : Bytes → Prop
  | [] => True
  | b :: _ => isDigit b = false ∧ b ≠ point ∧ isExponentMark b = false

theorem NumberEnds.noDigit {bs : Bytes} (h : NumberEnds bs) : NoDigit bs := by
  cases bs with
  | nil => trivial
  | cons b bs => exact h.1

theorem gather_noDigit {bs : Bytes} (h : NoDigit bs) (n taken : Nat) :
    gather n taken bs = (n, taken, bs) := by
  cases bs with
  | nil => rfl
  | cons b bs =>
    have hb : isDigit b = false := h
    rw [gather, hb]
    rfl

/-- Digits are gathered as far as there is room for them. -/
theorem gather_digits {ds : List Nat} (hds : AreDigits ds) (n : Nat) :
    ∃ front back, ds = front ++ back ∧ (extend n ds < UInt64.size → back = []) ∧
      ∀ taken rest, NoDigit rest → gather n taken (ds.map digitByte ++ rest) =
        (extend n front, taken + front.length, back.map digitByte ++ rest) := by
  induction ds generalizing n with
  | nil => exact ⟨[], [], rfl, fun _ => rfl, fun taken _ hrest => gather_noDigit hrest n taken⟩
  | cons d ds ih =>
    obtain ⟨hd, hds⟩ := List.forall_mem_cons.1 hds
    have hcomm : n * 10 + d = 10 * n + d := by omega
    by_cases hroom : n * 10 + d < UInt64.size
    · obtain ⟨front, back, rfl, hall, hgather⟩ := ih hds (10 * n + d)
      refine ⟨d :: front, back, rfl, hall, ?_⟩
      intro taken rest hrest
      rw [List.map_cons, List.cons_append, gather, isDigit_digitByte hd, digitValue_digitByte hd,
        if_pos (by simpa using hroom), hcomm, hgather _ _ hrest, Decimal.extend_cons, List.length_cons,
        Nat.add_assoc, Nat.add_comm 1]
    · refine ⟨[], d :: ds, rfl, ?_, ?_⟩
      · intro hfits
        have hle := Decimal.le_extend (10 * n + d) ds
        rw [Decimal.extend_cons] at hfits
        omega
      · intro taken rest _
        rw [List.map_cons, List.cons_append, gather, isDigit_digitByte hd, digitValue_digitByte hd,
          if_neg (by simpa using hroom)]
        rfl

/-- The whole part of a number is gathered in full if it has 64 bits. -/
theorem readNumber_whole {ds : List Nat} (hds : AreDigits ds) (hcanonical : Canonical ds)
    (hfits : ofDigits ds < UInt64.size) {rest : Bytes} (hrest : NoDigit rest) (negative : Bool) :
    readNumber negative (ds.map digitByte ++ rest) = afterWhole negative (ofDigits ds) rest := by
  rcases hcanonical with rfl | ⟨d, ds, rfl, hne⟩
  · cases rest with
    | nil => rfl
    | cons b rest =>
      have hb : isDigit b = false := hrest
      show (if isDigit b then _ else _) = _
      rw [hb]
      rfl
  · obtain ⟨hd, hds⟩ := List.forall_mem_cons.1 hds
    obtain ⟨front, back, rfl, hall, hgather⟩ := gather_digits hds d
    replace hgather := hgather 1 rest hrest
    have hwhole : extend d (front ++ back) = ofDigits (d :: (front ++ back)) := by
      rw [ofDigits, List.foldl_cons, Nat.mul_zero, Nat.zero_add]
      rfl
    obtain rfl := hall (hwhole ▸ hfits)
    rw [List.append_nil] at hgather hwhole ⊢
    rw [List.map_cons, List.cons_append]
    unfold readNumber
    simp only [if_neg (digitByte_ne_zero hd hne), isDigit_digitByte hd, digitValue_digitByte hd,
      hgather, hwhole, if_true, List.map_nil, List.nil_append]
    cases rest with
    | nil => rfl
    | cons b rest =>
      have hb : isDigit b = false := hrest
      simp only [hb, Bool.false_eq_true, if_false]

/-! ## Whole numbers -/

theorem afterWhole_ends {rest : Bytes} (hrest : NumberEnds rest) (negative : Bool) (n : Nat) :
    afterWhole negative n rest = .ok (wholeNumber negative n, rest) := by
  cases rest with
  | nil => rfl
  | cons b rest =>
    obtain ⟨-, hpoint, hmark⟩ := hrest
    rw [afterWhole, if_neg hpoint, hmark]
    rfl

theorem readNumber_digits {n : Nat} (hfits : n < UInt64.size) {rest : Bytes}
    (hrest : NumberEnds rest) (negative : Bool) :
    readNumber negative ((Decimal.digits n).map digitByte ++ rest) =
      .ok (wholeNumber negative n, rest) := by
  have hvalue := Decimal.ofDigits_digits n
  rw [readNumber_whole (fun d hd => Decimal.lt_ten_of_mem_digits hd) (Decimal.canonical_digits n)
    (by rwa [hvalue]) hrest.noDigit, hvalue, afterWhole_ends hrest]

end Json

end BatchingCache
