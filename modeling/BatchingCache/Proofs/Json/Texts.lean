import BatchingCache.Json.Reader
import BatchingCache.Proofs.Text.Utf8
/-!
# Texts in JSON

A text that was written is read back: each character is written as itself or as an escape, and
either way the reader takes it off the front whole.
-/

namespace BatchingCache.Json

open String (utf8EncodeChar)

/-! ## Escapes -/

theorem hexValue?_hexByte {d : Nat} (h : d < 16) : hexValue? (hexByte d) = some d := by
  revert d
  decide

theorem codeUnit_hexBytes {n : Nat} (h : n < 256) (rest : Bytes) :
    codeUnit (0x30 :: 0x30 :: hexByte (n / 16) :: hexByte (n % 16) :: rest) = .ok (n, rest) := by
  have hzero : hexValue? 0x30 = some 0 := by decide
  have hhigh : n / 16 < 16 := by omega
  have hlow : n % 16 < 16 := by omega
  rw [codeUnit, hzero, hexValue?_hexByte hhigh, hexValue?_hexByte hlow]
  have hvalue : ((0 * 16 + 0) * 16 + n / 16) * 16 + n % 16 = n := by omega
  simp only [hvalue]

theorem unicodeEscape_hexBytes {c : Char} (h : c.toNat < 0x20) (rest : Bytes) :
    unicodeEscape (0x30 :: 0x30 :: hexByte (c.toNat / 16) :: hexByte (c.toNat % 16) :: rest) =
      .ok (c, rest) := by
  have htrailing : isTrailing c.toNat = false := by
    simp only [isTrailing, Bool.and_eq_false_iff, decide_eq_false_iff_not]
    omega
  have hleading : isLeading c.toNat = false := by
    simp only [isLeading, Bool.and_eq_false_iff, decide_eq_false_iff_not]
    omega
  rw [unicodeEscape, codeUnit_hexBytes (by omega)]
  simp only [bind, Except.bind, htrailing, hleading, Bool.false_eq_true, if_false, Char.ofNat_toNat]
  rfl

theorem escape_of_short {b : UInt8} {c : Char} (h : shortEscape? b = some c) (rest : Bytes) :
    escape (b :: rest) = .ok (c, rest) := by
  simp only [escape, h]

inductive Printed (c : Char) : Bytes → Prop where
  | escaped {bs : Bytes} (h : ∀ rest, escape (bs ++ rest) = .ok (c, rest)) :
      Printed c (backslash :: bs)
  | plain (h : ∀ b ∈ utf8EncodeChar c, b ≠ quoteMark ∧ b ≠ backslash ∧ ¬ b < 0x20) :
      Printed c (utf8EncodeChar c)

theorem not_special {c : Char} (hquote : c ≠ '"') (hbackslash : c ≠ '\\') (hcontrol : ¬ c.toNat < 0x20) :
    ∀ b ∈ utf8EncodeChar c, b ≠ quoteMark ∧ b ≠ backslash ∧ ¬ b < 0x20 := by
  intro b hb
  rcases Utf8.ascii_or_high c with ⟨hascii, hbytes⟩ | hhigh
  · rw [hbytes, List.mem_singleton] at hb
    have hlt : c.toNat < 256 := by omega
    have hne : ∀ {d : Char}, c ≠ d → c.toNat ≠ d.toNat := fun hne heq => hne (Char.toNat_inj.1 heq)
    rw [hb, Utf8.ofNat_lt hlt, ne_eq, ne_eq, Utf8.ofNat_eq hlt, Utf8.ofNat_eq hlt]
    exact ⟨hne hquote, hne hbackslash, hcontrol⟩
  · have hb := hhigh b hb
    refine ⟨?_, ?_, ?_⟩
    · rintro rfl
      exact absurd hb (by decide)
    · rintro rfl
      exact absurd hb (by decide)
    · rw [UInt8.lt_iff_toNat_lt]
      exact Nat.not_lt.2 (Nat.le_trans (by decide) hb)

theorem printed (c : Char) : Printed c (printChar c) := by
  unfold printChar
  split
  case h_8 hquote hbackslash _ _ _ _ _ =>
    split
    · rename_i hcontrol
      refine .escaped fun rest => ?_
      have hshort : shortEscape? 0x75 = none := by decide
      simp only [List.cons_append, List.nil_append, escape, hshort, if_true]
      exact unicodeEscape_hexBytes hcontrol rest
    · rename_i hcontrol
      exact .plain (not_special hquote hbackslash hcontrol)
  all_goals exact .escaped fun rest => escape_of_short (by decide) rest

/-! ## The bytes of a text -/

theorem textBytes_quote (rest : Bytes) : textBytes (quoteMark :: rest) = .ok ([], rest) := by
  rw [textBytes, if_pos rfl]

theorem textBytes_escape {bs rest : Bytes} {c : Char} (h : escape bs = .ok (c, rest)) :
    textBytes (backslash :: bs) =
      (textBytes rest).map fun r => (utf8EncodeChar c ++ r.1, r.2) := by
  rw [textBytes, if_neg (by decide), if_pos rfl]
  split
  · rename_i h'
    rw [h] at h'
    cases h'
  · rename_i c' rest' h'
    rw [h] at h'
    cases h'
    cases textBytes rest with
    | ok r => rfl
    | error e => rfl

theorem textBytes_plain {bs : Bytes}
    (h : ∀ b ∈ bs, b ≠ quoteMark ∧ b ≠ backslash ∧ ¬ b < 0x20) (rest : Bytes) :
    textBytes (bs ++ rest) = (textBytes rest).map fun r => (bs ++ r.1, r.2) := by
  induction bs with
  | nil =>
    rw [List.nil_append]
    cases textBytes rest with
    | ok r => rfl
    | error e => rfl
  | cons b bs ih =>
    obtain ⟨⟨hquote, hbackslash, hcontrol⟩, hlater⟩ := List.forall_mem_cons.1 h
    rw [List.cons_append, textBytes, if_neg hquote, if_neg hbackslash, if_neg hcontrol, ih hlater]
    cases textBytes rest with
    | ok r => rfl
    | error e => rfl

theorem textBytes_printChar (c : Char) (rest : Bytes) :
    textBytes (printChar c ++ rest) =
      (textBytes rest).map fun r => (utf8EncodeChar c ++ r.1, r.2) := by
  have hprinted := printed c
  generalize printChar c = bs at hprinted ⊢
  cases hprinted with
  | escaped h => exact textBytes_escape (h rest)
  | plain h => exact textBytes_plain h rest

theorem textBytes_printed (cs : List Char) (rest : Bytes) :
    textBytes (cs.flatMap printChar ++ quoteMark :: rest) =
      .ok (cs.flatMap utf8EncodeChar, rest) := by
  induction cs with
  | nil => exact textBytes_quote rest
  | cons c cs ih =>
    rw [List.flatMap_cons, List.append_assoc, textBytes_printChar, ih]
    rfl

/-- A text that was written is read back up to its closing quote. -/
theorem readText_printed (s : String) (rest : Bytes) :
    readText (s.toList.flatMap printChar ++ quoteMark :: rest) = .ok (s, rest) := by
  have hdecode : Utf8.decode (s.toList.flatMap utf8EncodeChar) = .ok s := Utf8.decode_encode s
  rw [readText, textBytes_printed]
  simp only [bind, Except.bind, hdecode]
  rfl

end BatchingCache.Json
