import BatchingCache.Text.Utf8
import Mathlib.Data.List.Basic
/-!
# UTF-8 of texts

Bytes that were written from a text are read back as this text, and the bytes of two texts are in the
order of the texts.
-/

namespace BatchingCache.Utf8

open String (utf8EncodeChar)

/-! ## One character -/

theorem toNat_lt (c : Char) : c.toNat < 0xD800 ∨ 0xDFFF < c.toNat ∧ c.toNat < 0x110000 := c.valid

inductive Encoded (c : Char) : Bytes → Prop where
  | one (h : c.toNat ≤ 0x7F) : Encoded c [UInt8.ofNat c.toNat]
  | two (h : 0x7F < c.toNat) (h' : c.toNat ≤ 0x7FF) :
      Encoded c [UInt8.ofNat (c.toNat / 64 % 32 + 192), UInt8.ofNat (c.toNat % 64 + 128)]
  | three (h : 0x7FF < c.toNat) (h' : c.toNat ≤ 0xFFFF) :
      Encoded c [UInt8.ofNat (c.toNat / 4096 % 16 + 224), UInt8.ofNat (c.toNat / 64 % 64 + 128),
        UInt8.ofNat (c.toNat % 64 + 128)]
  | four (h : 0xFFFF < c.toNat) :
      Encoded c [UInt8.ofNat (c.toNat / 262144 % 8 + 240), UInt8.ofNat (c.toNat / 4096 % 64 + 128),
        UInt8.ofNat (c.toNat / 64 % 64 + 128), UInt8.ofNat (c.toNat % 64 + 128)]

theorem encoded (c : Char) : Encoded c (utf8EncodeChar c) := by
  simp only [utf8EncodeChar]
  split
  · rename_i h
    exact .one h
  · split
    · rename_i h h'
      exact .two (Nat.lt_of_not_le h) h'
    · split
      · rename_i h h'
        exact .three (Nat.lt_of_not_le h) h'
      · rename_i h
        exact .four (Nat.lt_of_not_le h)

/-- A character is written as itself, or by bytes that are no characters of their own. -/
theorem ascii_or_high (c : Char) :
    c.toNat ≤ 0x7F ∧ utf8EncodeChar c = [UInt8.ofNat c.toNat] ∨
      ∀ b ∈ utf8EncodeChar c, 0x80 ≤ b.toNat := by
  have hencoded := encoded c
  generalize utf8EncodeChar c = bs at hencoded ⊢
  have hhigh : ∀ n, 0x80 ≤ n ∧ n < 256 → 0x80 ≤ (UInt8.ofNat n).toNat := by
    intro n hn
    rw [UInt8.toNat_ofNat_of_lt' hn.2]
    exact hn.1
  cases hencoded with
  | one h => exact .inl ⟨h, rfl⟩
  | two h h' =>
    simp only [List.forall_mem_cons]
    exact .inr ⟨hhigh _ (by omega), hhigh _ (by omega), nofun⟩
  | three h h' =>
    simp only [List.forall_mem_cons]
    exact .inr ⟨hhigh _ (by omega), hhigh _ (by omega), hhigh _ (by omega), nofun⟩
  | four h =>
    simp only [List.forall_mem_cons]
    exact .inr ⟨hhigh _ (by omega), hhigh _ (by omega), hhigh _ (by omega), hhigh _ (by omega),
      nofun⟩

/-! ## Reading one character -/

theorem toNat_ofNat {n : Nat} (h : n < 256) : (UInt8.ofNat n).toNat = n :=
  UInt8.toNat_ofNat_of_lt' h

theorem ofNat_lt {n : Nat} (h : n < 256) (b : UInt8) : UInt8.ofNat n < b ↔ n < b.toNat := by
  rw [UInt8.lt_iff_toNat_lt, toNat_ofNat h]

theorem ofNat_eq {n : Nat} (h : n < 256) (b : UInt8) : UInt8.ofNat n = b ↔ n = b.toNat := by
  rw [← UInt8.toNat_inj, toNat_ofNat h]

theorem tail_cons {owed seen bits n : Nat} {lo hi : UInt8} (rest : Bytes) (hn : n < 256)
    (hlo : lo.toNat ≤ n) (hhi : n ≤ hi.toNat) :
    Front.tail (owed + 1) seen lo hi bits (UInt8.ofNat n :: rest) =
      Front.tail owed (seen + 1) 0x80 0xBF (bits * 64 + n % 64) rest := by
  have hbounds : lo ≤ UInt8.ofNat n ∧ UInt8.ofNat n ≤ hi := by
    rw [UInt8.le_iff_toNat_le, UInt8.le_iff_toNat_le, toNat_ofNat hn]
    exact ⟨hlo, hhi⟩
  rw [Front.tail, if_pos hbounds, toNat_ofNat hn]

def Continues (n : Nat) : Prop := 0x80 ≤ n ∧ n ≤ 0xBF

theorem tail_continues {owed seen bits n : Nat} (rest : Bytes) (hn : Continues n) :
    Front.tail (owed + 1) seen 0x80 0xBF bits (UInt8.ofNat n :: rest) =
      Front.tail owed (seen + 1) 0x80 0xBF (bits * 64 + n % 64) rest :=
  tail_cons rest (by have := hn.2; omega) hn.1 hn.2

theorem front_ofNat {n : Nat} (hn : n < 256) (rest : Bytes) :
    front (UInt8.ofNat n) rest =
      if n < 0x80 then .char (Char.ofNat n) rest
      else if n < 0xC2 then .invalid 1 rest
      else if n < 0xE0 then Front.tail 1 1 0x80 0xBF (n % 32) rest
      else if n = 0xE0 then Front.tail 2 1 0xA0 0xBF 0 rest
      else if n = 0xED then Front.tail 2 1 0x80 0x9F 13 rest
      else if n < 0xF0 then Front.tail 2 1 0x80 0xBF (n % 16) rest
      else if n = 0xF0 then Front.tail 3 1 0x90 0xBF 0 rest
      else if n < 0xF4 then Front.tail 3 1 0x80 0xBF (n % 8) rest
      else if n = 0xF4 then Front.tail 3 1 0x80 0x8F 4 rest
      else .invalid 1 rest := by
  simp only [front, ofNat_lt hn, ofNat_eq hn, toNat_ofNat hn, UInt8.reduceToNat]

theorem front_one {n : Nat} (rest : Bytes) (hn : n ≤ 0x7F) :
    front (UInt8.ofNat n) rest = .char (Char.ofNat n) rest := by
  rw [front_ofNat (by omega), if_pos (by omega)]

theorem front_two {n m : Nat} (rest : Bytes) (hn : 0xC2 ≤ n ∧ n < 0xE0) (hm : Continues m) :
    front (UInt8.ofNat n) (UInt8.ofNat m :: rest) =
      .char (Char.ofNat (n % 32 * 64 + m % 64)) rest := by
  rw [front_ofNat (by omega), if_neg (by omega), if_neg (by omega), if_pos (by omega),
    tail_continues rest hm, Front.tail]

/-- Three bytes are read as a character, unless two would have done or it is a surrogate. -/
theorem front_three {n m l : Nat} (rest : Bytes) (hn : 0xE0 ≤ n ∧ n < 0xF0) (hm : Continues m)
    (hl : Continues l) (hshort : n = 0xE0 → 0xA0 ≤ m) (hsurrogate : n = 0xED → m ≤ 0x9F) :
    front (UInt8.ofNat n) (UInt8.ofNat m :: UInt8.ofNat l :: rest) =
      .char (Char.ofNat ((n % 16 * 64 + m % 64) * 64 + l % 64)) rest := by
  have hm' : m < 256 := Nat.lt_of_le_of_lt hm.2 (by decide)
  rw [front_ofNat (by omega), if_neg (by omega), if_neg (by omega), if_neg (by omega)]
  by_cases hE0 : n = 0xE0
  · subst hE0
    have hlo : (0xA0 : UInt8).toNat ≤ m := hshort rfl
    have hhi : m ≤ (0xBF : UInt8).toNat := hm.2
    rw [if_pos rfl, tail_cons _ hm' hlo hhi, tail_continues rest hl, Front.tail]
  · by_cases hED : n = 0xED
    · subst hED
      have hhi : m ≤ (0x9F : UInt8).toNat := hsurrogate rfl
      have hlo : (0x80 : UInt8).toNat ≤ m := hm.1
      rw [if_neg hE0, if_pos rfl, tail_cons _ hm' hlo hhi, tail_continues rest hl, Front.tail]
    · rw [if_neg hE0, if_neg hED, if_pos (by omega), tail_continues _ hm, tail_continues rest hl,
        Front.tail]

/-- Four bytes are read as a character, unless three would have done or it is too large. -/
theorem front_four {n m l k : Nat} (rest : Bytes) (hn : 0xF0 ≤ n ∧ n ≤ 0xF4) (hm : Continues m)
    (hl : Continues l) (hk : Continues k) (hshort : n = 0xF0 → 0x90 ≤ m)
    (hlarge : n = 0xF4 → m ≤ 0x8F) :
    front (UInt8.ofNat n) (UInt8.ofNat m :: UInt8.ofNat l :: UInt8.ofNat k :: rest) =
      .char (Char.ofNat (((n % 8 * 64 + m % 64) * 64 + l % 64) * 64 + k % 64)) rest := by
  have hm' : m < 256 := Nat.lt_of_le_of_lt hm.2 (by decide)
  rw [front_ofNat (by omega), if_neg (by omega), if_neg (by omega), if_neg (by omega),
    if_neg (by omega), if_neg (by omega), if_neg (by omega)]
  by_cases hF0 : n = 0xF0
  · subst hF0
    have hlo : (0x90 : UInt8).toNat ≤ m := hshort rfl
    have hhi : m ≤ (0xBF : UInt8).toNat := hm.2
    rw [if_pos rfl, tail_cons _ hm' hlo hhi, tail_continues _ hl, tail_continues rest hk, Front.tail]
  · by_cases hF4 : n = 0xF4
    · subst hF4
      have hhi : m ≤ (0x8F : UInt8).toNat := hlarge rfl
      have hlo : (0x80 : UInt8).toNat ≤ m := hm.1
      rw [if_neg hF0, if_neg (by omega), if_pos rfl, tail_cons _ hm' hlo hhi, tail_continues _ hl,
        tail_continues rest hk, Front.tail]
    · rw [if_neg hF0, if_pos (by omega), tail_continues _ hm, tail_continues _ hl,
        tail_continues rest hk, Front.tail]

/-- The bytes of a character are read as this character. -/
theorem front_encodeChar (c : Char) (rest : Bytes) :
    ∃ b tail, utf8EncodeChar c = b :: tail ∧ front b (tail ++ rest) = .char c rest := by
  have hvalid := toNat_lt c
  have hchar : ∀ n, n = c.toNat → Front.char (Char.ofNat n) rest = .char c rest := by
    rintro n rfl
    rw [Char.ofNat_toNat]
  have hencoded := encoded c
  generalize utf8EncodeChar c = bytes at hencoded ⊢
  cases hencoded with
  | one h => exact ⟨_, _, rfl, (front_one rest h).trans (hchar _ rfl)⟩
  | two h h' =>
    refine ⟨_, _, rfl, (front_two rest ?_ ?_).trans (hchar _ ?_)⟩
    · omega
    · constructor <;> omega
    · omega
  | three h h' =>
    refine ⟨_, _, rfl, (front_three rest ?_ ?_ ?_ ?_ ?_).trans (hchar _ ?_)⟩
    · omega
    · constructor <;> omega
    · constructor <;> omega
    · omega
    · omega
    · omega
  | four h =>
    refine ⟨_, _, rfl, (front_four rest ?_ ?_ ?_ ?_ ?_ ?_).trans (hchar _ ?_)⟩
    · omega
    · constructor <;> omega
    · constructor <;> omega
    · constructor <;> omega
    · omega
    · omega
    · omega

/-! ## Texts -/

theorem lossyChars_encodeChar (c : Char) (rest : Bytes) :
    lossyChars (utf8EncodeChar c ++ rest) = c :: lossyChars rest := by
  obtain ⟨b, tail, hbytes, hfront⟩ := front_encodeChar c rest
  rw [hbytes, List.cons_append, lossyChars]
  split
  · rename_i c' rest' h
    rw [hfront] at h
    cases h
    rfl
  · rename_i h
    rw [hfront] at h
    cases h
  · rename_i h
    rw [hfront] at h
    cases h

theorem lossyChars_flatMap (cs : List Char) (rest : Bytes) :
    lossyChars (cs.flatMap utf8EncodeChar ++ rest) = cs ++ lossyChars rest := by
  induction cs with
  | nil => rfl
  | cons c cs ih =>
    rw [List.flatMap_cons, List.append_assoc, lossyChars_encodeChar, ih, List.cons_append]

theorem decodeLossy_encode_append (s : String) (rest : Bytes) :
    decodeLossy (encode s ++ rest) = s ++ decodeLossy rest := by
  unfold decodeLossy encode
  rw [lossyChars_flatMap, String.ofList_append, String.ofList_toList]

@[simp] theorem decodeLossy_encode (s : String) : decodeLossy (encode s) = s := by
  have h := decodeLossy_encode_append s []
  have hnil : decodeLossy [] = "" := by
    rw [decodeLossy, lossyChars, String.ofList_nil]
  rw [List.append_nil, hnil, String.append_empty] at h
  exact h

theorem decodeChars_encodeChar (index : Nat) (c : Char) (rest : Bytes) :
    ∃ next, decodeChars index (utf8EncodeChar c ++ rest) =
      (decodeChars next rest).map fun cs => c :: cs := by
  obtain ⟨b, tail, hbytes, hfront⟩ := front_encodeChar c rest
  refine ⟨index + ((tail ++ rest).length + 1 - rest.length), ?_⟩
  rw [hbytes, List.cons_append, decodeChars]
  split
  · rename_i c' rest' h
    rw [hfront] at h
    cases h
    cases decodeChars (index + ((tail ++ rest).length + 1 - rest.length)) rest with
    | ok cs => rfl
    | error e => rfl
  · rename_i h
    rw [hfront] at h
    cases h
  · rename_i h
    rw [hfront] at h
    cases h

theorem decodeChars_flatMap (index : Nat) (cs : List Char) :
    decodeChars index (cs.flatMap utf8EncodeChar) = .ok cs := by
  induction cs generalizing index with
  | nil =>
    rw [List.flatMap_nil]
    unfold decodeChars
    rfl
  | cons c cs ih =>
    obtain ⟨next, hnext⟩ := decodeChars_encodeChar index c (cs.flatMap utf8EncodeChar)
    rw [List.flatMap_cons, hnext, ih]
    rfl

@[simp] theorem decode_encode (s : String) : decode (encode s) = .ok s := by
  rw [decode, encode, decodeChars_flatMap]
  exact congrArg Except.ok String.ofList_toList

theorem encode_append (s t : String) : encode (s ++ t) = encode s ++ encode t := by
  rw [encode, String.toList_append, List.flatMap_append]
  rfl

/-! ## Order -/

theorem cons_lt_cons {n m : Nat} (hn : n < 256) (hm : m < 256) (bs cs : Bytes) :
    UInt8.ofNat n :: bs < UInt8.ofNat m :: cs ↔ n < m ∨ n = m ∧ bs < cs := by
  rw [List.cons_lt_cons_iff, ofNat_lt hn, toNat_ofNat hm, ofNat_eq hn, toNat_ofNat hm]

theorem lt_by_digits {n m : Nat} (h : n < m) :
    n / 64 < m / 64 ∨ n / 64 = m / 64 ∧ n % 64 < m % 64 := by
  omega

/-- The lesser of two characters has the lesser bytes, whatever comes after them. -/
theorem encodeChar_append_lt {c d : Char} (h : c < d) (bs cs : Bytes) :
    utf8EncodeChar c ++ bs < utf8EncodeChar d ++ cs := by
  have hlt : c.toNat < d.toNat := h
  have hvalid := toNat_lt d
  have hencodedC := encoded c
  have hencodedD := encoded d
  generalize utf8EncodeChar c = bytesC at hencodedC ⊢
  generalize utf8EncodeChar d = bytesD at hencodedD ⊢
  cases hencodedC with
  | one hc =>
    cases hencodedD with
    | one hd =>
      exact (cons_lt_cons (by omega) (by omega) _ _).2 (.inl hlt)
    | two hd hd' => exact (cons_lt_cons (by omega) (by omega) _ _).2 (.inl (by omega))
    | three hd hd' => exact (cons_lt_cons (by omega) (by omega) _ _).2 (.inl (by omega))
    | four hd => exact (cons_lt_cons (by omega) (by omega) _ _).2 (.inl (by omega))
  | two hc hc' =>
    cases hencodedD with
    | one hd => omega
    | two hd hd' =>
      simp only [List.cons_append]
      rw [cons_lt_cons (by omega) (by omega), cons_lt_cons (by omega) (by omega)]
      omega
    | three hd hd' => exact (cons_lt_cons (by omega) (by omega) _ _).2 (.inl (by omega))
    | four hd => exact (cons_lt_cons (by omega) (by omega) _ _).2 (.inl (by omega))
  | three hc hc' =>
    cases hencodedD with
    | one hd => omega
    | two hd hd' => omega
    | three hd hd' =>
      simp only [List.cons_append]
      rw [cons_lt_cons (by omega) (by omega), cons_lt_cons (by omega) (by omega),
        cons_lt_cons (by omega) (by omega)]
      omega
    | four hd => exact (cons_lt_cons (by omega) (by omega) _ _).2 (.inl (by omega))
  | four hc =>
    cases hencodedD with
    | one hd => omega
    | two hd hd' => omega
    | three hd hd' => omega
    | four hd =>
      have hdigits : ∀ n, n < 0x110000 → n / 262144 % 8 = n / 262144 ∧ n / 262144 = n / 4096 / 64 ∧
          n / 4096 = n / 64 / 64 := by omega
      obtain ⟨hc1, hc2, hc3⟩ := hdigits c.toNat (by omega)
      obtain ⟨hd1, hd2, hd3⟩ := hdigits d.toNat (by omega)
      have hlow := lt_by_digits hlt
      have hmid : c.toNat / 64 < d.toNat / 64 → _ := lt_by_digits
      have hhigh : c.toNat / 4096 < d.toNat / 4096 → _ := lt_by_digits
      rw [← hc3, ← hd3] at hmid
      rw [← hc2, ← hd2] at hhigh
      simp only [List.cons_append]
      rw [cons_lt_cons (by omega) (by omega), cons_lt_cons (by omega) (by omega),
        cons_lt_cons (by omega) (by omega), cons_lt_cons (by omega) (by omega), hc1, hd1]
      clear hc1 hd1 hc2 hd2 hc3 hd3 hdigits
      omega

theorem flatMap_lt_flatMap {cs ds : List Char} (h : cs < ds) :
    cs.flatMap utf8EncodeChar < ds.flatMap utf8EncodeChar := by
  induction ds generalizing cs with
  | nil => exact absurd h (List.not_lt_nil cs)
  | cons d ds ih =>
    cases cs with
    | nil =>
      obtain ⟨b, tail, hbytes, -⟩ := front_encodeChar d []
      rw [List.flatMap_cons, hbytes]
      exact List.nil_lt_cons b _
    | cons c cs =>
      rw [List.flatMap_cons, List.flatMap_cons]
      rcases List.cons_lt_cons_iff.1 h with hlt | ⟨rfl, hlt⟩
      · exact encodeChar_append_lt hlt _ _
      · exact List.append_left_lt (ih hlt)

/-- Texts are in the order of their bytes. -/
theorem encode_le_encode_iff {s t : String} : encode s ≤ encode t ↔ s ≤ t := by
  constructor
  · intro h
    by_contra hlt
    have hbytes : encode t < encode s := flatMap_lt_flatMap (String.lt_iff.1 (String.not_le.1 hlt))
    exact absurd hbytes (List.not_lt.2 h)
  · intro h
    by_contra hlt
    rcases eq_or_ne s t with rfl | hne
    · exact hlt (List.le_refl _)
    · have hst : s < t := by
        by_contra hnot
        exact hne (String.le_antisymm h (String.not_lt.1 hnot))
      have hbytes : encode s < encode t := flatMap_lt_flatMap (String.lt_iff.1 hst)
      exact hlt (List.le_of_lt hbytes)

end BatchingCache.Utf8
