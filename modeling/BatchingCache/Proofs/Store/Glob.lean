import BatchingCache.Proofs.Text.Utf8
import BatchingCache.Store.Glob
/-!
# Literal and special characters of a pattern

A pattern that begins with literal characters is matched by nothing but what begins with these.  A
special character is matched by something else than itself.
-/

namespace BatchingCache.Glob

open String (utf8EncodeChar)

def Special (b : UInt8) : Prop := b = 0x2A ∨ b = 0x3F ∨ b = 0x5C

def specials : List Char := ['*', '?', '\\']

variable {pattern text : Bytes}

theorem mem_suffixes_iff {rest : Bytes} : rest ∈ suffixes text ↔ rest <:+ text := by
  induction text with
  | nil => simp [suffixes]
  | cons b text ih => rw [suffixes, List.mem_cons, ih, List.suffix_cons_iff]

theorem accepts_nil_iff : accepts [] text ↔ text = [] := List.isEmpty_iff

theorem accepts_star_iff :
    accepts (0x2A :: pattern) text ↔ ∃ piece rest, text = piece ++ rest ∧ accepts pattern rest := by
  show (suffixes text).any (accepts pattern) = true ↔ _
  rw [List.any_eq_true]
  constructor
  · rintro ⟨rest, hmem, haccepts⟩
    obtain ⟨piece, hcut⟩ := mem_suffixes_iff.1 hmem
    exact ⟨piece, rest, hcut.symm, haccepts⟩
  · rintro ⟨piece, rest, rfl, haccepts⟩
    exact ⟨rest, mem_suffixes_iff.2 (List.suffix_append piece rest), haccepts⟩

theorem accepts_question_iff :
    accepts (0x3F :: pattern) text ↔ ∃ b rest, text = b :: rest ∧ accepts pattern rest := by
  cases text with
  | nil => exact iff_of_false Bool.false_ne_true (by simp)
  | cons b text =>
    show accepts pattern text ↔ _
    simp

theorem accepts_escaped_iff (b : UInt8) :
    accepts (0x5C :: b :: pattern) text ↔ ∃ rest, text = b :: rest ∧ accepts pattern rest := by
  cases text with
  | nil => exact iff_of_false Bool.false_ne_true (by simp)
  | cons d text =>
    show (decide (d = b) && accepts pattern text) = true ↔ _
    simp

theorem accepts_cons_iff {b : UInt8} (hb : ¬ Special b) :
    accepts (b :: pattern) text ↔ ∃ rest, text = b :: rest ∧ accepts pattern rest := by
  have hstar : b = 0x2A → False := fun h => hb (.inl h)
  have hquestion : b = 0x3F → False := fun h => hb (.inr (.inl h))
  have hbackslash : ∀ c rest, b = 0x5C → pattern = c :: rest → False :=
    fun _ _ h _ => hb (.inr (.inr h))
  cases text with
  | nil => simp [accepts.eq_7 b pattern hstar hquestion hbackslash]
  | cons d text =>
    rw [accepts.eq_8 b pattern d text hstar hquestion hbackslash]
    simp only [Bool.and_eq_true, decide_eq_true_eq, List.cons.injEq]
    constructor
    · rintro ⟨rfl, haccepts⟩
      exact ⟨text, ⟨rfl, rfl⟩, haccepts⟩
    · rintro ⟨rest, ⟨rfl, rfl⟩, haccepts⟩
      exact ⟨rfl, haccepts⟩

theorem accepts_append_iff {literal : Bytes} (hliteral : ∀ b ∈ literal, ¬ Special b) :
    accepts (literal ++ pattern) text ↔ ∃ rest, text = literal ++ rest ∧ accepts pattern rest := by
  induction literal generalizing text with
  | nil => simp
  | cons b literal ih =>
    obtain ⟨hb, hrest⟩ := List.forall_mem_cons.1 hliteral
    rw [List.cons_append, accepts_cons_iff hb]
    constructor
    · rintro ⟨rest, rfl, haccepts⟩
      obtain ⟨rest', rfl, haccepts'⟩ := (ih hrest).1 haccepts
      exact ⟨rest', rfl, haccepts'⟩
    · rintro ⟨rest, rfl, haccepts⟩
      exact ⟨literal ++ rest, rfl, (ih hrest).2 ⟨rest, rfl, haccepts⟩⟩

/-! ## Characters -/

theorem not_special_of_high {b : UInt8} (h : 0x80 ≤ b.toNat) : ¬ Special b := by
  rintro (rfl | rfl | rfl)
  · exact absurd h (by decide)
  · exact absurd h (by decide)
  · exact absurd h (by decide)

theorem not_special_of_mem_encodeChar {c : Char} (hc : c ∉ specials) :
    ∀ b ∈ utf8EncodeChar c, ¬ Special b := by
  intro b hb
  rcases Utf8.ascii_or_high c with ⟨hascii, hbytes⟩ | hhigh
  · rw [hbytes, List.mem_singleton] at hb
    subst hb
    have hback : ∀ n, UInt8.ofNat c.toNat = UInt8.ofNat n → n ≤ 0x7F → c = Char.ofNat n := by
      intro n h hn
      have hnat := congrArg UInt8.toNat h
      rw [UInt8.toNat_ofNat_of_lt' (Nat.lt_of_le_of_lt hascii (by decide)),
        UInt8.toNat_ofNat_of_lt' (Nat.lt_of_le_of_lt hn (by decide))] at hnat
      rw [← hnat, Char.ofNat_toNat]
    rintro (h | h | h)
    · exact hc (hback 0x2A h (by decide) ▸ by decide)
    · exact hc (hback 0x3F h (by decide) ▸ by decide)
    · exact hc (hback 0x5C h (by decide) ▸ by decide)
  · exact not_special_of_high (hhigh b hb)

/-- A pattern that begins with literal characters is matched by nothing but texts that begin with them. -/
theorem begins_of_accepts {lead pattern text : String} (hlead : ∀ c ∈ lead.toList, c ∉ specials)
    (h : accepts (Utf8.encode (lead ++ pattern)) (Utf8.encode text)) : ∃ rest, text = lead ++ rest := by
  have hbytes : ∀ b ∈ Utf8.encode lead, ¬ Special b := by
    intro b hb
    obtain ⟨c, hc, hb⟩ := List.mem_flatMap.1 hb
    exact not_special_of_mem_encodeChar (hlead c hc) b hb
  rw [Utf8.encode_append, accepts_append_iff hbytes] at h
  obtain ⟨rest, hrest, -⟩ := h
  refine ⟨Utf8.decodeLossy rest, ?_⟩
  calc text
    _ = Utf8.decodeLossy (Utf8.encode text) := (Utf8.decodeLossy_encode text).symm
    _ = Utf8.decodeLossy (Utf8.encode lead ++ rest) := by rw [hrest]
    _ = lead ++ Utf8.decodeLossy rest := Utf8.decodeLossy_encode_append lead rest

/-! ## Everything after a beginning -/

theorem accepts_any (text : Bytes) : accepts [0x2A] text :=
  accepts_star_iff.2 ⟨text, [], (List.append_nil text).symm, rfl⟩

/-- Texts match their own beginning with a star after it, unless that has backslashes. -/
theorem accepts_beginning {cs : List Char} (hcs : '\\' ∉ cs) (rest : Bytes) :
    accepts (cs.flatMap utf8EncodeChar ++ [0x2A]) (cs.flatMap utf8EncodeChar ++ rest) := by
  induction cs with
  | nil => exact accepts_any rest
  | cons c cs ih =>
    have hlater := ih fun h => hcs (List.mem_cons_of_mem c h)
    rw [List.flatMap_cons, List.append_assoc, List.append_assoc]
    by_cases hc : c ∈ specials
    · simp only [specials, List.mem_cons, List.not_mem_nil, or_false] at hc
      rcases hc with rfl | rfl | rfl
      · -- The star stands for itself.
        exact accepts_star_iff.2 ⟨_, _, rfl, hlater⟩
      · exact accepts_question_iff.2 ⟨_, _, rfl, hlater⟩
      · exact absurd List.mem_cons_self hcs
    · exact (accepts_append_iff (not_special_of_mem_encodeChar hc)).2 ⟨_, rfl, hlater⟩

/-! ## A text for every pattern -/

/-- A text that is matched by a pattern: a star stands for nothing and a question mark for some other
character, and a backslash is left out. -/
def sample : List Char → List Char
  | [] => []
  | '*' :: cs => sample cs
  | '?' :: cs => '_' :: sample cs
  | '\\' :: c :: cs => c :: sample cs
  | c :: cs => c :: sample cs

theorem sample_cons {c : Char} (hc : c ∉ specials) (cs : List Char) :
    sample (c :: cs) = c :: sample cs := by
  simp only [specials, List.mem_cons, List.not_mem_nil, or_false, not_or] at hc
  obtain ⟨hstar, hquestion, hbackslash⟩ := hc
  rw [sample]
  · exact hstar
  · exact hquestion
  · exact fun _ _ h _ => hbackslash h

theorem accepts_sample (cs : List Char) :
    accepts (cs.flatMap utf8EncodeChar) ((sample cs).flatMap utf8EncodeChar) := by
  fun_induction sample cs with
  | case1 => rfl
  | case2 cs ih => exact accepts_star_iff.2 ⟨[], _, rfl, ih⟩
  | case3 cs ih => exact accepts_question_iff.2 ⟨_, _, rfl, ih⟩
  | case4 c cs ih =>
    obtain ⟨b, tail, hbytes, -⟩ := Utf8.front_encodeChar c []
    -- Only the first byte is escaped, and those after it belong to a character of several bytes.
    have htail : ∀ b ∈ tail, ¬ Special b := by
      intro b' hb'
      rcases Utf8.ascii_or_high c with ⟨-, hascii⟩ | hhigh
      · rw [hbytes] at hascii
        injection hascii with _ hnil
        rw [hnil] at hb'
        cases hb'
      · exact not_special_of_high (hhigh b' (hbytes ▸ List.mem_cons_of_mem b hb'))
    have hrest := (accepts_append_iff htail).2 ⟨_, rfl, ih⟩
    simp only [List.flatMap_cons, hbytes]
    exact (accepts_escaped_iff b).2 ⟨_, rfl, hrest⟩
  | case5 c cs hstar hquestion hbackslash ih =>
    by_cases hc : c ∈ specials
    · -- What is left of the special characters is a backslash at the end.
      obtain rfl : c = '\\' := by
        simp only [specials, List.mem_cons, List.not_mem_nil, or_false] at hc
        rcases hc with h | h | h
        · exact (hstar h).elim
        · exact (hquestion h).elim
        · exact h
      cases cs with
      | nil => rfl
      | cons d cs => exact (hbackslash d cs rfl rfl).elim
    · simp only [List.flatMap_cons]
      exact (accepts_append_iff (not_special_of_mem_encodeChar hc)).2 ⟨_, rfl, ih⟩

theorem length_sample_le (cs : List Char) : (sample cs).length ≤ cs.length := by
  fun_induction sample cs with
  | case1 => exact Nat.le_refl _
  | case2 cs ih => exact Nat.le_succ_of_le ih
  | case3 cs ih => exact Nat.succ_le_succ ih
  | case4 c cs ih =>
    simp only [List.length_cons]
    omega
  | case5 c cs _ _ _ ih => exact Nat.succ_le_succ ih

/-- If the text that was made begins with the pattern, this has no special characters. -/
theorem not_mem_specials_of_sample {cs rest : List Char}
    (h : sample (cs ++ [':']) = cs ++ [':'] ++ rest) : ∀ c ∈ cs, c ∉ specials := by
  induction cs with
  | nil => exact nofun
  | cons c cs ih =>
    have hlength := congrArg List.length h
    have hle := length_sample_le (cs ++ [':'])
    simp only [List.length_append, List.length_cons, List.length_nil] at hlength hle
    by_cases hc : c ∈ specials
    · exfalso
      simp only [specials, List.mem_cons, List.not_mem_nil, or_false] at hc
      rcases hc with rfl | rfl | rfl
      · simp only [List.cons_append, sample] at hlength
        omega
      · injection h with hfirst
        exact absurd hfirst (by decide)
      · cases cs with
        | nil =>
          simp only [List.nil_append, List.cons_append, sample, List.length_cons,
            List.length_nil] at hlength
          omega
        | cons d cs =>
          have hle' := length_sample_le (cs ++ [':'])
          simp only [List.cons_append, sample, List.length_cons, List.length_append,
            List.length_nil] at hlength hle'
          omega
    · rw [List.cons_append, sample_cons hc] at h
      injection h with _ hrest
      exact List.forall_mem_cons.2 ⟨hc, ih hrest⟩

end BatchingCache.Glob
