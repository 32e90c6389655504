import BatchingCache.Proofs.Store.Glob
import Mathlib.Data.List.Forall2
/-!
# Patterns token by token

A pattern is a row of tokens.  It is matched by the texts that can be cut into pieces, one for each token
in turn.  What is escaped is matched by itself alone.
-/

namespace BatchingCache.Glob

inductive Token where
  /-- This byte. -/
  | literal (b : UInt8)
  /-- One byte, whichever it is. -/
  | single
  /-- Any bytes, or none. -/
  | run
  deriving DecidableEq, Repr

def Token.Matches : Token → Bytes → Prop
  | literal b, piece => piece = [b]
  | single, piece => piece.length = 1
  | run, _ => True

/-- The tokens of a pattern, from left to right.  A backslash makes the byte after it literal; at the
end it is a literal itself. -/
def tokens : Bytes → List Token
  | [] => []
  | 0x2A :: rest => .run :: tokens rest
  | 0x3F :: rest => .single :: tokens rest
  | 0x5C :: b :: rest => .literal b :: tokens rest
  | b :: rest => .literal b :: tokens rest

instance : DecidablePred Special := fun b =>
  inferInstanceAs (Decidable (b = 0x2A ∨ b = 0x3F ∨ b = 0x5C))

def escape (literal : Bytes) : Bytes :=
  literal.flatMap fun b => if Special b then [0x5C, b] else [b]

variable {pattern text : Bytes}

theorem accepts_backslash_iff : accepts [0x5C] text ↔ text = [0x5C] := by
  cases text with
  | nil => exact iff_of_false Bool.false_ne_true (by simp)
  | cons d text =>
    show (decide (d = 0x5C) && text.isEmpty) = true ↔ _
    simp

/-! ## Cuts -/

/-- A text can be cut into pieces that match the tokens in turn. -/
def Cuts (ts : List Token) (text : Bytes) : Prop :=
  ∃ pieces : List Bytes, List.Forall₂ Token.Matches ts pieces ∧ pieces.flatten = text

theorem cuts_nil_iff : Cuts [] text ↔ text = [] := by
  constructor
  · rintro ⟨pieces, hpieces, rfl⟩
    cases hpieces
    rfl
  · rintro rfl
    exact ⟨[], .nil, rfl⟩

theorem cuts_cons_iff {t : Token} {ts : List Token} :
    Cuts (t :: ts) text ↔ ∃ piece rest, text = piece ++ rest ∧ t.Matches piece ∧ Cuts ts rest := by
  constructor
  · rintro ⟨pieces, hpieces, rfl⟩
    cases hpieces with
    | cons hpiece hrest => exact ⟨_, _, rfl, hpiece, _, hrest, rfl⟩
  · rintro ⟨piece, rest, rfl, hpiece, pieces, hrest, rfl⟩
    exact ⟨piece :: pieces, .cons hpiece hrest, rfl⟩

theorem cuts_literal_iff {b : UInt8} {ts : List Token} :
    Cuts (.literal b :: ts) text ↔ ∃ rest, text = b :: rest ∧ Cuts ts rest := by
  rw [cuts_cons_iff]
  constructor
  · rintro ⟨piece, rest, rfl, rfl, hrest⟩
    exact ⟨rest, rfl, hrest⟩
  · rintro ⟨rest, rfl, hrest⟩
    exact ⟨[b], rest, rfl, rfl, hrest⟩

theorem cuts_single_iff {ts : List Token} :
    Cuts (.single :: ts) text ↔ ∃ b rest, text = b :: rest ∧ Cuts ts rest := by
  rw [cuts_cons_iff]
  constructor
  · rintro ⟨piece, rest, rfl, hpiece, hrest⟩
    obtain ⟨b, rfl⟩ := List.length_eq_one_iff.1 hpiece
    exact ⟨b, rest, rfl, hrest⟩
  · rintro ⟨b, rest, rfl, hrest⟩
    exact ⟨[b], rest, rfl, rfl, hrest⟩

theorem cuts_run_iff {ts : List Token} :
    Cuts (.run :: ts) text ↔ ∃ piece rest, text = piece ++ rest ∧ Cuts ts rest := by
  rw [cuts_cons_iff]
  simp only [Token.Matches, true_and]

/-- The induction is on the pattern, two bytes at a time where the first one is a backslash. -/
theorem accepts_iff_cuts : accepts pattern text ↔ Cuts (tokens pattern) text := by
  fun_induction tokens pattern generalizing text with
  | case1 => rw [accepts_nil_iff, cuts_nil_iff]
  | case2 rest ih => simp only [accepts_star_iff, cuts_run_iff, ih]
  | case3 rest ih => simp only [accepts_question_iff, cuts_single_iff, ih]
  | case4 b rest ih => simp only [accepts_escaped_iff, cuts_literal_iff, ih]
  | case5 b rest hstar hquestion hbackslash ih =>
    rw [cuts_literal_iff]
    by_cases hb : b = 0x5C
    · -- The other cases leave a backslash only at the end.
      subst hb
      cases rest with
      | nil => simp [accepts_backslash_iff, tokens, cuts_nil_iff]
      | cons c rest => exact (hbackslash c rest rfl rfl).elim
    · have hliteral : ¬ Special b := by
        rintro (h | h | h)
        · exact hstar h
        · exact hquestion h
        · exact hb h
      simp only [accepts_cons_iff hliteral, ih]

/-! ## Escapes -/

theorem escape_cons (b : UInt8) (literal : Bytes) :
    escape (b :: literal) = (if Special b then [0x5C, b] else [b]) ++ escape literal :=
  List.flatMap_cons

theorem accepts_escape_append_iff {literal : Bytes} :
    accepts (escape literal ++ pattern) text ↔
      ∃ rest, text = literal ++ rest ∧ accepts pattern rest := by
  induction literal generalizing text with
  | nil => simp [escape]
  | cons b literal ih =>
    have hfirst : accepts (escape (b :: literal) ++ pattern) text ↔
        ∃ rest, text = b :: rest ∧ accepts (escape literal ++ pattern) rest := by
      rw [escape_cons]
      by_cases hb : Special b
      · rw [if_pos hb]
        exact accepts_escaped_iff b
      · rw [if_neg hb]
        exact accepts_cons_iff hb
    rw [hfirst]
    constructor
    · rintro ⟨rest, rfl, haccepts⟩
      obtain ⟨rest', rfl, haccepts'⟩ := ih.1 haccepts
      exact ⟨rest', rfl, haccepts'⟩
    · rintro ⟨rest, rfl, haccepts⟩
      exact ⟨literal ++ rest, rfl, ih.2 ⟨rest, rfl, haccepts⟩⟩

/-- A pattern is matched by just the texts that can be cut into pieces for its tokens in turn.  Escaped
bytes are matched by themselves and nothing else, and before a pattern by what begins with them and goes
on as the pattern says. -/
theorem accepts_iff_pieces :
    (∀ pattern text, accepts pattern text ↔
      ∃ pieces : List Bytes,
        List.Forall₂ Token.Matches (tokens pattern) pieces ∧ pieces.flatten = text) ∧
    (∀ literal text, accepts (escape literal) text ↔ text = literal) ∧
    ∀ literal pattern text, accepts (escape literal ++ pattern) text ↔
      ∃ rest, text = literal ++ rest ∧ accepts pattern rest := by
  refine ⟨fun pattern text => accepts_iff_cuts, fun literal text => ?_,
    fun literal pattern text => accepts_escape_append_iff⟩
  rw [← List.append_nil (escape literal), accepts_escape_append_iff]
  constructor
  · rintro ⟨rest, rfl, hrest⟩
    rw [accepts_nil_iff.1 hrest, List.append_nil]
  · rintro rfl
    exact ⟨[], (List.append_nil text).symm, rfl⟩

end BatchingCache.Glob
