import BatchingCache.Proofs.Json.Numbers
import BatchingCache.Proofs.Json.Texts
/-!
# Values in JSON

A value without doubles that was written is read back, with the fields of its objects in ascending
order.  The reader's depth bounds the levels of the value, and what follows a value only has to begin
with something that no number goes on with.
-/

namespace BatchingCache

namespace KeyMap

variable {α : Type}

theorem entries_insertAll (m : KeyMap α) (l : List (String × α)) :
    (m.insertAll l).entries = l.foldl (fun entries e => insertEntry e.1 e.2 entries) m.entries := by
  induction l generalizing m with
  | nil => rfl
  | cons e l ih => exact ih (m.insert e.1 e.2)

theorem insertEntry_of_forall_lt {k : String} {v : α} {l : List (String × α)}
    (h : ∀ e ∈ l, e.1 < k) : insertEntry k v l = l ++ [(k, v)] := by
  induction l with
  | nil => rfl
  | cons e l ih =>
    obtain ⟨he, hl⟩ := List.forall_mem_cons.1 h
    have hlt : ¬ k < e.1 := fun hlt => String.lt_irrefl k (String.lt_trans hlt he)
    have hne : k ≠ e.1 := fun heq => String.lt_irrefl k (heq ▸ he)
    rw [insertEntry, if_neg hlt, if_neg hne, ih hl]
    rfl

theorem entries_ofList {l : List (String × α)} (h : l.Pairwise fun a b => a.1 < b.1) :
    (ofList l).entries = l := by
  have happend : ∀ front back : List (String × α), (front ++ back).Pairwise (fun a b => a.1 < b.1) →
      back.foldl (fun entries e => insertEntry e.1 e.2 entries) front = front ++ back := by
    intro front back
    induction back generalizing front with
    | nil => exact fun _ => (List.append_nil front).symm
    | cons e back ih =>
      intro hsorted
      have hlt : ∀ a ∈ front, a.1 < e.1 := fun a ha =>
        (List.pairwise_append.1 hsorted).2.2 a ha e List.mem_cons_self
      have hcons : front ++ e :: back = front ++ [e] ++ back := by simp
      rw [List.foldl_cons, insertEntry_of_forall_lt hlt, hcons]
      exact ih (front ++ [e]) (hcons ▸ hsorted)
  rw [ofList, entries_insertAll]
  exact happend [] l h

end KeyMap

namespace Json

/-! ## Values and their order -/

/-- A value without doubles, with whole numbers of 64 bits, and with at most `levels` levels of lists
and objects. -/
inductive Plain : Nat → Json → Prop where
  | null {levels : Nat} : Plain levels .null
  | bool {levels : Nat} (b : Bool) : Plain levels (.bool b)
  | int {levels : Nat} {i : Int} (hlow : -2 ^ 63 ≤ i) (hhigh : i < 2 ^ 64) : Plain levels (.int i)
  | text {levels : Nat} (s : String) : Plain levels (.text s)
  | list {levels : Nat} {items : List Json} (h : ∀ v ∈ items, Plain levels v) :
      Plain (levels + 1) (.list items)
  | object {levels : Nat} {fields : List (String × Json)} (h : ∀ f ∈ fields, Plain levels f.2) :
      Plain (levels + 1) (.object fields)

inductive InOrder : Json → Prop where
  | null : InOrder .null
  | bool (b : Bool) : InOrder (.bool b)
  | number (n : Number) : InOrder (.number n)
  | text (s : String) : InOrder (.text s)
  | list {items : List Json} (h : ∀ v ∈ items, InOrder v) : InOrder (.list items)
  | object {fields : List (String × Json)} (hsorted : fields.Pairwise fun a b => a.1 < b.1)
      (h : ∀ f ∈ fields, InOrder f.2) : InOrder (.object fields)

mutual

/-- The value with the fields of all objects in ascending order.  Of fields with one name the last
counts. -/
def arranged : Json → Json
  | .list items => .list (arrangedItems items)
  | .object fields => .object (KeyMap.ofList (arrangedFields fields)).entries
  | v => v

def arrangedItems : List Json → List Json
  | [] => []
  | v :: vs => arranged v :: arrangedItems vs

def arrangedFields : List (String × Json) → List (String × Json)
  | [] => []
  | (name, v) :: fields => (name, arranged v) :: arrangedFields fields

end

theorem arrangedItems_eq {items : List Json} (h : ∀ v ∈ items, v.arranged = v) :
    arrangedItems items = items := by
  induction items with
  | nil => rfl
  | cons v vs ih =>
    obtain ⟨hv, hvs⟩ := List.forall_mem_cons.1 h
    rw [arrangedItems, hv, ih hvs]

theorem arrangedFields_eq {fields : List (String × Json)} (h : ∀ f ∈ fields, f.2.arranged = f.2) :
    arrangedFields fields = fields := by
  induction fields with
  | nil => rfl
  | cons f fields ih =>
    obtain ⟨hf, hfields⟩ := List.forall_mem_cons.1 h
    rw [arrangedFields, hf, ih hfields]

theorem InOrder.arranged_eq {v : Json} (h : v.InOrder) : v.arranged = v := by
  induction h with
  | list h ih => rw [arranged, arrangedItems_eq ih]
  | object hsorted h ih => rw [arranged, arrangedFields_eq ih, KeyMap.entries_ofList hsorted]
  | _ => rfl

/-! ## Reading what was written -/

def BeginsValue : Bytes → Prop
  | [] => False
  | b :: _ => isBlank b = false ∧ b ≠ closeBracket

/-- A reader takes these bytes off the front as `x`. -/
def Takes {α : Type} (reader : Reader α) (bs : Bytes) (x : α) : Prop :=
  ∀ rest, NumberEnds rest → reader (bs ++ rest) = .ok (x, rest)

theorem skipBlank_of_not_blank {b : UInt8} (h : isBlank b = false) (bs : Bytes) :
    skipBlank (b :: bs) = b :: bs := by
  rw [skipBlank, List.dropWhile_cons_of_neg (by rw [h]; decide)]

theorem ne_of_isDigit {b c : UInt8} (hb : isDigit b = true) (hc : isDigit c = false) : b ≠ c := by
  rintro rfl
  rw [hb] at hc
  cases hc

theorem isBlank_of_isDigit {b : UInt8} (h : isDigit b = true) : isBlank b = false := by
  simp only [isBlank, Bool.or_eq_false_iff, decide_eq_false_iff_not]
  exact ⟨⟨⟨ne_of_isDigit h (by decide), ne_of_isDigit h (by decide)⟩, ne_of_isDigit h (by decide)⟩,
    ne_of_isDigit h (by decide)⟩

/-! ### Scalars -/

theorem readValue_of_digit {b : UInt8} (h : isDigit b = true) (depth : Nat) (bs : Bytes) :
    readValue (depth + 1) (b :: bs) =
      (readNumber false (b :: bs)).map fun r => (.number r.1, r.2) := by
  simp only [readValue, skipBlank_of_not_blank (isBlank_of_isDigit h)]
  rw [if_neg (ne_of_isDigit h (by decide)), if_neg (ne_of_isDigit h (by decide)),
    if_neg (ne_of_isDigit h (by decide)), if_neg (ne_of_isDigit h (by decide)), if_pos h]
  cases readNumber false (b :: bs) with
  | ok r => rfl
  | error e => rfl

theorem readValue_of_minus (depth : Nat) (bs : Bytes) :
    readValue (depth + 1) (minusSign :: bs) =
      (readNumber true bs).map fun r => (.number r.1, r.2) := by
  show (readNumber true bs >>= _) = _
  cases readNumber true bs with
  | ok r => rfl
  | error e => rfl

theorem encode_intText_ofNat (n : Nat) :
    Utf8.encode (Decimal.intText (n : Int)) = (Decimal.digits n).map digitByte :=
  encode_natText n

theorem encode_intText_negSucc (n : Nat) :
    Utf8.encode (Decimal.intText (Int.negSucc n)) =
      minusSign :: (Decimal.digits (n + 1)).map digitByte := by
  rw [Decimal.intText, Utf8.encode_append, encode_natText]
  rfl

theorem digits_eq_cons (n : Nat) : ∃ d ds, Decimal.digits n = d :: ds ∧ d < 10 := by
  have hcanonical := Decimal.canonical_digits n
  cases hdigits : Decimal.digits n with
  | nil =>
    rw [hdigits] at hcanonical
    rcases hcanonical with h | ⟨d, ds, h, -⟩
    · cases h
    · cases h
  | cons d ds =>
    refine ⟨d, ds, rfl, Decimal.lt_ten_of_mem_digits (n := n) ?_⟩
    rw [hdigits]
    exact List.mem_cons_self

theorem takes_int {i : Int} (hlow : -2 ^ 63 ≤ i) (hhigh : i < 2 ^ 64) (depth : Nat) :
    Takes (readValue (depth + 1)) (Json.int i).print (.int i) := by
  intro rest hrest
  rw [print, Number.write]
  cases i with
  | ofNat n =>
    rw [Int.ofNat_eq_natCast] at hhigh ⊢
    have hfits : n < UInt64.size := by
      have hsize : UInt64.size = 2 ^ 64 := rfl
      omega
    obtain ⟨d, ds, hdigits, hd⟩ := digits_eq_cons n
    have hread := readNumber_digits hfits hrest false
    rw [encode_intText_ofNat]
    rw [hdigits, List.map_cons, List.cons_append] at hread ⊢
    rw [readValue_of_digit (isDigit_digitByte hd), hread]
    rfl
  | negSucc n =>
    have hfits : n + 1 < UInt64.size := by
      have hsize : UInt64.size = 2 ^ 64 := rfl
      omega
    have hwhole : wholeNumber true (n + 1) = .int (Int.negSucc n) := by
      have hrange : (0 < n + 1 && n + 1 ≤ 1 <<< 63) = true := by
        have hpower : (1 <<< 63 : Nat) = 2 ^ 63 := rfl
        simp only [Bool.and_eq_true, decide_eq_true_eq]
        omega
      rw [wholeNumber, if_pos rfl, if_pos hrange]
      rfl
    rw [encode_intText_negSucc, List.cons_append, readValue_of_minus, readNumber_digits hfits hrest,
      hwhole]
    rfl

theorem takes_text (s : String) (depth : Nat) :
    Takes (readValue (depth + 1)) (Json.text s).print (.text s) := by
  intro rest _
  have hprint : (Json.text s).print ++ rest =
      quoteMark :: (s.toList.flatMap printChar ++ quoteMark :: rest) := by
    rw [print, printText]
    simp
  rw [hprint]
  show (readText (s.toList.flatMap printChar ++ quoteMark :: rest) >>= _) = _
  rw [readText_printed]
  rfl

/-! ### Lists and objects -/

theorem length_lt_printItems (vs : List Json) : vs.length < (printItems false vs).length := by
  induction vs with
  | nil => exact Nat.one_pos
  | cons v vs ih =>
    rw [printItems, List.append_assoc, if_neg (by decide)]
    simp only [List.length_append, List.length_cons, List.length_nil]
    omega

theorem length_le_printItems (vs : List Json) : vs.length ≤ (printItems true vs).length := by
  cases vs with
  | nil => exact Nat.zero_le _
  | cons v vs =>
    have hlater := length_lt_printItems vs
    rw [printItems, List.length_append, List.length_cons]
    omega

theorem length_lt_printFields (fields : List (String × Json)) :
    fields.length < (printFields false fields).length := by
  induction fields with
  | nil => exact Nat.one_pos
  | cons f fields ih =>
    rw [printFields, List.append_assoc, List.append_assoc, if_neg (by decide)]
    simp only [List.length_append, List.length_cons, List.length_nil]
    omega

theorem length_le_printFields (fields : List (String × Json)) :
    fields.length ≤ (printFields true fields).length := by
  cases fields with
  | nil => exact Nat.zero_le _
  | cons f fields =>
    have hlater := length_lt_printFields fields
    rw [printFields, List.length_append, List.length_cons]
    omega

theorem numberEnds_printItems (vs : List Json) (rest : Bytes) :
    NumberEnds (printItems false vs ++ rest) := by
  cases vs with
  | nil => exact ⟨by decide, by decide, by decide⟩
  | cons v vs => exact ⟨by decide, by decide, by decide⟩

theorem numberEnds_printFields (fields : List (String × Json)) (rest : Bytes) :
    NumberEnds (printFields false fields ++ rest) := by
  cases fields with
  | nil => exact ⟨by decide, by decide, by decide⟩
  | cons f fields => exact ⟨by decide, by decide, by decide⟩

theorem nextElement_stop (first : Bool) (rest : Bytes) :
    nextElement first (closeBracket :: rest) = .ok (.stop (closeBracket :: rest)) := rfl

/-- The next element comes right away, or after a comma. -/
theorem nextElement_more (first : Bool) {bs : Bytes} (h : BeginsValue bs) (rest : Bytes) :
    nextElement first ((if first then [] else [comma]) ++ (bs ++ rest)) = .ok (.more (bs ++ rest)) := by
  cases bs with
  | nil => exact h.elim
  | cons b bs =>
    obtain ⟨hblank, hclose⟩ := h
    cases first with
    | true =>
      simp only [if_true, List.nil_append, List.cons_append, nextElement,
        skipBlank_of_not_blank hblank, if_neg hclose]
    | false =>
      have hcomma : skipBlank (comma :: (b :: bs ++ rest)) = comma :: (b :: bs ++ rest) := rfl
      simp only [Bool.false_eq_true, if_false, List.cons_append, List.nil_append, nextElement]
        at hcomma ⊢
      rw [hcomma]
      simp only [skipBlank_of_not_blank hblank, if_neg hclose, if_true]
      rfl

theorem nextKey_stop (first : Bool) (rest : Bytes) :
    nextKey first (closeBrace :: rest) = .ok (.stop (closeBrace :: rest)) := rfl

theorem nextKey_more (first : Bool) (rest : Bytes) :
    nextKey first ((if first then [] else [comma]) ++ quoteMark :: rest) = .ok (.more rest) := by
  cases first with
  | true => rfl
  | false => rfl

theorem colon_colonMark (rest : Bytes) : colon (colonMark :: rest) = .ok rest := rfl

theorem printFields_cons (first : Bool) (name : String) (v : Json) (fields : List (String × Json))
    (rest : Bytes) :
    printFields first ((name, v) :: fields) ++ rest =
      (if first then [] else [comma]) ++ quoteMark ::
        (name.toList.flatMap printChar ++ quoteMark :: colonMark ::
          (v.print ++ (printFields false fields ++ rest))) := by
  rw [printFields, printText]
  simp

/-- The elements of a list are read one after the other, and then its closing bracket. -/
theorem elements_printItems {item : Reader Json} {vs : List Json}
    (h : ∀ v ∈ vs, BeginsValue v.print ∧ Takes item v.print v.arranged) {fuel : Nat}
    (hfuel : vs.length < fuel) (first : Bool) (rest : Bytes) :
    elements item fuel first (printItems first vs ++ rest) = .ok (arrangedItems vs, rest) := by
  induction vs generalizing fuel first with
  | nil =>
    obtain ⟨fuel, rfl⟩ := Nat.exists_eq_add_one_of_ne_zero (Nat.ne_of_gt hfuel)
    rw [elements, printItems, List.singleton_append, nextElement_stop]
    rfl
  | cons v vs ih =>
    obtain ⟨fuel, rfl⟩ := Nat.exists_eq_add_one_of_ne_zero (Nat.ne_of_gt (Nat.zero_lt_of_lt hfuel))
    obtain ⟨⟨hbegins, htakes⟩, hlater⟩ := List.forall_mem_cons.1 h
    rw [elements, printItems, List.append_assoc, List.append_assoc, nextElement_more first hbegins]
    have hrest := ih hlater (Nat.lt_of_succ_lt_succ hfuel) false
    simp only [bind, Except.bind, htakes _ (numberEnds_printItems vs rest), hrest]
    rfl

/-- The fields of an object are put in one after the other, until its closing brace. -/
theorem members_printFields {item : Reader Json} {fields : List (String × Json)}
    (h : ∀ f ∈ fields, Takes item f.2.print f.2.arranged) {fuel : Nat}
    (hfuel : fields.length < fuel) (first : Bool) (entries : List (String × Json)) (rest : Bytes) :
    members item entries fuel first (printFields first fields ++ rest) =
      .ok ((arrangedFields fields).foldl (fun entries e => KeyMap.insertEntry e.1 e.2 entries) entries,
        rest) := by
  induction fields generalizing fuel first entries with
  | nil =>
    obtain ⟨fuel, rfl⟩ := Nat.exists_eq_add_one_of_ne_zero (Nat.ne_of_gt hfuel)
    rw [members, printFields, List.singleton_append, nextKey_stop]
    rfl
  | cons f fields ih =>
    obtain ⟨name, v⟩ := f
    obtain ⟨fuel, rfl⟩ := Nat.exists_eq_add_one_of_ne_zero (Nat.ne_of_gt (Nat.zero_lt_of_lt hfuel))
    obtain ⟨htakes, hlater⟩ := List.forall_mem_cons.1 h
    rw [members, printFields_cons, nextKey_more]
    have hrest := ih hlater (Nat.lt_of_succ_lt_succ hfuel) false
    simp only [bind, Except.bind, readText_printed, colon_colonMark,
      htakes _ (numberEnds_printFields fields rest), hrest]
    rfl

/-! ### Any value -/

theorem Plain.beginsValue {levels : Nat} {v : Json} (h : v.Plain levels) : BeginsValue v.print := by
  cases h with
  | null => exact ⟨by decide, by decide⟩
  | bool b => cases b <;> exact ⟨by decide, by decide⟩
  | text s => exact ⟨by decide, by decide⟩
  | list h => exact ⟨by decide, by decide⟩
  | object h => exact ⟨by decide, by decide⟩
  | int hlow hhigh =>
    rename_i i
    rw [print, Number.write]
    cases i with
    | ofNat n =>
      obtain ⟨d, ds, hdigits, hd⟩ := digits_eq_cons n
      have hdigit := isDigit_digitByte hd
      rw [Int.ofNat_eq_natCast, encode_intText_ofNat, hdigits]
      exact ⟨isBlank_of_isDigit hdigit, ne_of_isDigit hdigit (by decide)⟩
    | negSucc n =>
      rw [encode_intText_negSucc]
      exact ⟨by decide, by decide⟩

/-- A value is read back by a reader that goes deeper than its levels. -/
theorem Plain.takes {levels : Nat} {v : Json} (h : v.Plain levels) :
    Takes (readValue (levels + 1)) v.print v.arranged := by
  induction h with
  | null => exact fun rest _ => rfl
  | bool b => cases b <;> exact fun rest _ => rfl
  | int hlow hhigh => exact takes_int hlow hhigh _
  | text s => exact takes_text s _
  | @list levels items h ih =>
    intro rest _
    have hfuel : items.length < (printItems true items ++ rest).length + 1 := by
      have hle := length_le_printItems items
      rw [List.length_append]
      omega
    have hitems := elements_printItems (fun v hv => ⟨(h v hv).beginsValue, ih v hv⟩) hfuel true rest
    show (elements (readValue (levels + 1)) ((printItems true items ++ rest).length + 1) true
      (printItems true items ++ rest) >>= _) = _
    rw [hitems]
    rfl
  | @object levels fields h ih =>
    intro rest _
    have hfuel : fields.length < (printFields true fields ++ rest).length + 1 := by
      have hle := length_le_printFields fields
      rw [List.length_append]
      omega
    have hfields := members_printFields ih hfuel true [] rest
    have hentries := KeyMap.entries_insertAll ∅ (arrangedFields fields)
    show (members (readValue (levels + 1)) [] ((printFields true fields ++ rest).length + 1) true
      (printFields true fields ++ rest) >>= _) = _
    rw [hfields, arranged, KeyMap.ofList, hentries]
    rfl

/-- What a reader takes off the front is a whole text if nothing follows. -/
theorem Takes.document {α : Type} {reader : Reader α} {bs : Bytes} {x : α} (h : Takes reader bs x) :
    document reader bs = .ok x := by
  have hread := h [] trivial
  rw [List.append_nil] at hread
  rw [Json.document, hread]
  rfl

theorem Plain.parse_print {v : Json} (h : v.Plain (maxDepth - 1)) : parse v.print = .ok v.arranged :=
  Takes.document h.takes

end Json

end BatchingCache
