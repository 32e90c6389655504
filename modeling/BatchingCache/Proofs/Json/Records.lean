import BatchingCache.Entity
import BatchingCache.Proofs.Json.Values
/-!
# Records in JSON

A record that was written as an object is read back, field by field.  Each field is found by its name,
has not been read before, and its reader takes what was written of it.
-/

namespace BatchingCache

namespace Json

/-! ## Fields -/

theorem takes_textField (s : String) : Takes textField (Json.text s).print s := by
  intro rest _
  have hprint : (Json.text s).print ++ rest =
      quoteMark :: (s.toList.flatMap printChar ++ quoteMark :: rest) := by
    rw [print, printText]
    simp
  rw [hprint]
  exact readText_printed s rest

theorem numberField_of_digit {b : UInt8} (h : isDigit b = true) (expected : String) (bs : Bytes) :
    numberField expected (b :: bs) = readNumber false (b :: bs) := by
  simp only [numberField, skipBlank_of_not_blank (isBlank_of_isDigit h),
    if_neg (ne_of_isDigit h (show isDigit minusSign = false by decide)), if_pos h]

theorem numberField_of_minus (expected : String) (bs : Bytes) :
    numberField expected (minusSign :: bs) = readNumber true bs := rfl

theorem takes_natField {n bound : Nat} (hn : n < bound) (hbound : bound ≤ UInt64.size)
    (expected : String) : Takes (natField expected bound) (Json.int n).print n := by
  intro rest hrest
  obtain ⟨d, ds, hdigits, hd⟩ := digits_eq_cons n
  have hread := readNumber_digits (Nat.lt_of_lt_of_le hn hbound) hrest false
  have hrange : 0 ≤ (n : Int) ∧ (n : Int) < bound := by omega
  rw [print, Number.write, encode_intText_ofNat, natField]
  rw [hdigits, List.map_cons, List.cons_append] at hread ⊢
  rw [numberField_of_digit (isDigit_digitByte hd), hread]
  simp only [bind, Except.bind, wholeNumber, Bool.false_eq_true, if_false, if_pos hrange,
    Int.toNat_natCast]
  rfl

theorem takes_field {P α : Type} {name : String} {get : P → Option α} {set : P → α → P}
    {reader : Reader α} {bs : Bytes} {x : α} (h : Takes reader bs x) (p : P) :
    Takes ((Field.of name get set reader).read p) bs (set p x) := by
  intro rest hrest
  show (reader (bs ++ rest) >>= _) = _
  rw [h rest hrest]
  rfl

/-! ## Objects -/

namespace Record

variable {P R : Type} {fields : List (Field P)}

/-- From `p`, the readers of fields that were written one after the other collect this. -/
inductive Collects (fields : List (Field P)) : P → List (String × Json) → P → Prop where
  | nil {p : P} : Collects fields p [] p
  | cons {p p' q : P} {name : String} {v : Json} {f : Field P} {written : List (String × Json)}
      (hfind : (fields.find? fun f => f.name = name) = some f) (hset : f.isSet p = false)
      (hread : Takes (f.read p) v.print p') (hrest : Collects fields p' written q) :
      Collects fields p ((name, v) :: written) q

theorem Collects.collectObject {p q : P} {written : List (String × Json)}
    (h : Collects fields p written q) {fuel : Nat} (hfuel : written.length < fuel) (first : Bool)
    (rest : Bytes) :
    collectObject fields fuel first p (printFields first written ++ rest) =
      .ok (q, closeBrace :: rest) := by
  induction h generalizing fuel first with
  | nil =>
    obtain ⟨fuel, rfl⟩ := Nat.exists_eq_add_one_of_ne_zero (Nat.ne_of_gt hfuel)
    rw [Record.collectObject, printFields, List.singleton_append, nextKey_stop]
    rfl
  | @cons p p' q name v f written hfind hset hread hrest ih =>
    obtain ⟨fuel, rfl⟩ := Nat.exists_eq_add_one_of_ne_zero (Nat.ne_of_gt (Nat.zero_lt_of_lt hfuel))
    have hlater := ih (Nat.lt_of_succ_lt_succ hfuel) false
    rw [Record.collectObject, printFields_cons, nextKey_more]
    simp only [bind, Except.bind, readText_printed, hfind, hset, Bool.false_eq_true, if_false,
      colon_colonMark, hread _ (numberEnds_printFields written rest), hlater]

/-- A field whose reader fails ends it, whatever comes after. -/
theorem Collects.collectObject_error {p q : P} {written : List (String × Json)}
    (h : Collects fields p written q) {name : String} {v : Json} {f : Field P}
    (hfind : (fields.find? fun f => f.name = name) = some f) (hset : f.isSet q = false)
    (hread : ∀ rest, ∃ e, f.read q (v.print ++ rest) = .error e) (more : List (String × Json))
    {fuel : Nat} (hfuel : written.length < fuel) (first : Bool) (rest : Bytes) :
    ∃ e, Record.collectObject fields fuel first p
      (printFields first (written ++ (name, v) :: more) ++ rest) = .error e := by
  induction h generalizing fuel first with
  | nil =>
    obtain ⟨fuel, rfl⟩ := Nat.exists_eq_add_one_of_ne_zero (Nat.ne_of_gt hfuel)
    obtain ⟨e, he⟩ := hread (printFields false more ++ rest)
    refine ⟨e, ?_⟩
    rw [List.nil_append, Record.collectObject, printFields_cons, nextKey_more]
    simp only [bind, Except.bind, readText_printed, hfind, hset, Bool.false_eq_true, if_false,
      colon_colonMark, he]
  | @cons p p' q name' v' f' written hfind' hset' hread' hrest ih =>
    obtain ⟨fuel, rfl⟩ := Nat.exists_eq_add_one_of_ne_zero (Nat.ne_of_gt (Nat.zero_lt_of_lt hfuel))
    obtain ⟨e, he⟩ := ih hset hread (Nat.lt_of_succ_lt_succ hfuel) false
    refine ⟨e, ?_⟩
    have htakes := hread' _ (numberEnds_printFields (written ++ (name, v) :: more) rest)
    rw [List.cons_append, Record.collectObject, printFields_cons, nextKey_more]
    simp only [bind, Except.bind, readText_printed, hfind', hset', Bool.false_eq_true, if_false,
      colon_colonMark, htakes, he]

theorem takes_object {r : Record P R} {written : List (String × Json)} {p : P} {x : R}
    (h : Collects r.fields r.blank written p) (hbuild : r.build p = .ok x) :
    Takes r.read (Json.object written).print x := by
  intro rest _
  have hfuel : written.length < (printFields true written ++ rest).length + 1 := by
    have hle := length_le_printFields written
    rw [List.length_append]
    omega
  have hcollect := h.collectObject hfuel true rest
  show (collectObject r.fields ((printFields true written ++ rest).length + 1) true
    r.blank (printFields true written ++ rest) >>= _) = _
  rw [hcollect]
  simp only [bind, Except.bind, hbuild]
  rfl

theorem parse_error {r : Record P R} {written : List (String × Json)} {p : P}
    (h : Collects r.fields r.blank written p) {name : String} {v : Json} {f : Field P}
    (hfind : (r.fields.find? fun f => f.name = name) = some f) (hset : f.isSet p = false)
    (hread : ∀ rest, ∃ e, f.read p (v.print ++ rest) = .error e) (more : List (String × Json)) :
    ∃ e, r.parse (Json.object (written ++ (name, v) :: more)).print = .error e := by
  have hfuel : written.length < (printFields true (written ++ (name, v) :: more)).length + 1 := by
    have hle := length_le_printFields (written ++ (name, v) :: more)
    rw [List.length_append] at hle
    omega
  obtain ⟨e, he⟩ := h.collectObject_error hfind hset hread more hfuel true []
  rw [List.append_nil] at he
  refine ⟨e, ?_⟩
  show ((collectObject r.fields ((printFields true (written ++ (name, v) :: more)).length + 1) true
    r.blank (printFields true (written ++ (name, v) :: more)) >>= _) >>= _) = _
  rw [he]
  rfl

end Record

end Json

/-! ## Vehicles -/

namespace Vehicle

open Json

theorem takes_record (v : Vehicle) : Takes record.read v.toJson.print v := by
  have hspeed : v.speed.toNat < UInt32.size := v.speed.toNat_lt_size
  have hcollects : Record.Collects record.fields {} [("vin", .text v.vin), ("speed", .int v.speed.toNat)]
      { vin := some v.vin, speed := some v.speed.toNat } := by
    apply Record.Collects.cons rfl rfl (takes_field (takes_textField v.vin) _)
    apply Record.Collects.cons rfl rfl (takes_field (takes_natField hspeed (by decide) "u32") _)
    exact Record.Collects.nil
  have hbuild : record.build { vin := some v.vin, speed := some v.speed.toNat } = .ok v := by
    show Except.ok (⟨v.vin, UInt32.ofNat v.speed.toNat⟩ : Vehicle) = .ok v
    rw [UInt32.ofNat_toNat]
  exact Record.takes_object hcollects hbuild

theorem parse_print (v : Vehicle) : record.parse v.toJson.print = .ok v :=
  (takes_record v).document

end Vehicle

end BatchingCache
