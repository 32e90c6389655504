import BatchingCache.Proofs.Wire.Batches
/-!
# Times after which values expire

A server is told in whole milliseconds, as a number of 64 bits, how long to keep a value.  A number that
fits is sent as it is, but for zero.  One that does not fit loses what is above the 64 bits, so that a
longer time can come out as a shorter one.
-/

namespace BatchingCache.Wire

variable {ttl shorter : Duration}

/-! ## Milliseconds -/

theorem expiryMillis_pos (ttl : Duration) : 0 < expiryMillis ttl := Nat.le_max_right _ _

theorem expiryMillis_lt_size (ttl : Duration) : expiryMillis ttl < UInt64.size :=
  Nat.max_lt.2 ⟨Nat.mod_lt _ (by decide), by decide⟩

theorem expiryMillis_of_lt (h : ttl.millis < UInt64.size) : expiryMillis ttl = max 1 ttl.millis := by
  rw [expiryMillis, Nat.mod_eq_of_lt h, Nat.max_comm]

theorem expiryMillis_eq_iff : expiryMillis ttl = max 1 ttl.millis ↔ ttl.millis < UInt64.size := by
  constructor
  · intro h
    have hlt := expiryMillis_lt_size ttl
    rw [h] at hlt
    exact (Nat.max_lt.1 hlt).2
  · exact expiryMillis_of_lt

theorem expiryMillis_le_of_lt (h : shorter.nanos ≤ ttl.nanos) (hlt : ttl.millis < UInt64.size) :
    expiryMillis shorter ≤ expiryMillis ttl := by
  have hmillis : shorter.millis ≤ ttl.millis := Nat.div_le_div_right h
  rw [expiryMillis_of_lt hlt, expiryMillis_of_lt (Nat.lt_of_le_of_lt hmillis hlt)]
  omega

def longestExpiry : Duration := .ofMillis 18446744073709551615

theorem expiryMillis_longestExpiry : expiryMillis longestExpiry = UInt64.size - 1 := by
  decide +kernel

/-- No shorter time comes out longer exactly if all milliseconds are counted, or those that are left make up
the greatest number of 64 bits. -/
theorem forall_shorter_expiryMillis_le_iff :
    (∀ shorter : Duration, shorter.nanos ≤ ttl.nanos → expiryMillis shorter ≤ expiryMillis ttl) ↔
      ttl.millis < UInt64.size ∨ ttl.millis % UInt64.size = UInt64.size - 1 := by
  constructor
  · intro h
    rcases Nat.lt_or_ge ttl.millis UInt64.size with hlt | hge
    · exact .inl hlt
    · -- The time is longer than the longest that fits, which comes out as the greatest number.
      have hlonger : longestExpiry.nanos ≤ ttl.nanos := by
        have hnanos : longestExpiry.nanos = (UInt64.size - 1) * 1000000 := by decide +kernel
        have hmillis : UInt64.size ≤ ttl.nanos / 1000000 := hge
        omega
      have hgreatest := h longestExpiry hlonger
      rw [expiryMillis_longestExpiry, expiryMillis] at hgreatest
      have hmod : ttl.millis % UInt64.size < UInt64.size := Nat.mod_lt _ (by decide)
      have hsize : 1 < UInt64.size - 1 := by decide
      exact .inr (by omega)
  · rintro (hlt | hgreatest) shorter hle
    · exact expiryMillis_le_of_lt hle hlt
    · have hmost : expiryMillis ttl = UInt64.size - 1 := by
        rw [expiryMillis, hgreatest]
        decide
      have hlt := expiryMillis_lt_size shorter
      omega

/-! ## Commands -/

def expiringSet (key : String) (value : Bytes) (millis : Nat) : Command :=
  words ["SET", key] ++ value :: words ["PX", Decimal.natText millis]

/-- A value that expires is written by the same command in a call and in a batch, which names a positive
number of milliseconds.  They are the whole milliseconds of the time, or one if there are none, exactly if
these fit into 64 bits.  A shorter time is never sent as a longer one exactly if the milliseconds fit, or
if the greatest number of 64 bits is left of them. -/
theorem expiries_sent_in_order_iff (key : String) (value : Bytes) (ttl : Duration) :
    let sent := expiringSet key value (expiryMillis ttl)
    (∀ l : Link, (Store.call (.set key value (some ttl)) l).2.sent = l.sent ++ [sent]) ∧
    (∀ (before after : List Mutation) (l : Link),
      (Store.call (.batch (before ++ .set key value (some ttl) :: after)) l).2.sent =
        l.sent ++ (before.map commandOf ++ sent :: after.map commandOf)) ∧
    1 ≤ expiryMillis ttl ∧
    (expiryMillis ttl = max 1 ttl.millis ↔ ttl.millis < UInt64.size) ∧
    ((∀ shorter : Duration, shorter.nanos ≤ ttl.nanos → expiryMillis shorter ≤ expiryMillis ttl) ↔
      ttl.millis < UInt64.size ∨ ttl.millis % UInt64.size = UInt64.size - 1) := by
  intro sent
  refine ⟨sentAlike (.set key value (some ttl)), fun before after l => ?_, expiryMillis_pos ttl,
    expiryMillis_eq_iff, forall_shorter_expiryMillis_le_iff⟩
  rw [call_batch, sent_sendAll, List.map_append, List.map_cons]
  rfl

theorem microseconds_expire_before_seconds :
    let brief : Duration := ⟨10000, by decide⟩
    let ttl : Duration := .ofMillis 2000
    brief.nanos ≤ ttl.nanos ∧ expiryMillis brief = 1 ∧ expiryMillis ttl = 2000 ∧
      expiryMillis brief ≤ expiryMillis ttl := by
  intro brief ttl
  have hle : brief.nanos ≤ ttl.nanos := by decide
  have hfits : ttl.millis < UInt64.size := by decide
  obtain ⟨-, -, -, hcount, horder⟩ := expiries_sent_in_order_iff "k" [0x76] ttl
  exact ⟨hle, by decide +kernel, (hcount.2 hfits).trans (by decide), horder.2 (.inl hfits) brief hle⟩

/-- A time of more than half a thousand million years comes out as less than a second. -/
theorem longest_times_expire_first :
    let second : Duration := .ofMillis 1000
    let ages : Duration := ⟨18446744073709552 * 1000000000, by decide⟩
    second.nanos ≤ ages.nanos ∧ max 1 ages.millis = 18446744073709552000 ∧
      (Store.call (.set "k" [0x76] (some second)) ({} : Link)).2.sent = [expiringSet "k" [0x76] 1000] ∧
      (Store.call (.set "k" [0x76] (some ages)) ({} : Link)).2.sent = [expiringSet "k" [0x76] 384] ∧
      expiryMillis ages < expiryMillis second := by
  decide +kernel

end BatchingCache.Wire
