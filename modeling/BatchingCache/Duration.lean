import BatchingCache.Number.Binary64
/-!
# Durations

A length of time in whole nanoseconds, with fewer than `2^64` whole seconds.
-/

namespace BatchingCache

structure Duration where
  nanos : Nat
  nanos_lt : nanos < UInt64.size * 1000000000
  deriving DecidableEq, Repr

namespace Duration

def ofMillis (ms : UInt64) : Duration where
  nanos := ms.toNat * 1000000
  nanos_lt := by
    have := ms.toNat_lt_size
    omega

def millis (d : Duration) : Nat := d.nanos / 1000000

def min (a b : Duration) : Duration := if a.nanos ≤ b.nanos then a else b

/-- The number of seconds: the whole ones and the fraction, each rounded, added up. -/
def seconds (d : Duration) : Binary64 :=
  Binary64.ofNat (d.nanos / 1000000000) +
    Binary64.ofNat (d.nanos % 1000000000) / Binary64.ofNat 1000000000

/-- The duration of this many seconds, to the nearest nanosecond.  There is none for a number
below zero, for one of `2^64` and more, and for no number. -/
def ofSeconds? (x : Binary64) : Option Duration :=
  if x.isFinite && (x.isZero || !x.isNegative) then
    let nanos := Binary64.roundDiv (x.scaled * 1000000000) (1 <<< 1074)
    if h : nanos < UInt64.size * 1000000000 then some ⟨nanos, h⟩ else none
  else none

def scale? (d : Duration) (factor : Binary64) : Option Duration :=
  ofSeconds? (factor * d.seconds)

end Duration

end BatchingCache
