import BatchingCache.Duration
/-!
# Backoff

An operation that fails is tried again after a delay, which grows by a factor from attempt to
attempt and is capped.  The first attempt is made in any case.
-/

namespace BatchingCache

structure Backoff where
  initialDelay : Duration := .ofMillis 200
  maxDelay : Duration := .ofMillis 2000
  factor : Binary64 := .ofNat 2
  maxAttempts : Nat := 5

namespace Backoff

/-- The delay after a delay.  There is none if the product is no duration. -/
def nextDelay (b : Backoff) (delay : Duration) : Option Duration :=
  (delay.scale? b.factor).map fun d => d.min b.maxDelay

structure Trial (ε α : Type) where
  /-- The outcome of the last attempt, or `none` if a delay could not be computed. -/
  outcome : Option (Except ε α)
  /-- The delays between the attempts. -/
  delays : List Duration

variable {ε α : Type}

/-- Goes on from attempt `n` with this many more attempts after it.  The delay for the attempt
after the next is computed once its own has passed. -/
def runFrom (b : Backoff) (operation : Nat → Except ε α) :
    Nat → Nat → Duration → Trial ε α
  | 0, n, _ => ⟨some (operation n), []⟩
  | more + 1, n, delay =>
    match operation n with
    | .ok x => ⟨some (.ok x), []⟩
    | .error _ =>
      match b.nextDelay delay with
      | none => ⟨none, [delay]⟩
      | some next =>
        let t := runFrom b operation more (n + 1) next
        { t with delays := delay :: t.delays }

def run (b : Backoff) (operation : Nat → Except ε α) : Trial ε α :=
  b.runFrom operation (b.maxAttempts - 1) 1 b.initialDelay

/-- The milliseconds at which attempts begin, the first of them now, on a clock on which every
delay ends at a whole one. -/
def attemptTimes (now : Nat) : List Duration → List Nat
  | [] => [now]
  | d :: rest => now :: attemptTimes (now + (d.nanos + 999999) / 1000000) rest

end Backoff

end BatchingCache
