import BatchingCache.Backoff
import Mathlib.Algebra.Order.BigOperators.Group.List
import Mathlib.Algebra.Order.Ring.Nat
/-!
# Delays between attempts

The first delay of a run is the one that was asked for.  The cap holds for the delays that are computed
from it, which are all the others.
-/

namespace BatchingCache

theorem Duration.nanos_min_le (a b : Duration) : (a.min b).nanos ≤ b.nanos := by
  unfold Duration.min
  split
  · assumption
  · exact Nat.le_refl _

namespace Backoff

variable {ε α : Type} {b : Backoff} {operation : Nat → Except ε α}

theorem nextDelay_le {delay next : Duration} (h : b.nextDelay delay = some next) :
    next.nanos ≤ b.maxDelay.nanos := by
  obtain ⟨d, -, rfl⟩ := Option.map_eq_some_iff.1 h
  exact Duration.nanos_min_le d b.maxDelay

/-! ## Attempts -/

namespace Trial

/-- The attempts that were made.  One follows on each delay, but for a delay after which no next one
could be computed. -/
def attempts (t : Trial ε α) : Nat :=
  if t.outcome.isSome then t.delays.length + 1 else t.delays.length

def pauses (t : Trial ε α) : List Duration := t.delays.take (t.attempts - 1)

def after (delay : Duration) (t : Trial ε α) : Trial ε α := { t with delays := delay :: t.delays }

theorem attempts_after (delay : Duration) (t : Trial ε α) :
    (t.after delay).attempts = t.attempts + 1 := by
  unfold attempts after
  split
  · rfl
  · rfl

theorem length_pauses (t : Trial ε α) : t.pauses.length = t.attempts - 1 := by
  apply List.length_take_of_le
  unfold attempts
  split
  · exact Nat.le_refl _
  · exact Nat.sub_le _ _

end Trial

/-- An attempt succeeds, or it fails and is the last one for want of a next delay, or it fails and is
followed by a delay and further attempts. -/
theorem runFrom_succ_cases (b : Backoff) (operation : Nat → Except ε α) (more n : Nat)
    (delay : Duration) :
    (∃ x, operation n = .ok x ∧ b.runFrom operation (more + 1) n delay = ⟨some (.ok x), []⟩) ∨
    (∃ e, operation n = .error e ∧ b.nextDelay delay = none ∧
      b.runFrom operation (more + 1) n delay = ⟨none, [delay]⟩) ∨
    ∃ e next, operation n = .error e ∧ b.nextDelay delay = some next ∧
      b.runFrom operation (more + 1) n delay = (b.runFrom operation more (n + 1) next).after delay := by
  rw [runFrom]
  cases hoperation : operation n with
  | ok x => exact .inl ⟨x, rfl, rfl⟩
  | error e =>
    cases hnext : b.nextDelay delay with
    | none => exact .inr (.inl ⟨e, rfl, rfl, rfl⟩)
    | some next => exact .inr (.inr ⟨e, next, rfl, rfl, rfl⟩)

/-- What is known of the attempts of a run that begins with attempt `n`: all but the last one failed, and
the last one gave the outcome, or failed too. -/
structure Attempted (operation : Nat → Except ε α) (n : Nat) (t : Trial ε α) : Prop where
  failed : ∀ i, i + 1 < t.attempts → ∃ e, operation (n + i) = .error e
  last : ∃ i, t.attempts = i + 1 ∧ (t.outcome = some (operation (n + i)) ∨
    t.outcome = none ∧ ∃ e, operation (n + i) = .error e)

theorem attempted_once {n : Nat} {t : Trial ε α} (h : t.attempts = 1)
    (hlast : t.outcome = some (operation n) ∨ t.outcome = none ∧ ∃ e, operation n = .error e) :
    Attempted operation n t := by
  refine ⟨fun i hi => ?_, 0, h, hlast⟩
  rw [h] at hi
  exact absurd (Nat.lt_of_succ_lt_succ hi) (Nat.not_lt_zero i)

theorem Attempted.after {n : Nat} {t : Trial ε α} (h : Attempted operation (n + 1) t) {e : ε}
    (he : operation n = .error e) (delay : Duration) : Attempted operation n (t.after delay) := by
  obtain ⟨hfailed, last, hlast, houtcome⟩ := h
  refine ⟨fun i hi => ?_, last + 1, ?_, ?_⟩
  · rw [Trial.attempts_after] at hi
    cases i with
    | zero => exact ⟨e, he⟩
    | succ i =>
      rw [← Nat.succ_add_eq_add_succ]
      exact hfailed i (Nat.lt_of_succ_lt_succ hi)
  · rw [Trial.attempts_after, hlast]
  · rw [← Nat.succ_add_eq_add_succ]
    exact houtcome

theorem attempted_runFrom (b : Backoff) (operation : Nat → Except ε α) (more n : Nat)
    (delay : Duration) : Attempted operation n (b.runFrom operation more n delay) := by
  induction more generalizing n delay with
  | zero => exact attempted_once rfl (.inl rfl)
  | succ more ih =>
    rcases runFrom_succ_cases b operation more n delay with
      ⟨x, hx, hrun⟩ | ⟨e, he, -, hrun⟩ | ⟨e, next, he, -, hrun⟩
    · rw [hrun]
      exact attempted_once rfl (.inl (congrArg some hx.symm))
    · rw [hrun]
      exact attempted_once rfl (.inr ⟨rfl, e, he⟩)
    · rw [hrun]
      exact (ih (n + 1) next).after he delay

/-! ## Delays -/

def CappedAfter (b : Backoff) (first : Duration) (delays : List Duration) : Prop :=
  delays = [] ∨ ∃ rest, delays = first :: rest ∧ ∀ d ∈ rest, d.nanos ≤ b.maxDelay.nanos

namespace CappedAfter

variable {first : Duration} {delays : List Duration}

theorem take (h : b.CappedAfter first delays) (n : Nat) : b.CappedAfter first (delays.take n) := by
  rcases h with rfl | ⟨rest, rfl, hrest⟩
  · exact .inl List.take_nil
  · cases n with
    | zero => exact .inl rfl
    | succ n => exact .inr ⟨rest.take n, rfl, fun d hd => hrest d (List.mem_of_mem_take hd)⟩

theorem forall_le (h : b.CappedAfter first delays) (hfirst : first.nanos ≤ b.maxDelay.nanos) :
    ∀ d ∈ delays, d.nanos ≤ b.maxDelay.nanos := by
  rcases h with rfl | ⟨rest, rfl, hrest⟩
  · nofun
  · exact List.forall_mem_cons.2 ⟨hfirst, hrest⟩

theorem forall_le_iff (h : b.CappedAfter first delays) :
    (∀ d ∈ delays, d.nanos ≤ b.maxDelay.nanos) ↔
      delays = [] ∨ first.nanos ≤ b.maxDelay.nanos := by
  constructor
  · intro hle
    rcases h with rfl | ⟨rest, rfl, -⟩
    · exact .inl rfl
    · exact .inr (hle first List.mem_cons_self)
  · rintro (rfl | hfirst)
    · nofun
    · exact h.forall_le hfirst

end CappedAfter

theorem sum_nanos_le {bound : Nat} {delays : List Duration} (h : ∀ d ∈ delays, d.nanos ≤ bound) :
    (delays.map Duration.nanos).sum ≤ delays.length * bound := by
  have hle : ∀ n ∈ delays.map Duration.nanos, n ≤ bound := List.forall_mem_map.2 h
  simpa using List.sum_le_card_nsmul _ bound hle

theorem CappedAfter.sum_le {first : Duration} {delays : List Duration}
    (h : b.CappedAfter first delays) :
    (delays.map Duration.nanos).sum ≤ first.nanos + (delays.length - 1) * b.maxDelay.nanos := by
  rcases h with rfl | ⟨rest, rfl, hrest⟩
  · exact Nat.zero_le _
  · exact Nat.add_le_add_left (sum_nanos_le hrest) first.nanos

theorem cappedAfter_runFrom (b : Backoff) (operation : Nat → Except ε α) (more n : Nat)
    (delay : Duration) : b.CappedAfter delay (b.runFrom operation more n delay).delays := by
  induction more generalizing n delay with
  | zero => exact .inl rfl
  | succ more ih =>
    rcases runFrom_succ_cases b operation more n delay with
      ⟨x, -, hrun⟩ | ⟨e, -, -, hrun⟩ | ⟨e, next, -, hnext, hrun⟩
    · rw [hrun]
      exact .inl rfl
    · rw [hrun]
      exact .inr ⟨[], rfl, nofun⟩
    · rw [hrun]
      -- What the rest of the run begins with was computed, so none of its delays is above the cap.
      exact .inr ⟨_, rfl, (ih (n + 1) next).forall_le (nextDelay_le hnext)⟩

/-! ## Runs -/

/-- The first delay of a run is the initial one and the others are capped.  So all delays that were
followed by an attempt are within the cap exactly if there was no second attempt or the initial delay is
within the cap, and then they take no longer than the cap for each of them. -/
theorem delays_capped_iff (b : Backoff) (operation : Nat → Except ε α) :
    let t := b.run operation
    (∀ n, 0 < n → n < t.attempts → ∃ e, operation n = .error e) ∧
    (t.outcome = some (operation t.attempts) ∨
      t.outcome = none ∧ ∃ e, operation t.attempts = .error e) ∧
    t.pauses.length = t.attempts - 1 ∧
    b.CappedAfter b.initialDelay t.delays ∧
    ((∀ d ∈ t.pauses, d.nanos ≤ b.maxDelay.nanos) ↔
      t.attempts = 1 ∨ b.initialDelay.nanos ≤ b.maxDelay.nanos) ∧
    (t.pauses.map Duration.nanos).sum ≤
      b.initialDelay.nanos + (t.attempts - 2) * b.maxDelay.nanos ∧
    (b.initialDelay.nanos ≤ b.maxDelay.nanos →
      (t.pauses.map Duration.nanos).sum ≤ (t.attempts - 1) * b.maxDelay.nanos) := by
  intro t
  obtain ⟨hfailed, last, hlast, houtcome⟩ : Attempted operation 1 t :=
    attempted_runFrom b operation (b.maxAttempts - 1) 1 b.initialDelay
  have hcapped : b.CappedAfter b.initialDelay t.delays :=
    cappedAfter_runFrom b operation (b.maxAttempts - 1) 1 b.initialDelay
  have hpauses : b.CappedAfter b.initialDelay t.pauses := hcapped.take _
  have hlength := t.length_pauses
  have hnone : t.pauses = [] ↔ t.attempts = 1 := by
    rw [← List.length_eq_zero_iff, hlength, hlast]
    omega
  refine ⟨fun n hpos hn => ?_, ?_, hlength, hcapped, ?_, ?_, fun hinitial => ?_⟩
  · obtain ⟨i, rfl⟩ := Nat.exists_eq_add_of_le hpos
    exact hfailed i (Nat.add_comm i 1 ▸ hn)
  · rw [hlast, Nat.add_comm]
    exact houtcome
  · rw [hpauses.forall_le_iff, hnone]
  · have hsum := hpauses.sum_le
    rwa [hlength, Nat.sub_sub] at hsum
  · rw [← hlength]
    exact sum_nanos_le (hpauses.forall_le hinitial)

theorem doubled_delay_capped :
    let b : Backoff := ⟨.ofMillis 800, .ofMillis 1000, .ofNat 2, 3⟩
    let t := b.run fun n => if n < 3 then Except.error n else .ok n
    b.initialDelay.nanos ≤ b.maxDelay.nanos ∧ t.pauses = [.ofMillis 800, .ofMillis 1000] ∧
      (t.pauses.map Duration.nanos).sum ≤ 2 * b.maxDelay.nanos := by
  intro b t
  have hinitial : b.initialDelay.nanos ≤ b.maxDelay.nanos := by decide
  have hpauses : t.pauses = [.ofMillis 800, .ofMillis 1000] := by decide +kernel
  have hattempts : t.attempts = 3 := by decide +kernel
  obtain ⟨-, -, -, -, -, -, hsum⟩ :=
    delays_capped_iff b fun n => if n < 3 then Except.error n else Except.ok n
  have hle := hsum hinitial
  rw [show (b.run _).attempts = 3 from hattempts] at hle
  exact ⟨hinitial, hpauses, hle⟩

/-- An initial delay above the cap is waited for in full, before the second attempt. -/
theorem initial_delay_exceeds_cap :
    let b : Backoff := ⟨.ofMillis 5000, .ofMillis 1000, .ofNat 2, 3⟩
    let t := b.run fun n => if n < 3 then Except.error n else .ok n
    t.attempts = 3 ∧ t.pauses = [.ofMillis 5000, .ofMillis 1000] ∧
      b.maxDelay.nanos < (Duration.ofMillis 5000).nanos ∧
      (t.attempts - 1) * b.maxDelay.nanos < (t.pauses.map Duration.nanos).sum := by
  decide +kernel

end Backoff

end BatchingCache
