import BatchingCache.Proofs.Backoff
import Mathlib.Data.Nat.Find
import Mathlib.Order.Bounds.Basic
/-!
# Attempts and the pauses between them

The loop of attempts has no bound of its own: it looks at the number of the attempt when that has failed.
It comes to an end with the first attempt that succeeds or is the last one allowed, and waits once between
any two attempts.
-/

namespace BatchingCache.Backoff

variable {ε α : Type} {b : Backoff} {operation : Nat → Except ε α}

/-! ## The loop -/

inductive Act where
  | attempt (n : Nat)
  | pause (delay : Duration)
  deriving DecidableEq, Repr

/-- The loop from attempt `n` on, when `delay` is the next delay: what is done, and what it comes to.
Attempts are counted up and never down from a bound. -/
inductive Loop (b : Backoff) (operation : Nat → Except ε α) :
    Nat → Duration → List Act → Option (Except ε α) → Prop
  | succeeds {n : Nat} {delay : Duration} {x : α} (h : operation n = .ok x) :
      Loop b operation n delay [.attempt n] (some (.ok x))
  | givesUp {n : Nat} {delay : Duration} {e : ε} (h : operation n = .error e)
      (hlast : b.maxAttempts ≤ n) : Loop b operation n delay [.attempt n] (some (.error e))
  | breaksOff {n : Nat} {delay : Duration} {e : ε} (h : operation n = .error e)
      (hlast : n < b.maxAttempts) (hnext : b.nextDelay delay = none) :
      Loop b operation n delay [.attempt n, .pause delay] none
  | goesOn {n : Nat} {delay next : Duration} {e : ε} {acts : List Act}
      {outcome : Option (Except ε α)} (h : operation n = .error e) (hlast : n < b.maxAttempts)
      (hnext : b.nextDelay delay = some next) (hrest : Loop b operation (n + 1) next acts outcome) :
      Loop b operation n delay (.attempt n :: .pause delay :: acts) outcome

def actsFrom : Nat → List Duration → List Act
  | n, [] => [.attempt n]
  | n, d :: rest => .attempt n :: .pause d :: actsFrom (n + 1) rest

/-- What is done in a trial that begins with attempt `n`.  No attempt follows on a delay after which no
next one could be computed. -/
def Trial.acts (n : Nat) (t : Trial ε α) : List Act :=
  if t.outcome.isSome then actsFrom n t.delays else (actsFrom n t.delays).dropLast

theorem actsFrom_ne_nil (n : Nat) (delays : List Duration) : actsFrom n delays ≠ [] := by
  cases delays with
  | nil => exact List.cons_ne_nil _ _
  | cons d rest => exact List.cons_ne_nil _ _

theorem Trial.acts_after (n : Nat) (delay : Duration) (t : Trial ε α) :
    (t.after delay).acts n = .attempt n :: .pause delay :: t.acts (n + 1) := by
  unfold Trial.acts Trial.after
  dsimp only
  split
  · rfl
  · rw [actsFrom, List.dropLast_cons_of_ne_nil (List.cons_ne_nil _ _),
      List.dropLast_cons_of_ne_nil (actsFrom_ne_nil _ _)]

/-- The attempts that are left are those up to the greatest number, so the loop finds its own end where
they run out. -/
theorem loop_runFrom {more n : Nat} (hmore : b.maxAttempts - n = more) (delay : Duration) :
    b.Loop operation n delay ((b.runFrom operation more n delay).acts n)
      (b.runFrom operation more n delay).outcome := by
  induction more generalizing n delay with
  | zero =>
    show b.Loop operation n delay [.attempt n] (some (operation n))
    cases h : operation n with
    | ok x => exact .succeeds h
    | error e => exact .givesUp h (Nat.sub_eq_zero_iff_le.1 hmore)
  | succ more ih =>
    have hlast : n < b.maxAttempts := by omega
    rcases runFrom_succ_cases b operation more n delay with
      ⟨x, h, hrun⟩ | ⟨e, h, hnext, hrun⟩ | ⟨e, next, h, hnext, hrun⟩
    · rw [hrun]
      exact .succeeds h
    · rw [hrun]
      exact .breaksOff h hlast hnext
    · rw [hrun, Trial.acts_after]
      exact .goesOn h hlast hnext (ih (by omega) next)

theorem Loop.unique {n : Nat} {delay : Duration} {acts acts' : List Act}
    {outcome outcome' : Option (Except ε α)} (h : b.Loop operation n delay acts outcome)
    (h' : b.Loop operation n delay acts' outcome') : acts = acts' ∧ outcome = outcome' := by
  induction h generalizing acts' with
  | succeeds h =>
    cases h' with
    | succeeds hx => exact ⟨rfl, congrArg some (h.symm.trans hx)⟩
    | givesUp he | breaksOff he | goesOn he => cases h.symm.trans he
  | givesUp h hlast =>
    cases h' with
    | succeeds hx => cases h.symm.trans hx
    | givesUp he => exact ⟨rfl, congrArg some (h.symm.trans he)⟩
    | breaksOff _ hmore | goesOn _ hmore => exact absurd hlast (Nat.not_le.2 hmore)
  | breaksOff h hlast hnext =>
    cases h' with
    | succeeds hx => cases h.symm.trans hx
    | givesUp _ hmost => exact absurd hmost (Nat.not_le.2 hlast)
    | breaksOff => exact ⟨rfl, rfl⟩
    | goesOn _ _ hsome => cases hnext.symm.trans hsome
  | goesOn h hlast hnext _ ih =>
    cases h' with
    | succeeds hx => cases h.symm.trans hx
    | givesUp _ hmost => exact absurd hmost (Nat.not_le.2 hlast)
    | breaksOff _ _ hnone => cases hnext.symm.trans hnone
    | goesOn _ _ hsome hrest =>
      cases hnext.symm.trans hsome
      obtain ⟨rfl, houtcome⟩ := ih hrest
      exact ⟨rfl, houtcome⟩

theorem loop_iff_run {acts : List Act} {outcome : Option (Except ε α)} :
    b.Loop operation 1 b.initialDelay acts outcome ↔
      acts = (b.run operation).acts 1 ∧ outcome = (b.run operation).outcome := by
  have hrun : b.Loop operation 1 b.initialDelay ((b.run operation).acts 1) (b.run operation).outcome :=
    loop_runFrom rfl b.initialDelay
  constructor
  · intro h
    exact h.unique hrun
  · rintro ⟨rfl, rfl⟩
    exact hrun

/-! ## Delays -/

/-- The delay that follows this many delays after the first one, each computed from the one before.
There is none from where one cannot be computed. -/
def delayAfter? (b : Backoff) (first : Duration) : Nat → Option Duration
  | 0 => some first
  | k + 1 => (b.delayAfter? first k).bind b.nextDelay

theorem delayAfter?_succ {first next : Duration} (h : b.nextDelay first = some next) (k : Nat) :
    b.delayAfter? first (k + 1) = b.delayAfter? next k := by
  induction k with
  | zero => exact h
  | succ k ih => rw [delayAfter?, ih, delayAfter?]

def Computes (b : Backoff) (first : Duration) (count : Nat) : Prop :=
  ∀ k ≤ count, (b.delayAfter? first k).isSome

theorem computes_succ_iff {first next : Duration} (h : b.nextDelay first = some next) (count : Nat) :
    b.Computes first (count + 1) ↔ b.Computes next count := by
  unfold Computes
  constructor
  · intro hall k hk
    rw [← delayAfter?_succ h]
    exact hall (k + 1) (Nat.succ_le_succ hk)
  · intro hall k hk
    cases k with
    | zero => rfl
    | succ k =>
      rw [delayAfter?_succ h]
      exact hall k (Nat.le_of_succ_le_succ hk)

theorem not_computes_succ {first : Duration} (h : b.nextDelay first = none) (count : Nat) :
    ¬ b.Computes first (count + 1) := by
  intro hall
  have hone : (b.nextDelay first).isSome := hall 1 (Nat.succ_le_succ (Nat.zero_le count))
  rw [h] at hone
  cases hone

theorem map_delayAfter?_range_succ {first next : Duration} (h : b.nextDelay first = some next)
    (count : Nat) :
    (List.range (count + 1)).map (b.delayAfter? first) =
      some first :: (List.range count).map (b.delayAfter? next) := by
  rw [List.range_succ_eq_map, List.map_cons, List.map_map]
  congr 1
  exact List.map_congr_left fun k _ => delayAfter?_succ h k

/-! ## The last attempt -/

theorem runFrom_of_ok {n : Nat} {x : α} (h : operation n = .ok x) (more : Nat) (delay : Duration) :
    b.runFrom operation more n delay = ⟨some (.ok x), []⟩ := by
  cases more with
  | zero => rw [runFrom, h]
  | succ more => rw [runFrom, h]

structure EndsAfter (operation : Nat → Except ε α) (n more i : Nat) : Prop where
  le : i ≤ more
  failed : ∀ j < i, ∃ e, operation (n + j) = .error e
  last : i = more ∨ ∃ x, operation (n + i) = .ok x

theorem EndsAfter.of_succ {n more i : Nat} (h : EndsAfter operation n (more + 1) (i + 1)) :
    EndsAfter operation (n + 1) more i := by
  refine ⟨Nat.le_of_succ_le_succ h.le, fun j hj => ?_, ?_⟩
  · rw [Nat.succ_add_eq_add_succ]
    exact h.failed (j + 1) (Nat.succ_lt_succ hj)
  · rw [Nat.succ_add_eq_add_succ]
    exact h.last.imp_left Nat.succ.inj

/-- The first attempt of a run fails if another one ends it.  Either the run waits and goes on from the
next attempt, or no next delay can be computed. -/
theorem EndsAfter.succ_cases {n more i : Nat} (h : EndsAfter operation n (more + 1) (i + 1))
    (b : Backoff) (delay : Duration) :
    (b.nextDelay delay = none ∧ b.runFrom operation (more + 1) n delay = ⟨none, [delay]⟩) ∨
    ∃ next, b.nextDelay delay = some next ∧
      b.runFrom operation (more + 1) n delay = (b.runFrom operation more (n + 1) next).after delay := by
  obtain ⟨e, he⟩ := h.failed 0 (Nat.zero_lt_succ i)
  rcases runFrom_succ_cases b operation more n delay with
    ⟨x, hx, -⟩ | ⟨-, -, hnext, hrun⟩ | ⟨-, next, -, hnext, hrun⟩
  · cases he.symm.trans hx
  · exact .inl ⟨hnext, hrun⟩
  · exact .inr ⟨next, hnext, hrun⟩

theorem runFrom_of_computes {n more i : Nat} (h : EndsAfter operation n more i) {delay : Duration}
    (hdelays : b.Computes delay i) :
    ∃ delays, delays.map some = (List.range i).map (b.delayAfter? delay) ∧
      b.runFrom operation more n delay = ⟨some (operation (n + i)), delays⟩ := by
  induction i generalizing n more delay with
  | zero =>
    refine ⟨[], rfl, ?_⟩
    rcases h.last with rfl | ⟨x, hx⟩
    · rfl
    · rw [Nat.add_zero] at hx ⊢
      rw [runFrom_of_ok hx, hx]
  | succ i ih =>
    obtain ⟨more, rfl⟩ := Nat.exists_eq_add_of_le' (Nat.lt_of_lt_of_le (Nat.zero_lt_succ i) h.le)
    rcases h.succ_cases b delay with ⟨hnext, -⟩ | ⟨next, hnext, hrun⟩
    · exact absurd hdelays (not_computes_succ hnext i)
    · obtain ⟨delays, hmap, hrest⟩ := ih h.of_succ ((computes_succ_iff hnext i).1 hdelays)
      refine ⟨delay :: delays, ?_, ?_⟩
      · rw [map_delayAfter?_range_succ hnext, List.map_cons, hmap]
      · rw [hrun, hrest, Nat.succ_add_eq_add_succ]
        rfl

theorem runFrom_of_not_computes {n more i : Nat} (h : EndsAfter operation n more i)
    {delay : Duration} (hdelays : ¬ b.Computes delay i) :
    (b.runFrom operation more n delay).outcome = none := by
  induction i generalizing n more delay with
  | zero =>
    refine absurd (fun k hk => ?_) hdelays
    rw [Nat.le_zero.1 hk]
    rfl
  | succ i ih =>
    obtain ⟨more, rfl⟩ := Nat.exists_eq_add_of_le' (Nat.lt_of_lt_of_le (Nat.zero_lt_succ i) h.le)
    rcases h.succ_cases b delay with ⟨-, hrun⟩ | ⟨next, hnext, hrun⟩
    · rw [hrun]
    · rw [hrun]
      exact ih h.of_succ (mt (computes_succ_iff hnext i).2 hdelays)

/-! ## Runs -/

def endings (b : Backoff) (operation : Nat → Except ε α) : Set Nat :=
  {n | 0 < n ∧ ((∃ x, operation n = .ok x) ∨ n = max 1 b.maxAttempts)}

theorem exists_isLeast_endings (b : Backoff) (operation : Nat → Except ε α) :
    ∃ a, IsLeast (b.endings operation) a := by
  classical
  have hsome : ∃ n, n ∈ b.endings operation := ⟨max 1 b.maxAttempts, by omega, .inr rfl⟩
  exact ⟨Nat.find hsome, Nat.find_spec hsome, fun n hn => Nat.find_min' hsome hn⟩

theorem endsAfter_of_isLeast {a : Nat} (h : IsLeast (b.endings operation) a) :
    EndsAfter operation 1 (b.maxAttempts - 1) (a - 1) := by
  obtain ⟨⟨hpos, hends⟩, hleast⟩ := h
  have hle : a ≤ max 1 b.maxAttempts := hleast ⟨by omega, .inr rfl⟩
  have hplace : 1 + (a - 1) = a := by omega
  refine ⟨by omega, fun j hj => ?_, ?_⟩
  · cases hoperation : operation (1 + j) with
    | error e => exact ⟨e, rfl⟩
    | ok x =>
      have hbefore : a ≤ 1 + j := hleast ⟨by omega, .inl ⟨x, hoperation⟩⟩
      omega
  · rw [hplace]
    rcases hends with hx | hlast
    · exact .inr hx
    · exact .inl (by omega)

theorem computes_pred_iff {a : Nat} (hpos : 0 < a) (first : Duration) :
    b.Computes first (a - 1) ↔ ∀ k < a, (b.delayAfter? first k).isSome := by
  unfold Computes
  constructor
  · exact fun h k hk => h k (by omega)
  · exact fun h k hk => h k (by omega)

/-- The loop ends in one way, which is what a run is.  Its last attempt is the first one that succeeds or
is the last one allowed.  If all delays before the last attempt can be computed, this attempt gives the
outcome, whatever it is, and between any two attempts there is one pause: the first for the initial delay,
and each further one for what is computed from the delay before.  Otherwise there is no outcome. -/
theorem attempts_with_pauses_between (b : Backoff) (operation : Nat → Except ε α) :
    let t := b.run operation
    let delay := b.delayAfter? b.initialDelay
    (∀ acts outcome, b.Loop operation 1 b.initialDelay acts outcome ↔
      acts = t.acts 1 ∧ outcome = t.outcome) ∧
    ∃ a, IsLeast (b.endings operation) a ∧
      (t.outcome.isSome ↔ ∀ k < a, (delay k).isSome) ∧
      ((∀ k < a, (delay k).isSome) →
        ∃ delays, delays.map some = (List.range (a - 1)).map delay ∧
          t = ⟨some (operation a), delays⟩ ∧ t.acts 1 = actsFrom 1 delays) := by
  intro t delay
  obtain ⟨a, ha⟩ := exists_isLeast_endings b operation
  have hends := endsAfter_of_isLeast ha
  have hpos : 0 < a := ha.1.1
  have hgood (hdelays : ∀ k < a, (delay k).isSome) :
      ∃ delays, delays.map some = (List.range (a - 1)).map delay ∧
        t = ⟨some (operation a), delays⟩ := by
    have hrun := runFrom_of_computes hends ((computes_pred_iff hpos b.initialDelay).2 hdelays)
    rwa [Nat.add_sub_of_le hpos] at hrun
  refine ⟨fun acts outcome => loop_iff_run, a, ha, ⟨fun houtcome => ?_, fun hdelays => ?_⟩,
    fun hdelays => ?_⟩
  · rw [← computes_pred_iff hpos b.initialDelay]
    by_contra hfails
    have hnone : t.outcome = none := runFrom_of_not_computes hends hfails
    rw [hnone] at houtcome
    cases houtcome
  · obtain ⟨delays, -, hrun⟩ := hgood hdelays
    rw [hrun]
    rfl
  · obtain ⟨delays, hmap, hrun⟩ := hgood hdelays
    refine ⟨delays, hmap, hrun, ?_⟩
    rw [hrun]
    rfl

theorem fourth_attempt_succeeds :
    let b : Backoff := ⟨.ofMillis 300, .ofMillis 1000, .ofNat 2, 5⟩
    let operation : Nat → Except Nat Nat := fun n => if n < 4 then .error n else .ok n
    (∀ k < 4, (b.delayAfter? b.initialDelay k).isSome) ∧
      ∀ acts outcome, b.Loop operation 1 b.initialDelay acts outcome ↔
        acts = [.attempt 1, .pause (.ofMillis 300), .attempt 2, .pause (.ofMillis 600), .attempt 3,
          .pause (.ofMillis 1000), .attempt 4] ∧ outcome = some (.ok 4) := by
  intro b operation
  have hdelays : ∀ k < 4, (b.delayAfter? b.initialDelay k).isSome := by decide +kernel
  have hfour : IsLeast (b.endings operation) 4 := by
    refine ⟨⟨by decide, .inl ⟨4, rfl⟩⟩, ?_⟩
    rintro n ⟨-, ⟨x, hx⟩ | hlast⟩
    · by_contra hlt
      rw [show operation n = .error n from if_pos (Nat.lt_of_not_le hlt)] at hx
      cases hx
    · rw [hlast]
      decide
  obtain ⟨hloop, a, ha, -, hgood⟩ := attempts_with_pauses_between b operation
  obtain rfl : a = 4 := ha.unique hfour
  obtain ⟨delays, hmap, hrun, hacts⟩ := hgood hdelays
  have hthree : (List.range (4 - 1)).map (b.delayAfter? b.initialDelay) =
      [.ofMillis 300, .ofMillis 600, .ofMillis 1000].map some := by decide +kernel
  obtain rfl : delays = [.ofMillis 300, .ofMillis 600, .ofMillis 1000] :=
    List.map_injective_iff.2 (Option.some_injective _) (hmap.trans hthree)
  refine ⟨hdelays, fun acts outcome => ?_⟩
  rw [hloop, hacts, hrun]
  rfl

end BatchingCache.Backoff
