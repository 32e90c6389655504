import BatchingCache.Cache.Health
import BatchingCache.Cache.Scan
import BatchingCache.Proofs.Cache.Operations
import BatchingCache.Proofs.Pipeline.Barrier
import BatchingCache.Proofs.Pipeline.Ledger
/-!
# The end of a pipeline

A shutdown executes all that waits and leaves nothing behind that could take a mutation.  So every
mutation that was taken has come to its end when the shutdown returns, and whatever is asked of the
pipeline later changes nothing but the number of attempts that found no batch.
-/

namespace BatchingCache

open scoped List

variable {σ : Type} [Store σ]

theorem Batch.map_token_settledBy (bs : List Batch) (s : σ) :
    (settledBy bs s).map Settlement.token = bs.flatMap tokens := by
  induction bs generalizing s with
  | nil => rfl
  | cons b bs ih =>
    rw [settledBy, List.map_append, ih, map_token_run, List.flatMap_cons]
    rfl

namespace Ledger

/-! ## Mutations that were taken -/

def Event.taken (l : Ledger σ) : Event σ → List PendingOp
  | .enqueue op => if (l.pipeline.enqueue op).1.isOk then [op] else []
  | _ => []

def taken (l : Ledger σ) : List (Event σ) → List PendingOp
  | [] => []
  | e :: events => e.taken l ++ (l.step e).taken events

def Held (ops : List PendingOp) (l : Ledger σ) : Prop :=
  l.settled.map Settlement.token ++ l.pipeline.batches.flatMap Batch.tokens ~ ops.map PendingOp.token

variable {attempts n : Nat} {l l' : Ledger σ} {ops : List PendingOp}

theorem Held.enqueue (h : l.Held ops) (hstocked : l.pipeline.Stocked) (op : PendingOp) :
    (l.step (.enqueue op)).Held (ops ++ (Event.enqueue op).taken l) := by
  have hpipeline : (l.step (.enqueue op)).pipeline = (l.pipeline.enqueue op).2.1 := rfl
  have hsettled : (l.step (.enqueue op)).settled = l.settled := List.append_nil _
  unfold Held at h ⊢
  rw [hpipeline, hsettled, Event.taken]
  rcases hstocked with ⟨size, full, current, hbacklog⟩ | hclosed
  · obtain ⟨hok, hqueued⟩ := hbacklog.enqueue op
    -- Full or not, the batch that was in the slot is the last one with mutations.
    have hbatches : (l.pipeline.enqueue op).2.1.batches.flatMap Batch.tokens =
        l.pipeline.batches.flatMap Batch.tokens ++ [op.token] := by
      split at hqueued
      · rw [hqueued.batches, hbacklog.batches]
        simp [Batch.tokens]
      · rw [hqueued.batches, hbacklog.batches]
        simp [Batch.tokens]
    rw [hok, hbatches, ← List.append_assoc, List.map_append]
    exact h.append_right _
  · rw [Pipeline.enqueue, Pipeline.enqueueWithin_of_no_slot hclosed.slot]
    exact (List.append_nil ops).symm ▸ h

omit [Store σ] in
/-- Executing some of the batches settles what waits in them. -/
theorem Held.absorb (h : l.Held ops) {r : Pipeline × Execution (Observed σ)}
    (htokens : r.2.settled.map Settlement.token ++ r.1.batches.flatMap Batch.tokens ~
      l.pipeline.batches.flatMap Batch.tokens) : (l.absorb r).Held ops := by
  show (l.settled ++ r.2.settled).map Settlement.token ++ _ ~ _
  rw [List.map_append, List.append_assoc]
  exact (htokens.append_left _).trans h

theorem Held.flush (h : l.Held ops) (hstocked : l.pipeline.Stocked) : (l.step .flush).Held ops := by
  apply h.absorb
  rcases hstocked with ⟨size, full, current, hbacklog⟩ | hclosed
  · obtain ⟨hleft, -, hsettled, -⟩ := hbacklog.flush (s := l.store)
    rw [hsettled, Batch.map_token_settledBy, hleft.batches, hbacklog.batches]
    exact .of_eq (List.append_nil _)
  · rw [hclosed.flush_eq, hclosed.finish_eq]
    exact .refl _

theorem closed_shutdown (hstocked : l.pipeline.Stocked) : (l.step .shutdown).pipeline.Closed := by
  rcases hstocked with ⟨size, full, current, hbacklog⟩ | hclosed
  · exact hbacklog.closed_shutdown l.store
  · show (l.pipeline.shutdown l.store).1.Closed
    rw [hclosed.shutdown_eq, hclosed.finish_eq]
    exact ⟨hclosed.slot, hclosed.batches, rfl⟩

theorem Held.shutdown (h : l.Held ops) (hstocked : l.pipeline.Stocked) :
    (l.step .shutdown).Held ops := by
  apply h.absorb
  rcases hstocked with ⟨size, full, current, hbacklog⟩ | hclosed
  · obtain ⟨-, -, hsettled, -⟩ := hbacklog.shutdown (s := l.store)
    rw [hsettled, Batch.map_token_settledBy, (hbacklog.closed_shutdown l.store).batches,
      hbacklog.batches]
    exact .of_eq (List.append_nil _)
  · rw [hclosed.shutdown_eq, hclosed.finish_eq]
    exact .refl _

theorem Held.background (h : l.Held ops) (hstocked : l.pipeline.Stocked) (id : Nat) :
    (l.step (.background id)).Held ops := by
  by_cases hid : id ∈ l.pipeline.background
  · simp only [step, if_pos hid]
    rcases hstocked with ⟨size, full, current, hbacklog⟩ | hclosed
    · apply h.absorb
      exact Overlap.perm_tokens_executeBatch
        (p := { l.pipeline with background := l.pipeline.background.erase id }) id l.store
        hbacklog.distinct
    · rw [hclosed.background] at hid
      cases hid
  · simp only [step, if_neg hid]
    exact h

theorem Held.run (h : l.Held ops) (hkept : l.Kept attempts) (events : List (Event σ)) :
    (l.run events).Held (ops ++ l.taken events) := by
  induction events generalizing l ops with
  | nil =>
    rw [taken, List.append_nil]
    exact h
  | cons e events ih =>
    rw [taken, ← List.append_assoc]
    refine ih ?_ (hkept.step e)
    cases e with
    | enqueue op => exact h.enqueue hkept.stocked op
    | background id => exact (List.append_nil ops).symm ▸ h.background hkept.stocked id
    | flush => exact (List.append_nil ops).symm ▸ h.flush hkept.stocked
    | shutdown => exact (List.append_nil ops).symm ▸ h.shutdown hkept.stocked
    | outside change => exact (List.append_nil ops).symm ▸ h

/-! ## After a shutdown -/

def Event.isEnqueue : Event σ → Bool
  | .enqueue _ => true
  | _ => false

/-- A pipeline that was shut down has been asked to take `n` mutations since, and nothing came of
that. -/
structure Still (l : Ledger σ) (n : Nat) (l' : Ledger σ) : Prop where
  closed : l'.pipeline.Closed
  maxAttempts : l'.pipeline.maxAttempts = l.pipeline.maxAttempts
  stats : l'.pipeline.stats = { l.pipeline.stats with
    retries := l.pipeline.stats.retries + l.pipeline.maxAttempts * n }
  calls : l'.store.calls = l.store.calls
  settled : l'.settled = l.settled

omit [Store σ] in
theorem still_self (h : l.pipeline.Closed) : Still l 0 l := ⟨h, rfl, rfl, rfl, rfl⟩

omit [Store σ] in
theorem Still.trans {l'' : Ledger σ} {m : Nat} (h : Still l n l') (h' : Still l' m l'') :
    Still l (n + m) l'' := by
  refine ⟨h'.closed, h'.maxAttempts.trans h.maxAttempts, ?_, h'.calls.trans h.calls,
    h'.settled.trans h.settled⟩
  rw [h'.stats, h.stats, h.maxAttempts, Nat.mul_add, Nat.add_assoc]

theorem still_step (h : l.pipeline.Closed) (e : Event σ) :
    Still l (if e.isEnqueue then 1 else 0) (l.step e) := by
  have hfinish : Still l 0 (l.absorb (l.pipeline.finish none l.store)) := by
    rw [h.finish_eq]
    exact ⟨⟨h.slot, h.batches, rfl⟩, rfl, rfl, rfl, List.append_nil _⟩
  cases e with
  | enqueue op =>
    have hrefused := @Pipeline.enqueueWithin_of_no_slot _ op h.slot l.pipeline.maxAttempts
    have hpipeline : (l.step (.enqueue op)).pipeline = (l.pipeline.enqueue op).2.1 := rfl
    refine ⟨?_, ?_, ?_, rfl, List.append_nil _⟩
    · rw [hpipeline, Pipeline.enqueue, hrefused]
      exact ⟨h.slot, h.batches, h.background⟩
    · rw [hpipeline, Pipeline.enqueue, hrefused]
    · have hone : (if (Event.enqueue op : Event σ).isEnqueue then 1 else 0) = 1 := rfl
      rw [hpipeline, Pipeline.enqueue, hrefused, hone, Nat.mul_one]
  | background id =>
    have hid : id ∉ l.pipeline.background := by
      rw [h.background]
      exact List.not_mem_nil
    simp only [step, if_neg hid]
    exact still_self h
  | flush =>
    simp only [step, h.flush_eq]
    exact hfinish
  | shutdown =>
    simp only [step, h.shutdown_eq]
    exact hfinish
  | outside change => exact ⟨h, rfl, rfl, rfl, rfl⟩

theorem still_run (h : l.pipeline.Closed) (events : List (Event σ)) :
    Still l (events.countP Event.isEnqueue) (l.run events) := by
  induction events generalizing l with
  | nil => exact still_self h
  | cons e events ih =>
    have hstep := still_step h e
    rw [List.countP_cons, Nat.add_comm]
    exact hstep.trans (ih hstep.closed)

/-- What a pipeline that was shut down has come to, and what it answers, after it was asked to take
`n` more mutations. -/
structure Ended (attempts : Nat) (closed : Ledger σ) (n : Nat) (l : Ledger σ) : Prop where
  isRunning : l.pipeline.isRunning = false
  pending : l.pipeline.pending = 0
  stats : l.pipeline.stats =
    { closed.pipeline.stats with retries := closed.pipeline.stats.retries + max 1 attempts * n }
  calls : l.store.calls = closed.store.calls
  settled : l.settled = closed.settled
  enqueue : ∀ op,
    (l.pipeline.enqueue op).1 =
        .error (.batchProcessing (.attemptsExhausted (max 1 attempts))) ∧
      (l.pipeline.enqueue op).2.1.stats.retries = l.pipeline.stats.retries + max 1 attempts
  flush : (l.pipeline.flush l.store).2.result = {}
  shutdown : (l.pipeline.shutdown l.store).2.result = {}

theorem Still.ended (h : Still l n l') (hattempts : l.pipeline.maxAttempts = max 1 attempts) :
    Ended attempts l n l' := by
  have hclosed := h.closed
  have hmax := h.maxAttempts.trans hattempts
  refine ⟨?_, ?_, ?_, h.calls, h.settled, fun op => ?_, ?_, ?_⟩
  · rw [Pipeline.isRunning, hclosed.slot]
    rfl
  · rw [Pipeline.pending, hclosed.slot]
    rfl
  · rw [h.stats, hattempts]
  · rw [Pipeline.enqueue, Pipeline.enqueueWithin_of_no_slot hclosed.slot, hmax]
    exact ⟨rfl, rfl⟩
  · rw [hclosed.flush_eq, hclosed.finish_eq]
  · rw [hclosed.shutdown_eq, hclosed.finish_eq]

end Ledger

/-! ## Direct operations -/

structure Cache.ServesAlike (σ : Type) [Store σ] (c c' : Cache) : Prop where
  operation : ∀ (op : Operation) (s : σ), op.run c s = op.run c' s
  scan : ∀ {α : Type} (codec : Codec α) (calls : Nat) (pattern : String) (namespaced : Bool) (s : σ),
    c.scanByPattern codec calls pattern namespaced s = c'.scanByPattern codec calls pattern namespaced s
  probe : ∀ s : σ, c.probe s = c'.probe s

theorem Cache.get_pipeline {α : Type} (c : Cache) (p : Pipeline) (name : String) (codec : Codec α)
    (r : GetRequest) (s : σ) :
    c.get name codec r s = ({ c with pipeline := p } : Cache).get name codec r s := by
  unfold get
  -- The branches on what was found have the cache as a parameter, so they agree only one by one.
  refine congrArg (fun k => direct name (liftM r.validate >>= k) s) (funext fun key => ?_)
  refine congrArg (fun k => perform _ >>= k) (funext fun found => ?_)
  cases found <;> rfl

theorem Cache.servesAlike_pipeline (c : Cache) (p : Pipeline) :
    ServesAlike σ c { c with pipeline := p } := by
  refine ⟨fun op s => ?_, fun codec calls pattern namespaced s => rfl, fun s => rfl⟩
  cases op with
  | write w => cases w <;> rfl
  | getString r => exact c.get_pipeline p _ _ r s
  | getEntity codec r => exact c.get_pipeline p _ codec r s
  | _ => rfl

/-! ## Shutting down -/

namespace Ledger

variable {executor : Bool} {size attempts : Nat} {p : Pipeline}

omit [Store σ] in
theorem kept_first (size attempts : Nat) (s : σ) :
    ({ pipeline := (Pipeline.empty size attempts).install, store := ⟨s, []⟩ } : Ledger σ).Kept
      (max 1 attempts) :=
  ⟨.inl ⟨_, _, _, Pipeline.backlog_first size attempts⟩, Nat.max_comm _ _, rfl, rfl,
    (Nat.mul_zero _).symm, nofun, rfl, rfl, rfl, rfl, rfl⟩

/-- When a shutdown returns, every mutation that was taken has come to its end.  Whatever happens later,
the pipeline takes nothing, executes nothing and finds nothing to flush, and direct operations are
served as if it were still running. -/
theorem shutdown_is_final (hstart : Pipeline.start executor size attempts = .ok p) (s : σ)
    (before after : List (Event σ)) :
    let opened : Ledger σ := { pipeline := p, store := ⟨s, []⟩ }
    let closed := (opened.run before).step .shutdown
    let l := closed.run after
    closed.settled.map Settlement.token ~ (opened.taken before).map PendingOp.token ∧
      Ended attempts closed (after.countP Event.isEnqueue) l ∧
      ∀ (c : Cache) (running : Pipeline), c.pipeline = l.pipeline →
        c.ServesAlike (Observed σ) { c with pipeline := running } := by
  intro opened closed l
  obtain ⟨-, rfl⟩ := Pipeline.of_start_ok hstart
  have hkept : opened.Kept (max 1 attempts) := kept_first size attempts s
  have hbefore := hkept.run before
  have hclosed : closed.pipeline.Closed := closed_shutdown hbefore.stocked
  have hopened : opened.Held [] := .refl []
  have hheld : closed.Held (opened.taken before) :=
    (hopened.run hkept before).shutdown hbefore.stocked
  refine ⟨?_, (still_run hclosed after).ended (hbefore.step .shutdown).maxAttempts, ?_⟩
  · unfold Held at hheld
    rw [hclosed.batches, List.flatMap_nil, List.append_nil] at hheld
    exact hheld
  · exact fun c running _ => c.servesAlike_pipeline running

theorem shutdown_is_final_for_pair_and_rest :
    let op (token : Token) : PendingOp := ⟨.set "k" [] none, none, token⟩
    let before : List (Event Memory) := [.enqueue (op 0), .enqueue (op 1), .enqueue (op 2)]
    let after : List (Event Memory) := [.flush, .enqueue (op 3)]
    ∃ p, Pipeline.start true 2 3 = .ok p ∧
      let opened : Ledger Memory := { pipeline := p, store := ⟨{}, []⟩ }
      let closed := (opened.run before).step .shutdown
      closed.settled.map Settlement.token ~ [0, 1, 2] ∧
        (closed.run after).pipeline.isRunning = false ∧
        (closed.run after).pipeline.stats.retries = closed.pipeline.stats.retries + 3 := by
  intro op before after
  obtain ⟨p, hstart⟩ : ∃ p, Pipeline.start true 2 3 = .ok p := ⟨_, rfl⟩
  refine ⟨p, hstart, ?_⟩
  intro opened closed
  obtain ⟨hsettled, hended, -⟩ := shutdown_is_final hstart ({} : Memory) before after
  obtain ⟨-, rfl⟩ := Pipeline.of_start_ok hstart
  refine ⟨hsettled, hended.isRunning, ?_⟩
  rw [hended.stats]
  rfl

end Ledger

end BatchingCache
