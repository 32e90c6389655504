import BatchingCache.Pipeline
import Mathlib.Data.List.Basic
/-!
# Steps of a pipeline

What every step does to the batches that have not been executed, each of them seen by its number
through the mutations that wait in it.
-/

namespace BatchingCache.Pipeline

variable {p : Pipeline} {id i : Nat} {op : PendingOp} {ops : List PendingOp}

def waiting? (p : Pipeline) (id : Nat) : Option (List PendingOp) :=
  (p.batch? id).map Batch.pending

/-- Batches take mutations until they are executed, and their numbers are not given again. -/
structure WellFormed (p : Pipeline) : Prop where
  accumulating : ∀ b ∈ p.batches, b.isRetired = false
  numbered : ∀ b ∈ p.batches, b.id < p.nextId

theorem mem_and_id_of_batch? {b : Batch} (h : p.batch? id = some b) :
    b ∈ p.batches ∧ b.id = id :=
  ⟨List.mem_of_find?_eq_some h, by simpa using List.find?_some h⟩

theorem waiting?_eq_none_of_le (h : p.WellFormed) (hid : p.nextId ≤ id) :
    p.waiting? id = none := by
  have hnone : p.batch? id = none := by
    rw [batch?, List.find?_eq_none]
    intro b hb
    have hlt := h.numbered b hb
    simp only [decide_eq_true_eq]
    omega
  rw [waiting?, hnone, Option.map_none]

theorem lt_nextId_of_waiting? (h : p.WellFormed) (hops : p.waiting? id = some ops) :
    id < p.nextId := by
  by_contra hle
  rw [waiting?_eq_none_of_le h (by omega)] at hops
  cases hops

/-! ## A fresh batch in the slot -/

@[simp] theorem nextId_install : p.install.nextId = p.nextId + 1 := rfl

theorem waiting?_install (h : p.WellFormed) :
    p.install.waiting? id = if id = p.nextId then some [] else p.waiting? id := by
  have hfind : p.install.batch? id =
      (p.batch? id).or (if p.nextId = id then some { id := p.nextId } else none) := by
    show (p.batches ++ [({ id := p.nextId } : Batch)]).find? (fun b => b.id = id) = _
    rw [List.find?_append, List.find?_singleton]
    simp only [decide_eq_true_eq]
    rfl
  rw [waiting?, hfind]
  by_cases hid : id = p.nextId
  · have hnone := waiting?_eq_none_of_le h (by omega : p.nextId ≤ id)
    rw [waiting?, Option.map_eq_none_iff] at hnone
    rw [hnone, if_pos hid, if_pos hid.symm]
    rfl
  · rw [if_neg hid, if_neg (Ne.symm hid), Option.or_none]
    rfl

theorem wellFormed_install (h : p.WellFormed) : p.install.WellFormed := by
  have hcases : ∀ b ∈ p.install.batches, b ∈ p.batches ∨ b = { id := p.nextId } := by
    intro b hb
    rcases List.mem_append.1 hb with hb | hb
    · exact .inl hb
    · exact .inr (List.mem_singleton.1 hb)
  constructor
  · intro b hb
    rcases hcases b hb with hb | rfl
    · exact h.accumulating b hb
    · rfl
  · intro b hb
    rw [nextId_install]
    rcases hcases b hb with hb | rfl
    · have hlt := h.numbered b hb
      omega
    · exact Nat.lt_succ_self _

/-! ## A fresh pipeline -/

def empty (size attempts : Nat) : Pipeline :=
  { batchSize := size, maxAttempts := max attempts 1 }

theorem start_eq {size : Nat} (hsize : 0 < size) (attempts : Nat) :
    start true size attempts = .ok (empty size attempts).install := by
  have hne : size ≠ 0 := by omega
  rw [start, if_neg hne]
  rfl

theorem of_start_ok {executor : Bool} {size attempts : Nat}
    (hstart : start executor size attempts = .ok p) :
    0 < size ∧ p = (empty size attempts).install := by
  rcases Nat.eq_zero_or_pos size with hzero | hsize
  · rw [start, if_pos hzero] at hstart
    cases hstart
  · cases executor with
    | false =>
      rw [start, if_neg (Nat.ne_of_gt hsize)] at hstart
      cases hstart
    | true =>
      rw [start_eq hsize] at hstart
      cases hstart
      exact ⟨hsize, rfl⟩

theorem wellFormed_empty (size attempts : Nat) : (empty size attempts).WellFormed :=
  ⟨nofun, nofun⟩

theorem waiting?_first (size attempts id : Nat) :
    (empty size attempts).install.waiting? id = if id = 1 then some [] else none :=
  waiting?_install (wellFormed_empty size attempts)

/-! ## Pushing -/

def replace (b : Batch) (p : Pipeline) : Pipeline :=
  { p with batches := p.batches.map fun b' => if b'.id = b.id then b else b' }

theorem push_of_waiting? (h : p.WellFormed) (hops : p.waiting? id = some ops) :
    p.push id op = .ok (ops.length + 1, p.replace ⟨id, .accumulating (ops ++ [op])⟩) := by
  obtain ⟨b, hb, rfl⟩ := Option.map_eq_some_iff.1 hops
  obtain ⟨hmem, hid⟩ := mem_and_id_of_batch? hb
  have haccumulating := h.accumulating b hmem
  obtain ⟨id', state⟩ := b
  cases state with
  | retired => simp [Batch.isRetired] at haccumulating
  | accumulating pending =>
    subst hid
    rw [push, hb]
    rfl

theorem push_of_executed (hnone : p.waiting? id = none) : p.push id op = .error .retired := by
  rw [waiting?, Option.map_eq_none_iff] at hnone
  rw [push, hnone]

theorem waiting?_replace {b : Batch} (hb : (p.waiting? b.id).isSome) :
    (p.replace b).waiting? i = if i = b.id then some b.pending else p.waiting? i := by
  have hfind : (p.replace b).batch? i =
      (p.batch? i).map fun b' => if b'.id = b.id then b else b' := by
    show (p.batches.map _).find? _ = _
    rw [List.find?_map]
    congr 1
    refine congrFun (congrArg List.find? (funext fun b' => ?_)) p.batches
    simp only [Function.comp_apply]
    split
    · rename_i heq
      rw [heq]
    · rfl
  rw [waiting?, hfind, Option.map_map]
  by_cases hi : i = b.id
  · rw [if_pos hi, hi]
    obtain ⟨ops, hops⟩ := Option.isSome_iff_exists.1 hb
    obtain ⟨b', hb', -⟩ := Option.map_eq_some_iff.1 hops
    rw [hb', Option.map_some, Function.comp_apply, if_pos (mem_and_id_of_batch? hb').2]
  · rw [if_neg hi, waiting?]
    cases hb' : p.batch? i with
    | none => rfl
    | some b' =>
      have hne : b'.id ≠ b.id := by
        rw [(mem_and_id_of_batch? hb').2]
        exact hi
      rw [Option.map_some, Function.comp_apply, if_neg hne, Option.map_some]

theorem wellFormed_replace (h : p.WellFormed) {b : Batch} (hb : b.isRetired = false)
    (hid : b.id < p.nextId) : (p.replace b).WellFormed := by
  have hcases : ∀ b' ∈ (p.replace b).batches, b' = b ∨ b' ∈ p.batches := by
    intro b' hb'
    obtain ⟨b'', hmem, rfl⟩ := List.mem_map.1 hb'
    split
    · exact .inl rfl
    · exact .inr hmem
  constructor
  · intro b' hb'
    rcases hcases b' hb' with rfl | hmem
    · exact hb
    · exact h.accumulating b' hmem
  · intro b' hb'
    rcases hcases b' hb' with rfl | hmem
    · exact hid
    · exact h.numbered b' hmem

/-! ## Queueing -/

theorem rotateFull_eq (hslot : p.slot = some id) :
    (p.rotateFull id).1 =
      { p.install.countFlushed with
        background := p.background ++ [id]
        inFlight := p.inFlight.filter (p.background.contains ·) ++ [id] } := by
  rw [rotateFull, if_pos hslot]
  rfl

theorem rotateFull_of_slot (hslot : p.slot = some id) :
    ∃ inFlight, (p.rotateFull id).1 =
      { p.install.countFlushed with background := p.background ++ [id], inFlight } :=
  ⟨_, rotateFull_eq hslot⟩

theorem metrics_rotateFull_of_slot (hslot : p.slot = some id) :
    ∃ count, (p.rotateFull id).2 = [.rotation, .batchesInFlight count] := by
  refine ⟨(p.inFlight.filter (p.background.contains ·) ++ [id]).length, ?_⟩
  rw [rotateFull, if_pos hslot]
  rfl

theorem rotateFull_of_not_slot (hslot : p.slot ≠ some id) : p.rotateFull id = (p, []) := by
  rw [rotateFull, if_neg hslot]

theorem enqueueWithin_of_ok {q : Pipeline} {length : Nat} (attempts : Nat)
    (hattempt : p.attempt op = .ok (id, length, q)) :
    (p.enqueueWithin op (attempts + 1)).1 = .ok () ∧
      (p.enqueueWithin op (attempts + 1)).2.1 =
        if length = q.batchSize then (q.countEnqueued.rotateFull id).1 else q.countEnqueued := by
  rw [enqueueWithin, hattempt]
  refine ⟨rfl, ?_⟩
  show (if length = q.batchSize then q.countEnqueued.rotateFull id else (q.countEnqueued, [])).1 = _
  split <;> rfl

theorem metrics_enqueueWithin_of_ok {q : Pipeline} {length : Nat} (attempts : Nat)
    (hattempt : p.attempt op = .ok (id, length, q)) :
    (p.enqueueWithin op (attempts + 1)).2.2 = .enqueued op.mutation.kind ::
      if length = q.batchSize then (q.countEnqueued.rotateFull id).2 else [] := by
  rw [enqueueWithin, hattempt]
  show _ :: (if length = q.batchSize then q.countEnqueued.rotateFull id
    else (q.countEnqueued, [])).2 = _
  split <;> rfl

theorem enqueueWithin_of_error {reason : Unavailable} (attempts : Nat)
    (hattempt : p.attempt op = .error reason) :
    (p.enqueueWithin op (attempts + 1)).1 = (p.countRetry.enqueueWithin op attempts).1 ∧
      (p.enqueueWithin op (attempts + 1)).2.1 = (p.countRetry.enqueueWithin op attempts).2.1 := by
  rw [enqueueWithin, hattempt]
  exact ⟨rfl, rfl⟩

theorem attempt_of_slot (hslot : p.slot = some id) :
    p.attempt op = (p.push id op).map fun (length, p) => (id, length, p) := by
  rw [attempt, hslot]

theorem attempt_of_waiting? (op : PendingOp) (h : p.WellFormed) (hslot : p.slot = some id)
    (hops : p.waiting? id = some ops) :
    p.attempt op = .ok (id, ops.length + 1, p.replace ⟨id, .accumulating (ops ++ [op])⟩) := by
  rw [attempt_of_slot hslot, push_of_waiting? h hops]
  rfl

theorem enqueue_of_waiting? (op : PendingOp) (h : p.WellFormed) (hattempts : 0 < p.maxAttempts)
    (hslot : p.slot = some id) (hops : p.waiting? id = some ops) :
    let q := (p.replace ⟨id, .accumulating (ops ++ [op])⟩).countEnqueued
    (p.enqueue op).1 = .ok () ∧
      (p.enqueue op).2.1 = if ops.length + 1 = p.batchSize then (q.rotateFull id).1 else q := by
  obtain ⟨attempts, hmax⟩ : ∃ attempts, p.maxAttempts = attempts + 1 :=
    ⟨p.maxAttempts - 1, by omega⟩
  rw [enqueue, hmax]
  exact enqueueWithin_of_ok attempts (attempt_of_waiting? op h hslot hops)

theorem metrics_enqueue_of_waiting? (op : PendingOp) (h : p.WellFormed)
    (hattempts : 0 < p.maxAttempts) (hslot : p.slot = some id) (hops : p.waiting? id = some ops) :
    let q := (p.replace ⟨id, .accumulating (ops ++ [op])⟩).countEnqueued
    (p.enqueue op).2.2 = .enqueued op.mutation.kind ::
      if ops.length + 1 = p.batchSize then (q.rotateFull id).2 else [] := by
  obtain ⟨attempts, hmax⟩ : ∃ attempts, p.maxAttempts = attempts + 1 :=
    ⟨p.maxAttempts - 1, by omega⟩
  rw [enqueue, hmax]
  exact metrics_enqueueWithin_of_ok attempts (attempt_of_waiting? op h hslot hops)

/-- A pipeline that does not take a mutation at the first attempt does not take it at all. -/
theorem enqueueWithin_of_unavailable {reason : Unavailable}
    (hattempt : ∀ stats, ({ p with stats } : Pipeline).attempt op = .error reason) (attempts : Nat) :
    p.enqueueWithin op attempts =
      (.error (.batchProcessing (.attemptsExhausted p.maxAttempts)),
        { p with stats := { p.stats with retries := p.stats.retries + attempts } },
        List.replicate attempts (.batchRetry (retryReason reason)) ++
          [.enqueueRejected op.mutation.kind]) := by
  induction attempts generalizing p with
  | zero => rfl
  | succ attempts ih =>
    rw [enqueueWithin, hattempt p.stats]
    simp only [ih (p := p.countRetry) hattempt]
    rw [countRetry, List.replicate_succ, List.cons_append, Nat.add_assoc, Nat.add_comm 1]

theorem enqueueWithin_of_no_slot (hslot : p.slot = none) (attempts : Nat) :
    p.enqueueWithin op attempts =
      (.error (.batchProcessing (.attemptsExhausted p.maxAttempts)),
        { p with stats := { p.stats with retries := p.stats.retries + attempts } },
        List.replicate attempts (.batchRetry (retryReason .notInstalled)) ++
          [.enqueueRejected op.mutation.kind]) := by
  apply enqueueWithin_of_unavailable
  intro stats
  rw [attempt, hslot]

/-- A mutation is taken by the batch in the slot, or it is refused and only the statistics change. -/
theorem enqueue_cases (op : PendingOp) (h : p.WellFormed) :
    (∃ id ops, p.slot = some id ∧ p.waiting? id = some ops ∧
      let q := (p.replace ⟨id, .accumulating (ops ++ [op])⟩).countEnqueued
      (p.enqueue op).1 = .ok () ∧
        (p.enqueue op).2.1 = if ops.length + 1 = p.batchSize then (q.rotateFull id).1 else q) ∨
    ∃ e stats, (p.enqueue op).1 = .error e ∧ (p.enqueue op).2.1 = { p with stats } := by
  have hrefused : ∀ reason, (∀ stats, ({ p with stats } : Pipeline).attempt op = .error reason) →
      ∃ e stats, (p.enqueue op).1 = .error e ∧ (p.enqueue op).2.1 = { p with stats } := by
    intro reason hattempt
    rw [enqueue, enqueueWithin_of_unavailable hattempt]
    exact ⟨_, _, rfl, rfl⟩
  rcases Option.eq_none_or_eq_some p.slot with hslot | ⟨id, hslot⟩
  · right
    apply hrefused .notInstalled
    intro stats
    rw [attempt, hslot]
  · cases hops : p.waiting? id with
    | none =>
      right
      apply hrefused .retired
      intro stats
      have hpush : ({ p with stats } : Pipeline).push id op = .error .retired := push_of_executed hops
      rw [attempt_of_slot (p := { p with stats }) hslot, hpush]
      rfl
    | some ops =>
      by_cases hattempts : 0 < p.maxAttempts
      · exact .inl ⟨id, ops, hslot, hops, enqueue_of_waiting? op h hattempts hslot hops⟩
      · right
        have henqueue : p.enqueue op = p.enqueueWithin op 0 := by
          rw [enqueue, Nat.eq_zero_of_not_pos hattempts]
        rw [henqueue]
        exact ⟨_, p.stats, rfl, rfl⟩

/-! ## Executing -/

def without (id : Nat) (p : Pipeline) : Pipeline :=
  { p with batches := p.batches.filter fun b => b.id ≠ id }

theorem executeBatch_eq {σ : Type} [Store σ] (s : σ) :
    p.executeBatch id s = (p.without id, Batch.run id ((p.waiting? id).getD []) s) := by
  rw [executeBatch, waiting?]
  cases hb : p.batch? id with
  | none =>
    have hkeep : p.without id = p := by
      have hne := List.find?_eq_none.1 hb
      have hfilter : p.batches.filter (fun b => b.id ≠ id) = p.batches :=
        List.filter_eq_self.2 fun b hb => by simpa using hne b hb
      rw [without, hfilter]
    rw [hkeep]
    rfl
  | some b =>
    have hid := (mem_and_id_of_batch? hb).2
    show (p.without id, Batch.run b.id b.pending s) = _
    rw [hid]
    rfl

theorem waiting?_without : (p.without id).waiting? i = if i = id then none else p.waiting? i := by
  have hfind : (p.without id).batch? i = if i = id then none else p.batch? i := by
    show (p.batches.filter _).find? _ = _
    rw [List.find?_filter]
    split
    · rename_i hi
      rw [List.find?_eq_none]
      intro b _
      simp [hi]
    · rename_i hi
      refine congrFun (congrArg List.find? (funext fun b => ?_)) p.batches
      by_cases hb : b.id = i
      · simp [hb, hi]
      · simp [hb]
  rw [waiting?, hfind]
  split <;> rfl

theorem wellFormed_without (h : p.WellFormed) : (p.without id).WellFormed :=
  ⟨fun b hb => h.accumulating b (List.mem_of_mem_filter hb),
    fun b hb => h.numbered b (List.mem_of_mem_filter hb)⟩

end BatchingCache.Pipeline
