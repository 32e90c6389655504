import BatchingCache.Proofs.Pipeline.Rotation
import BatchingCache.Proofs.Pipeline.Tokens
import BatchingCache.Store.Memory
import Mathlib.Data.List.Nodup
/-!
# Accounting for mutations

Whatever the order in which callers take their steps, a mutation that was pushed is in one batch.
That batch is in the slot, or one caller or the background is about to execute it, or it was
executed.  The mutation is handed to the store and settled when its batch is executed.
-/

namespace BatchingCache.System

variable {σ : Type} {s s' : System σ} {id : Nat} {size : Nat}

/-! ## What batches hold -/

def executions (s : System σ) (id : Nat) : Nat := (s.executed.map Prod.fst).count id

def held (s : System σ) (id : Nat) : List PendingOp :=
  (s.pipeline.waiting? id).getD [] ++ (s.executed.filter fun x => x.1 = id).flatMap Prod.snd

theorem flatMap_executed (h : s.Filled) (id : Nat) :
    (s.executed.filter fun x => x.1 = id).flatMap Prod.snd =
      (List.replicate (s.executions id) (s.pushedInto id)).flatten := by
  rw [List.flatMap_def]
  congr 1
  rw [List.eq_replicate_iff]
  constructor
  · rw [List.length_map, executions, List.count_eq_countP, List.countP_map,
      List.countP_eq_length_filter]
    congr 2
  · intro ops hops
    obtain ⟨x, hx, rfl⟩ := List.mem_map.1 hops
    obtain ⟨hmem, hid⟩ := List.mem_filter.1 hx
    rw [h.executed x hmem, of_decide_eq_true hid]

theorem held_eq (h : s.Filled) (id : Nat) : s.held id = s.pushedInto id := by
  have honce := h.once id
  rw [held, flatMap_executed h]
  rw [← executions] at honce
  cases hops : s.pipeline.waiting? id with
  | some ops =>
    rw [hops, Option.isSome_some, if_pos rfl] at honce
    have hnever : s.executions id = 0 := by
      split at honce
      · omega
      · omega
    rw [hnever, h.waiting id ops hops]
    exact List.append_nil _
  | none =>
    rw [hops, Option.isSome_none, if_neg Bool.false_ne_true] at honce
    by_cases hrange : 0 < id ∧ id < s.pipeline.nextId
    · rw [if_pos hrange] at honce
      rw [Nat.add_zero] at honce
      rw [honce, List.replicate_one, List.flatten_singleton]
      rfl
    · -- There never was such a batch.
      have hempty : s.pushedInto id = [] := by
        rw [pushedInto, List.map_eq_nil_iff, List.filter_eq_nil_iff]
        intro e he heq
        exact hrange (of_decide_eq_true heq ▸ h.range e he)
      rw [hempty, List.flatten_replicate_nil]
      rfl

theorem countP_pushedInto {e : Pushed} {p : PendingOp → Bool} (h : s.Tokened) (he : e ∈ s.pushed)
    (hself : p e.op) (hother : ∀ op, p op → op.token = e.op.token) (id : Nat) :
    (s.pushedInto id).countP p = if e.batch = id then 1 else 0 := by
  have hsame : ∀ e' ∈ s.pushed, p e'.op → e' = e := fun e' he' hp =>
    List.inj_on_of_nodup_map h.nodup he' he (hother e'.op hp)
  rw [pushedInto, List.countP_map, List.countP_filter]
  by_cases hid : e.batch = id
  · have hone := List.count_eq_one_of_mem h.nodup (List.mem_map_of_mem he)
    rw [List.count_eq_countP, List.countP_map] at hone
    rw [if_pos hid, ← hone]
    refine List.countP_congr fun e' he' => ?_
    simp only [Function.comp_apply, Bool.and_eq_true, decide_eq_true_eq, beq_iff_eq]
    constructor
    · exact fun hp => hother e'.op hp.1
    · intro htoken
      obtain rfl := List.inj_on_of_nodup_map h.nodup he' he htoken
      exact ⟨hself, hid⟩
  · rw [if_neg hid, List.countP_eq_zero]
    intro e' he' hp
    obtain ⟨hp, hbatch⟩ := Bool.and_eq_true_iff.1 hp
    rw [hsame e' he' hp] at hbatch
    exact hid (of_decide_eq_true hbatch)

/-- A mutation is found as often in what was executed as its batch was executed. -/
theorem countP_executed {e : Pushed} {p : PendingOp → Bool} (hfilled : s.Filled) (h : s.Tokened)
    (he : e ∈ s.pushed) (hself : p e.op) (hother : ∀ op, p op → op.token = e.op.token) :
    (s.executed.flatMap Prod.snd).countP p = s.executions e.batch := by
  have hcount : ∀ x ∈ s.executed, x.2.countP p = if e.batch = x.1 then 1 else 0 := fun x hx => by
    rw [hfilled.executed x hx]
    exact countP_pushedInto h he hself hother x.1
  rw [executions]
  generalize s.executed = executed at hcount
  induction executed with
  | nil => rfl
  | cons x executed ih =>
    obtain ⟨hx, hrest⟩ := List.forall_mem_cons.1 hcount
    have hcomm : (x.1 == e.batch) = true ↔ e.batch = x.1 := beq_iff_eq.trans eq_comm
    rw [List.flatMap_cons, List.countP_append, hx, ih hrest, List.map_cons, List.count_cons,
      Nat.add_comm]
    simp only [hcomm]

/-! ## Where batches are -/

inductive Placed (s : System σ) (id : Nat) : Prop where
  | inSlot (hslot : s.pipeline.slot = some id) (hwaits : (s.pipeline.waiting? id).isSome)
      (hexecutors : s.executors id = 0) (hexecutions : s.executions id = 0)
  | taken (hslot : s.pipeline.slot ≠ some id) (hwaits : (s.pipeline.waiting? id).isSome)
      (hexecutors : s.executors id = 1) (hexecutions : s.executions id = 0)
  | executed (hslot : s.pipeline.slot ≠ some id) (hgone : s.pipeline.waiting? id = none)
      (hexecutors : s.executors id = 0) (hexecutions : s.executions id = 1)

theorem placed_of_range (howned : s.Owned) (hfilled : s.Filled)
    (hrange : 0 < id ∧ id < s.pipeline.nextId) : s.Placed id := by
  have howners := howned.owners id
  have honce := hfilled.once id
  rw [if_pos hrange, ← executions] at honce
  by_cases hwaits : (s.pipeline.waiting? id).isSome
  · rw [if_pos hwaits] at howners honce
    by_cases hslot : s.pipeline.slot = some id
    · rw [if_pos hslot] at howners
      exact .inSlot hslot hwaits (by omega) (by omega)
    · rw [if_neg hslot] at howners
      exact .taken hslot hwaits (by omega) (by omega)
  · rw [if_neg hwaits] at howners honce
    have hslot : s.pipeline.slot ≠ some id := by
      intro hslot
      rw [if_pos hslot] at howners
      omega
    rw [if_neg hslot] at howners
    exact .executed hslot (Option.not_isSome_iff_eq_none.1 hwaits) (by omega) (by omega)

/-! ## Accounts -/

structure Accounted (size : Nat) (s : System σ) : Prop where
  /-- A mutation that was pushed is in the batch that it was pushed into, once, and in no other. -/
  held : ∀ e ∈ s.pushed, ∀ id, (s.held id).count e.op = if e.batch = id then 1 else 0
  pushed : ∀ id, ∀ op ∈ s.held id, ∃ e ∈ s.pushed, e.batch = id ∧ e.op = op
  range : ∀ e ∈ s.pushed, 0 < e.batch ∧ e.batch < s.pipeline.nextId
  placed : ∀ id, 0 < id ∧ id < s.pipeline.nextId → s.Placed id
  /-- The store is sent what is executed and nothing else, and no call for an empty batch. -/
  calls : s.store.calls =
    ((s.executed.map Prod.snd).filter fun ops => !ops.isEmpty).map Batch.sent
  handed : ∀ e ∈ s.pushed, (s.executed.flatMap Prod.snd).count e.op = s.executions e.batch
  settled : ∀ e ∈ s.pushed,
    (s.settled.map Settlement.token).count e.op.token = s.executions e.batch
  tokens : ∀ t ∈ s.settled.map Settlement.token, ∃ e ∈ s.pushed, e.op.token = t
  /-- Batches leave the slot in the order of their numbers, so none does twice. -/
  order : s.departures.map Departure.batch ++ s.pipeline.slot.toList =
    List.range' 1 (s.pipeline.nextId - 1)
  shutdowns : s.departures.countP (fun d => d.cause = .shutdown) =
    if s.pipeline.slot = none then 1 else 0
  /-- After the first batch, one is made for each that leaves the slot while others still come. -/
  made : s.pipeline.nextId = s.departures.countP (fun d => d.cause ≠ .shutdown) + 2
  sizes : ∀ d ∈ s.departures, d.size ≤ (s.held d.batch).length
  full : ∀ d ∈ s.departures, d.cause = .full → size ≤ d.size
  triggers : ∀ id, s.phases.count (.rotating id) ≤ 1
  /-- A caller is about to rotate the batch in the slot if that is full, and just one is. -/
  trigger : ∀ id, s.pipeline.slot = some id →
    s.phases.count (.rotating id) = if size ≤ (s.held id).length then 1 else 0

/-- What every step preserves. -/
structure Sound (size : Nat) (s : System σ) : Prop where
  batchSize : s.pipeline.batchSize = size
  owned : s.Owned
  filled : s.Filled
  delivered : s.Delivered
  tokened : s.Tokened
  rotated : s.Rotated
  triggered : s.Triggered

theorem Sound.made (h : s.Sound size) :
    s.pipeline.nextId = s.departures.countP (fun d => d.cause ≠ .shutdown) + 2 := by
  have horder := congrArg List.length h.rotated.order
  have hshutdowns := h.rotated.shutdowns
  have hpositive := h.filled.positive
  have hsplit := List.length_eq_countP_add_countP
    (p := fun d : Departure => decide (d.cause = .shutdown)) (l := s.departures)
  rw [List.length_append, List.length_map, List.length_range'] at horder
  simp only [decide_eq_true_eq] at hsplit
  simp only [ne_eq]
  cases hslot : s.pipeline.slot with
  | none =>
    rw [hslot, if_pos rfl] at hshutdowns
    rw [hslot, Option.toList_none, List.length_nil] at horder
    omega
  | some id =>
    rw [hslot, if_neg nofun] at hshutdowns
    rw [hslot, Option.toList_some, List.length_singleton] at horder
    omega

theorem Sound.accounted (h : s.Sound size) : s.Accounted size where
  held e he id := by
    rw [held_eq h.filled, List.count_eq_countP]
    refine countP_pushedInto (p := (· == e.op)) h.tokened he (beq_self_eq_true e.op)
      (fun op hop => ?_) id
    rw [eq_of_beq hop]
  pushed id op hop := by
    rw [held_eq h.filled] at hop
    obtain ⟨e, he, rfl⟩ := List.mem_map.1 hop
    obtain ⟨hmem, hid⟩ := List.mem_filter.1 he
    exact ⟨e, hmem, of_decide_eq_true hid, rfl⟩
  range := h.filled.range
  placed id hrange := placed_of_range h.owned h.filled hrange
  calls := h.delivered.calls
  handed e he := by
    rw [List.count_eq_countP]
    refine countP_executed (p := (· == e.op)) h.filled h.tokened he (beq_self_eq_true e.op)
      fun op hop => ?_
    rw [eq_of_beq hop]
  settled e he := by
    rw [h.delivered.tokens, List.count_eq_countP, List.countP_map]
    exact countP_executed h.filled h.tokened he (beq_self_eq_true e.op.token)
      fun op hop => eq_of_beq hop
  tokens t ht := by
    rw [h.delivered.tokens] at ht
    obtain ⟨op, hop, rfl⟩ := List.mem_map.1 ht
    obtain ⟨x, hx, hop⟩ := List.mem_flatMap.1 hop
    rw [h.filled.executed x hx] at hop
    obtain ⟨e, he, rfl⟩ := List.mem_map.1 hop
    exact ⟨e, List.mem_of_mem_filter he, rfl⟩
  order := h.rotated.order
  shutdowns := h.rotated.shutdowns
  made := h.made
  sizes d hd := by
    rw [held_eq h.filled]
    exact h.rotated.size d hd
  full d hd hcause := h.batchSize ▸ h.rotated.full d hd hcause
  triggers := h.triggered.once
  trigger id hslot := by
    rw [held_eq h.filled, ← h.batchSize]
    exact h.triggered.slot id hslot

/-! ## Runs -/

section First

variable (size attempts callers : Nat) (store : σ)

def first : System σ := ofPipeline (Pipeline.empty size attempts).install store callers

theorem count_phases_first (phase : Phase) (hbusy : phase ≠ .idle) :
    (first size attempts callers store).phases.count phase = 0 :=
  List.count_eq_zero.2 fun hmem => hbusy (List.eq_of_mem_replicate hmem)

theorem owned_first : (first size attempts callers store).Owned := by
  have hidle : ∀ id, (first size attempts callers store).executors id = 0 := fun id =>
    (Nat.zero_add _).trans (count_phases_first size attempts callers store (.executing id) nofun)
  refine ⟨Pipeline.wellFormed_install (Pipeline.wellFormed_empty size attempts), fun id => ?_⟩
  have hwaiting := Pipeline.waiting?_first size attempts id
  show (if some 1 = some id then 1 else 0) + _ =
    if ((Pipeline.empty size attempts).install.waiting? id).isSome then 1 else 0
  rw [hidle, hwaiting]
  by_cases hid : id = 1
  · rw [hid]
    rfl
  · simp [hid, Ne.symm hid]

theorem filled_first : (first size attempts callers store).Filled := by
  have hwaiting := Pipeline.waiting?_first size attempts
  refine ⟨?_, nofun, ?_, nofun, Nat.zero_lt_succ 1⟩
  · intro id ops hops
    change (Pipeline.empty size attempts).install.waiting? id = some ops at hops
    rw [hwaiting] at hops
    split at hops
    · cases hops
      rfl
    · cases hops
  · intro id
    show _ + (if ((Pipeline.empty size attempts).install.waiting? id).isSome then 1 else 0) =
      if 0 < id ∧ id < 2 then 1 else 0
    rw [hwaiting]
    by_cases hid : id = 1
    · rw [hid]
      rfl
    · have hrange : ¬ (0 < id ∧ id < 2) := by omega
      rw [if_neg hid, if_neg hrange]
      rfl

theorem tokened_first : (first size attempts callers store).Tokened := by
  constructor
  intro t
  have hnone : (first size attempts callers store).carriers t = 0 := by
    rw [carriers, List.countP_eq_zero]
    intro phase hmem htoken
    rw [List.eq_of_mem_replicate hmem] at htoken
    cases of_decide_eq_true htoken
  rw [hnone]
  exact Nat.zero_le _

theorem sound_first (hsize : 0 < size) : (first size attempts callers store).Sound size where
  batchSize := rfl
  owned := owned_first size attempts callers store
  filled := filled_first size attempts callers store
  delivered := ⟨rfl, rfl⟩
  tokened := tokened_first size attempts callers store
  rotated := ⟨rfl, rfl, nofun, nofun⟩
  triggered := by
    have hquiet : ∀ id, (first size attempts callers store).phases.count (.rotating id) = 0 :=
      fun id => count_phases_first size attempts callers store (.rotating id) nofun
    refine ⟨hsize, fun id => ?_, ?_, ?_⟩
    · rw [hquiet]
      exact Nat.zero_le 1
    · intro id hmem
      exact absurd hmem (List.count_eq_zero.1 (hquiet id))
    · intro id _
      have hlarge : ¬ size ≤ ([] : List PendingOp).length := by
        rw [List.length_nil]
        omega
      rw [hquiet]
      exact (if_neg hlarge).symm

end First

variable [Store σ]

theorem batchSize_move (hmove : s.Move s') : s'.pipeline.batchSize = s.pipeline.batchSize := by
  cases hmove with
  | rotateFull caller id hold hslot =>
    obtain ⟨inFlight, hrotated⟩ := Pipeline.rotateFull_of_slot hslot
    rw [hrotated]
    rfl
  | execute caller id hold => exact batchSize_execute id _
  | background id hmem => exact batchSize_execute id _
  | _ => rfl

theorem sound_step (h : s.Sound size) (a : Action) : (s.step a).Sound size := by
  rcases move_step h.owned.wellFormed a with hsame | hmove
  · rw [hsame]
    exact h
  · exact
      { batchSize := (batchSize_move hmove).trans h.batchSize
        owned := owned_move h.owned hmove
        filled := filled_move h.owned h.filled hmove
        delivered := delivered_move h.delivered hmove
        tokened := tokened_move h.tokened hmove
        rotated := rotated_move h.owned h.filled h.triggered h.rotated hmove
        triggered := triggered_move h.owned h.filled h.triggered hmove }

theorem sound_run (h : s.Sound size) (actions : List Action) : (s.run actions).Sound size := by
  induction actions generalizing s with
  | nil => exact h
  | cons a actions ih => exact ih (sound_step h a)

/-- In whatever order callers take their steps, and the background takes its own, no mutation that
was pushed is lost, handed over twice or left behind, and batches rotate when they are full. -/
theorem accounted_in_any_order (hsize : 0 < size) (attempts callers : Nat) (store : σ)
    (actions : List Action) :
    ∃ p, Pipeline.start true size attempts = .ok p ∧
      ((ofPipeline p store callers).run actions).Accounted size :=
  ⟨_, Pipeline.start_eq hsize attempts,
    (sound_run (sound_first size attempts callers store hsize) actions).accounted⟩

theorem accounted_after_race :
    let m : Request := .enqueue (.delete "k") none
    let actions : List Action :=
      [.start 0 m, .start 1 m, .start 2 m, .advance 0, .advance 1, .advance 2,
        .advance 0, .advance 1, .advance 2, .advance 1, .background 1]
    0 < 2 ∧ ∃ p, Pipeline.start true 2 5 = .ok p ∧
      ((ofPipeline p ({} : Memory) 3).run actions).Accounted 2 ∧
      ((ofPipeline p ({} : Memory) 3).run actions).departures.map Departure.size = [3] := by
  intro m actions
  refine ⟨by decide, ?_⟩
  obtain ⟨p, hstart, haccounted⟩ :=
    accounted_in_any_order (by decide : 0 < 2) 5 3 ({} : Memory) actions
  refine ⟨p, hstart, haccounted, ?_⟩
  rw [Pipeline.start_eq (by decide : 0 < 2) 5] at hstart
  cases hstart
  decide +kernel

end BatchingCache.System
