import BatchingCache.Proofs.Pipeline.Backlog
import BatchingCache.Proofs.Store.Observed
import Mathlib.Data.List.Forall2
/-!
# The shape of batches

One caller queues mutations and flushes now and then, while the batches in the background are
executed oldest first.  What is queued between two flushes reaches the store in full batches and,
if anything is left over, one smaller batch.
-/

namespace BatchingCache.Pipeline

/-! ## Runs of one caller -/

inductive Event where
  | enqueue (op : PendingOp)
  | background
  | flush

def Event.op? : Event → Option PendingOp
  | enqueue op => some op
  | _ => none

inductive Closing where
  | flush
  | shutdown

structure Trace (σ : Type) where
  pipeline : Pipeline
  store : Observed σ
  /-- What the caller was told about each mutation that it queued. -/
  answers : List (Except CacheError Unit) := []
  results : List BatchResult := []

namespace Trace

variable {σ : Type} [Store σ]

def step (t : Trace σ) : Event → Trace σ
  | .enqueue op =>
    { t with
      pipeline := (t.pipeline.enqueue op).2.1
      answers := t.answers ++ [(t.pipeline.enqueue op).1] }
  | .background =>
    { t with
      pipeline := (t.pipeline.runOldest t.store).1
      store := (t.pipeline.runOldest t.store).2.store }
  | .flush =>
    { t with
      pipeline := (t.pipeline.flush t.store).1
      store := (t.pipeline.flush t.store).2.store
      results := t.results ++ [(t.pipeline.flush t.store).2.result] }

def run (t : Trace σ) (events : List Event) : Trace σ := events.foldl step t

def close (t : Trace σ) : Closing → Trace σ
  | .flush => t.step .flush
  | .shutdown =>
    { t with
      pipeline := (t.pipeline.shutdown t.store).1
      store := (t.pipeline.shutdown t.store).2.store
      results := t.results ++ [(t.pipeline.shutdown t.store).2.result] }

end Trace

/-! ## Stretches -/

/-- The mutations queued in a run, cut at the flushes. -/
structure Stretches where
  /-- Those between two flushes. -/
  closed : List (List PendingOp) := []
  /-- Those since the last flush. -/
  current : List PendingOp := []

namespace Stretches

def step (c : Stretches) : Event → Stretches
  | .enqueue op => { c with current := c.current ++ [op] }
  | .background => c
  | .flush => { closed := c.closed ++ [c.current] }

def ofEvents (events : List Event) : Stretches := events.foldl step {}

def all (c : Stretches) : List (List PendingOp) := c.closed ++ [c.current]

theorem flatten_all_foldl (events : List Event) (c : Stretches) :
    (events.foldl step c).all.flatten = c.all.flatten ++ events.filterMap Event.op? := by
  induction events generalizing c with
  | nil => exact (List.append_nil _).symm
  | cons e events ih =>
    rw [List.foldl_cons, ih]
    cases e with
    | enqueue op => simp [step, all, Event.op?]
    | background => rw [List.filterMap_cons_none rfl, step]
    | flush => simp [step, all, List.filterMap_cons, Event.op?]

end Stretches

/-- Mutations are cut into as many full batches as there can be and one with the rest. -/
def CutInto (size : Nat) (ops : List PendingOp) (batches : List (List PendingOp)) : Prop :=
  batches.flatten = ops ∧
    batches.map List.length =
      List.replicate (ops.length / size) size ++
        if ops.length % size = 0 then [] else [ops.length % size]

section Cutting

variable {size : Nat} {chunks : List (List PendingOp)} {rest : List PendingOp}

theorem length_flatten_of_full (hchunks : ∀ ops ∈ chunks, ops.length = size) :
    chunks.flatten.length = chunks.length * size := by
  rw [List.length_flatten, List.map_congr_left hchunks, List.map_const',
    List.sum_replicate_nat]

theorem mod_of_full (hchunks : ∀ ops ∈ chunks, ops.length = size) (hrest : rest.length < size) :
    (chunks.flatten ++ rest).length % size = rest.length := by
  rw [List.length_append, length_flatten_of_full hchunks, Nat.mul_add_mod_self_right,
    Nat.mod_eq_of_lt hrest]

theorem cutInto_of_full (hchunks : ∀ ops ∈ chunks, ops.length = size)
    (hrest : rest.length < size) :
    CutInto size (chunks.flatten ++ rest)
      (chunks ++ [rest].filter fun ops => !ops.isEmpty) := by
  have hmod := mod_of_full hchunks hrest
  have hdiv : (chunks.flatten ++ rest).length / size = chunks.length := by
    rw [List.length_append, length_flatten_of_full hchunks]
    rw [Nat.mul_comm, Nat.mul_add_div (by omega), Nat.div_eq_of_lt hrest, Nat.add_zero]
  have hlengths : chunks.map List.length = List.replicate chunks.length size := by
    rw [List.map_congr_left hchunks, List.map_const']
  rw [CutInto, hmod, hdiv, List.map_append, hlengths, List.flatten_append]
  cases rest with
  | nil => exact ⟨rfl, rfl⟩
  | cons op ops =>
    refine ⟨?_, rfl⟩
    show chunks.flatten ++ ((op :: ops) ++ []) = _
    rw [List.append_nil]

theorem flatten_of_cutInto {stretches : List (List PendingOp)}
    {batches : List (List (List PendingOp))} (h : List.Forall₂ (CutInto size) stretches batches) :
    batches.flatten.flatten = stretches.flatten := by
  induction h with
  | nil => rfl
  | cons hhead _ ih =>
    rw [List.flatten_cons, List.flatten_append, hhead.1, ih, List.flatten_cons]

end Cutting

/-! ## The invariant -/

variable {σ : Type} {size : Nat} {c : Stretches} {t : Trace σ}

/-- The stretches that have ended were sent in `batches`.  The current one is in the batches `sent`
since, in those that wait in the background, and in the one in the slot. -/
structure Shaped (size : Nat) (c : Stretches) (t : Trace σ) (batches : List (List (List PendingOp)))
    (sent : List (List PendingOp)) (full : List Batch) (current : Batch) : Prop where
  backlog : t.pipeline.Backlog size full current
  cut : List.Forall₂ (CutInto size) c.closed batches
  calls : t.store.calls = (batches.flatten ++ sent).map Batch.sent
  lengths : ∀ ops ∈ sent ++ full.map Batch.pending, ops.length = size
  stretch : c.current = (sent ++ full.map Batch.pending).flatten ++ current.pending
  short : current.pending.length < size
  totals : t.results.map BatchResult.total = c.closed.map fun ops => ops.length % size
  accepted : t.answers = c.all.flatten.map fun _ => .ok ()

def Shape (size : Nat) (c : Stretches) (t : Trace σ) : Prop :=
  ∃ batches sent full current, Shaped size c t batches sent full current

theorem Shape.pending_eq (h : Shape size c t) :
    t.pipeline.pending = c.current.length % size := by
  obtain ⟨batches, sent, full, current, h⟩ := h
  rw [h.backlog.pending_eq, h.stretch, mod_of_full h.lengths h.short]

theorem shape_start (hsize : 0 < size) (attempts : Nat) (store : σ) :
    ∃ p, start true size attempts = .ok p ∧ Shape size {} { pipeline := p, store := { store } } := by
  obtain ⟨p, hstart, hbacklog⟩ := backlog_start hsize attempts
  exact ⟨p, hstart, [], [], [], { id := 1 }, hbacklog, .nil, rfl, nofun, rfl, hsize, rfl, rfl⟩

variable [Store σ]

theorem shape_enqueue (hsize : 0 < size) (h : Shape size c t) (op : PendingOp) :
    Shape size (c.step (.enqueue op)) (t.step (.enqueue op)) := by
  obtain ⟨batches, sent, full, current, h⟩ := h
  obtain ⟨haccepted, hqueued⟩ := h.backlog.enqueue op
  have hanswers : (t.step (.enqueue op)).answers =
      (c.step (.enqueue op)).all.flatten.map fun _ => .ok () := by
    show t.answers ++ [(t.pipeline.enqueue op).1] =
      (c.closed ++ [c.current ++ [op]]).flatten.map fun _ => .ok ()
    rw [h.accepted, haccepted, Stretches.all, List.flatten_concat, List.flatten_concat,
      ← List.append_assoc]
    simp only [List.map_append, List.map_cons, List.map_nil]
  have hstretch : (c.step (.enqueue op)).current =
      (sent ++ full.map Batch.pending).flatten ++ (current.extend op).pending := by
    show c.current ++ [op] = _
    rw [h.stretch, Batch.pending_extend, List.append_assoc]
  by_cases hfull : current.pending.length + 1 = size
  · rw [if_pos hfull] at hqueued
    refine ⟨batches, sent, full ++ [current.extend op], { id := t.pipeline.nextId }, hqueued, h.cut,
      h.calls, ?_, ?_, hsize, h.totals, hanswers⟩
    · intro ops hops
      rw [List.map_append, ← List.append_assoc] at hops
      rcases List.mem_append.1 hops with hops | hops
      · exact h.lengths ops hops
      · rw [List.map_singleton, List.mem_singleton] at hops
        rw [hops, Batch.pending_extend, List.length_append, List.length_singleton, hfull]
    · have hmoved : sent ++ (full ++ [current.extend op]).map Batch.pending =
          (sent ++ full.map Batch.pending) ++ [(current.extend op).pending] := by
        rw [List.map_append, List.map_singleton, List.append_assoc]
      rw [hstretch, hmoved, List.flatten_concat]
      exact (List.append_nil _).symm
  · rw [if_neg hfull] at hqueued
    refine ⟨batches, sent, full, current.extend op, hqueued, h.cut, h.calls, h.lengths, hstretch, ?_,
      h.totals, hanswers⟩
    have hshort := h.short
    rw [Batch.pending_extend, List.length_append, List.length_singleton]
    omega

theorem shape_background (hsize : 0 < size) (h : Shape size c t) :
    Shape size c (t.step .background) := by
  obtain ⟨batches, sent, full, current, h⟩ := h
  cases full with
  | nil =>
    have hidle : t.step .background = t := by
      rw [Trace.step, h.backlog.runOldest_nil]
    rw [hidle]
    exact ⟨batches, sent, [], current, h⟩
  | cons b full =>
    obtain ⟨hbacklog, hrun⟩ := h.backlog.runOldest_cons (s := t.store)
    have hmoved : (sent ++ [b.pending]) ++ full.map Batch.pending =
        sent ++ (b :: full).map Batch.pending := by
      rw [List.map_cons, List.append_assoc, List.singleton_append]
    have hlength : b.pending.length = size := h.lengths b.pending (by simp)
    have hnonempty : b.pending.isEmpty = false := by
      rw [List.isEmpty_eq_false_iff, ← List.length_pos_iff]
      omega
    refine ⟨batches, sent ++ [b.pending], full, current, hbacklog, h.cut, ?_, ?_, ?_, h.short,
      h.totals, h.accepted⟩
    · show (t.pipeline.runOldest t.store).2.store.calls = _
      have hsent : [b.pending].filter (fun ops => !ops.isEmpty) = [b.pending] := by
        rw [List.filter_singleton, hnonempty]
        rfl
      rw [hrun, Observed.calls_run, h.calls, hsent, ← List.map_append, List.append_assoc]
    · rw [hmoved]
      exact h.lengths
    · rw [hmoved]
      exact h.stretch

/-- What a flush and a shutdown have in common: all batches are executed, the current one last. -/
theorem Shaped.close {batches : List (List (List PendingOp))} {sent : List (List PendingOp)}
    {full : List Batch} {current : Batch} (hsize : 0 < size)
    (h : Shaped size c t batches sent full current) (last : Closing) :
    ∃ tail, CutInto size c.current tail ∧
      (t.close last).store.calls = ((batches ++ [tail]).flatten).map Batch.sent ∧
      (t.close last).results.map BatchResult.total = c.all.map (fun ops => ops.length % size) ∧
      (t.close last).answers = t.answers ∧ (t.close last).pipeline.pending = 0 := by
  refine ⟨_, h.stretch ▸ cutInto_of_full h.lengths h.short, ?_⟩
  have hfull : (full.map Batch.pending).filter (fun ops => !ops.isEmpty) =
      full.map Batch.pending := by
    rw [List.filter_eq_self]
    intro ops hops
    have hlength := h.lengths ops (List.mem_append_right _ hops)
    rw [Bool.not_eq_true', List.isEmpty_eq_false_iff, ← List.length_pos_iff]
    omega
  have hparts : ((full ++ [current]).map Batch.pending).filter (fun ops => !ops.isEmpty) =
      full.map Batch.pending ++ [current.pending].filter fun ops => !ops.isEmpty := by
    rw [List.map_append, List.filter_append, hfull, List.map_singleton]
  have hcalls : (Batch.storeAfter (full ++ [current]) t.store).calls =
      (batches ++ [sent ++ full.map Batch.pending ++
        [current.pending].filter fun ops => !ops.isEmpty]).flatten.map Batch.sent := by
    rw [Observed.calls_storeAfter, h.calls, hparts, List.flatten_concat]
    simp only [List.map_append, List.append_assoc]
  have htotals : ∀ r : BatchResult, r.total = current.pending.length →
      (t.results ++ [r]).map BatchResult.total = c.all.map fun ops => ops.length % size := by
    intro r hr
    rw [Stretches.all, List.map_append, List.map_append, h.totals, List.map_singleton,
      List.map_singleton, hr, h.stretch, mod_of_full h.lengths h.short]
  cases last with
  | flush =>
    obtain ⟨hbacklog, hstore, -, htotal⟩ := h.backlog.flush (s := t.store)
    refine ⟨?_, htotals _ htotal, rfl, hbacklog.pending_eq⟩
    rw [← hcalls, ← hstore]
    rfl
  | shutdown =>
    obtain ⟨hslot, hstore, -, htotal⟩ := h.backlog.shutdown (s := t.store)
    refine ⟨?_, htotals _ htotal, rfl, ?_⟩
    · rw [← hcalls, ← hstore]
      rfl
    · show (t.pipeline.shutdown t.store).1.pending = 0
      rw [pending, hslot]
      rfl

theorem shape_flush (hsize : 0 < size) (h : Shape size c t) :
    Shape size (c.step .flush) (t.step .flush) := by
  obtain ⟨batches, sent, full, current, h⟩ := h
  obtain ⟨tail, htail, hcalls, htotals, -⟩ := h.close hsize .flush
  obtain ⟨hbacklog, -⟩ := h.backlog.flush (s := t.store)
  refine ⟨batches ++ [tail], [], [], { id := t.pipeline.nextId }, hbacklog, ?_, ?_, nofun, rfl,
    hsize, htotals, ?_⟩
  · exact List.rel_append h.cut (.cons htail .nil)
  · rw [List.append_nil]
    exact hcalls
  · show t.answers = (c.all ++ [[]]).flatten.map _
    rw [h.accepted, List.flatten_concat, List.append_nil]

theorem shape_step (hsize : 0 < size) (h : Shape size c t) (e : Event) :
    Shape size (c.step e) (t.step e) := by
  cases e with
  | enqueue op => exact shape_enqueue hsize h op
  | background => exact shape_background hsize h
  | flush => exact shape_flush hsize h

theorem shape_run (hsize : 0 < size) (h : Shape size c t) (events : List Event) :
    Shape size (events.foldl Stretches.step c) (t.run events) := by
  induction events generalizing c t with
  | nil => exact h
  | cons e events ih => exact ih (shape_step hsize h e)

/-! ## The shape -/

/-- The store is sent the mutations in the order in which they were queued.  Each stretch between two
flushes is cut into full batches and one with the rest.  The rest is what waits in the slot at every
moment, and what a flush counts. -/
theorem full_batches_and_rest (hsize : 0 < size) (attempts : Nat) (store : σ) (events : List Event)
    (last : Closing) :
    ∃ p, start true size attempts = .ok p ∧
      let run := (⟨p, ⟨store, []⟩, [], []⟩ : Trace σ).run
      let stretches := (Stretches.ofEvents events).all
      let closed := (run events).close last
      (∀ before, before <+: events →
        (run before).pipeline.pending = (Stretches.ofEvents before).current.length % size ∧
        (run before).pipeline.pending < size) ∧
      closed.answers = (events.filterMap Event.op?).map (fun _ => .ok ()) ∧
      closed.results.map BatchResult.total = stretches.map (fun ops => ops.length % size) ∧
      closed.pipeline.pending = 0 ∧
      ∃ batches : List (List (List PendingOp)),
        List.Forall₂ (CutInto size) stretches batches ∧
        closed.store.calls = batches.flatten.map Batch.sent ∧
        batches.flatten.flatten = events.filterMap Event.op? := by
  obtain ⟨p, hstart, hshape⟩ := shape_start hsize attempts store
  refine ⟨p, hstart, ?_⟩
  intro run stretches closed
  have hordered : stretches.flatten = events.filterMap Event.op? :=
    Stretches.flatten_all_foldl events {}
  obtain ⟨batches, sent, full, current, hend⟩ := shape_run hsize hshape events
  obtain ⟨tail, htail, hcalls, htotals, hanswers, hpending⟩ := hend.close hsize last
  have hcut : List.Forall₂ (CutInto size) stretches (batches ++ [tail]) :=
    List.rel_append hend.cut (.cons htail .nil)
  refine ⟨?_, ?_, htotals, hpending, batches ++ [tail], hcut, hcalls, ?_⟩
  · intro before _
    have hbefore := (shape_run hsize hshape before).pending_eq
    refine ⟨hbefore, ?_⟩
    rw [hbefore]
    exact Nat.mod_lt _ hsize
  · show closed.answers = _
    rw [hanswers, hend.accepted, ← hordered]
    rfl
  · rw [flatten_of_cutInto hcut, hordered]

theorem pairs_and_rest :
    let op : PendingOp := ⟨.delete "k", none, 0⟩
    let three : List Event := [.enqueue op, .enqueue op, .enqueue op]
    let events := three ++ [.background, .flush, .enqueue op]
    0 < 2 ∧ ∃ p, start true 2 5 = .ok p ∧
      let run := (⟨p, ⟨({} : Memory), []⟩, [], []⟩ : Trace Memory).run
      (run three).pipeline.pending = 1 ∧
        ((run events).close .shutdown).results.map BatchResult.total = [1, 1] := by
  intro op three events
  refine ⟨by decide, ?_⟩
  obtain ⟨p, hstart, hpending, -, htotals, -⟩ :=
    full_batches_and_rest (by decide : 0 < 2) 5 ({} : Memory) events .shutdown
  have hthree : (Stretches.ofEvents three).current.length % 2 = 1 := by decide
  have hrests : (Stretches.ofEvents events).all.map (fun ops => ops.length % 2) = [1, 1] := by
    decide
  exact ⟨p, hstart, (hpending three ⟨_, rfl⟩).1.trans hthree, htotals.trans hrests⟩

end BatchingCache.Pipeline
