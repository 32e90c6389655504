import BatchingCache.Proofs.Pipeline.Steps
import BatchingCache.Proofs.Store.Confinement
/-!
# Pipelines that keep to their keys

As long as all mutations that wait are about some keys, nothing that a pipeline executes reads or
changes anything else.
-/

namespace BatchingCache

open Memory

variable {P : String → Prop} {id : Nat} {op : PendingOp}

theorem Batch.confined_run (id : Nat) {ops : List PendingOp} (h : ∀ op ∈ ops, P op.mutation.key) :
    Confined P fun s => (((run id ops s).result, (run id ops s).settled), (run id ops s).store) := by
  cases ops with
  | nil => exact confined_return P (({}, []) : BatchResult × List Settlement)
  | cons op ops =>
    have hwithin : (Call.batch ((op :: ops).map PendingOp.mutation)).Within P := by
      intro m hm
      obtain ⟨op', hop', rfl⟩ := List.mem_map.1 hm
      exact h op' hop'
    exact (confined_call hwithin).map fun answer : Except StoreError (List Reply) =>
      (tally (settle id (op :: ops) answer), settle id (op :: ops) answer)

namespace Pipeline

variable {p q : Pipeline}

def Holds (P : String → Prop) (p : Pipeline) : Prop :=
  ∀ b ∈ p.batches, ∀ op ∈ b.pending, P op.mutation.key

theorem Holds.install (h : p.Holds P) : p.install.Holds P := by
  intro b hb op hop
  rcases List.mem_append.1 hb with hb | hb
  · exact h b hb op hop
  · rw [List.mem_singleton.1 hb] at hop
    cases hop

theorem Holds.rotate (h : p.Holds P) : p.rotate.2.1.Holds P := by
  unfold Pipeline.rotate
  split
  · exact h
  · exact h.install

theorem Holds.without (h : p.Holds P) (id : Nat) : (p.without id).Holds P :=
  fun b hb => h b (List.mem_of_mem_filter hb)

/-! ## Queueing -/

theorem Holds.push (h : p.Holds P) (hop : P op.mutation.key) {length : Nat}
    (hpush : p.push id op = .ok (length, q)) : q.Holds P := by
  unfold Pipeline.push at hpush
  cases hb : p.batch? id with
  | none =>
    rw [hb] at hpush
    cases hpush
  | some b =>
    obtain ⟨id', state⟩ := b
    cases state with
    | retired =>
      rw [hb] at hpush
      cases hpush
    | accumulating ops =>
      rw [hb] at hpush
      cases hpush
      intro b hmem op' hop'
      obtain ⟨b', hmem', rfl⟩ := List.mem_map.1 hmem
      split at hop'
      · rcases List.mem_append.1 hop' with hop' | hop'
        · exact h _ (mem_and_id_of_batch? hb).1 op' hop'
        · rw [List.mem_singleton.1 hop']
          exact hop
      · exact h b' hmem' op' hop'

theorem Holds.rotateFull (h : p.Holds P) (id : Nat) : (p.rotateFull id).1.Holds P := by
  unfold Pipeline.rotateFull
  split
  · exact h.install
  · exact h

theorem Holds.enqueueWithin (h : p.Holds P) (hop : P op.mutation.key) (attempts : Nat) :
    (p.enqueueWithin op attempts).2.1.Holds P := by
  induction attempts generalizing p with
  | zero => exact h
  | succ attempts ih =>
    cases hattempt : p.attempt op with
    | error reason =>
      rw [(enqueueWithin_of_error attempts hattempt).2]
      exact ih (p := p.countRetry) h
    | ok taken =>
      obtain ⟨id, length, q⟩ := taken
      have hq : q.countEnqueued.Holds P := by
        unfold Pipeline.attempt at hattempt
        cases hslot : p.slot with
        | none =>
          rw [hslot] at hattempt
          cases hattempt
        | some id' =>
          rw [hslot] at hattempt
          cases hpush : p.push id' op with
          | error reason =>
            simp only [hpush] at hattempt
            cases hattempt
          | ok r =>
            obtain ⟨length', q'⟩ := r
            simp only [hpush] at hattempt
            cases hattempt
            have hpushed : q'.Holds P := h.push hop hpush
            exact hpushed
      rw [(enqueueWithin_of_ok attempts hattempt).2]
      split
      · exact hq.rotateFull id
      · exact hq

/-! ## Executing -/

/-- An execution keeps to the keys that satisfy `P`, and so do all that can come after it. -/
structure KeepsTo (P : String → Prop) (f : Memory → Pipeline × Execution Memory) : Prop where
  confined : Confined P fun s => (((f s).1, (f s).2.result, (f s).2.settled), (f s).2.store)
  holds : ∀ s, (f s).1.Holds P

theorem keepsTo_nothing (h : p.Holds P) : KeepsTo P fun s => (p, ⟨{}, s, [], []⟩) :=
  ⟨confined_return P (p, ({} : BatchResult), ([] : List Settlement)), fun _ => h⟩

theorem keepsTo_executeBatch (h : p.Holds P) (id : Nat) : KeepsTo P (p.executeBatch id) := by
  have hops : ∀ op ∈ (p.waiting? id).getD [], P op.mutation.key := by
    unfold waiting?
    cases hb : p.batch? id with
    | none => exact nofun
    | some b => exact h b (mem_and_id_of_batch? hb).1
  constructor
  · simp only [executeBatch_eq]
    exact (Batch.confined_run id hops).map fun r => (p.without id, r)
  · intro s
    rw [executeBatch_eq]
    exact h.without id

theorem KeepsTo.andThen {f : Memory → Pipeline × Execution Memory}
    {g : Pipeline → Memory → Pipeline × Execution Memory} (hf : KeepsTo P f)
    (hg : ∀ p, p.Holds P → KeepsTo P (g p)) :
    KeepsTo P fun s =>
      ((g (f s).1 (f s).2.store).1,
        ⟨(g (f s).1 (f s).2.store).2.result, (g (f s).1 (f s).2.store).2.store,
          (f s).2.settled ++ (g (f s).1 (f s).2.store).2.settled,
          (f s).2.metrics ++ (g (f s).1 (f s).2.store).2.metrics⟩) := by
  constructor
  · exact Confined.bind (g := fun r s =>
      (((g r.1 s).1, (g r.1 s).2.result, r.2.2 ++ (g r.1 s).2.settled), (g r.1 s).2.store))
      hf.confined fun s => ((hg _ (hf.holds s)).confined.map fun r => (r.1, r.2.1, _ ++ r.2.2))
  · intro s
    exact (hg _ (hf.holds s)).holds _

theorem keepsTo_executeAll (h : p.Holds P) (ids : List Nat) : KeepsTo P (executeAll ids p) := by
  induction ids generalizing p with
  | nil => exact keepsTo_nothing h
  | cons id ids ih => exact (keepsTo_executeBatch h id).andThen fun p hp => ih hp

theorem keepsTo_finish (h : p.Holds P) (taken : Option Nat) : KeepsTo P (p.finish taken) := by
  have hdrain : KeepsTo P p.drain := by
    have hall : KeepsTo P (executeAll p.background { p with background := [], inFlight := [] }) :=
      keepsTo_executeAll (p := { p with background := [], inFlight := [] }) h _
    exact ⟨hall.confined, hall.holds⟩
  refine hdrain.andThen (g := executeTaken taken) fun p hp => ?_
  cases taken with
  | none => exact keepsTo_nothing hp
  | some id => exact keepsTo_executeBatch (p := p.countFlushed) hp id

theorem keepsTo_flush (h : p.Holds P) : KeepsTo P p.flush := by
  have hfinish := keepsTo_finish h.rotate p.rotate.1
  exact ⟨hfinish.confined, hfinish.holds⟩

theorem keepsTo_shutdown (h : p.Holds P) : KeepsTo P p.shutdown :=
  keepsTo_finish (p := p.takeLast.2) h _

end Pipeline

end BatchingCache
