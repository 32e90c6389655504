import BatchingCache.Proofs.Batch.Settlement
import BatchingCache.Proofs.Pipeline.Steps
import Mathlib.Data.List.Nodup
/-!
# Backlogs

While one caller works with a pipeline, its full batches wait in the background in the order in
which they left the slot, and after them there is only the batch in the slot.
-/

namespace BatchingCache

def Batch.extend (op : PendingOp) (b : Batch) : Batch :=
  { b with state := .accumulating (b.pending ++ [op]) }

@[simp] theorem Batch.pending_extend (op : PendingOp) (b : Batch) :
    (b.extend op).pending = b.pending ++ [op] := rfl

@[simp] theorem Batch.pending_fresh (id : Nat) : ({ id } : Batch).pending = [] := rfl

namespace Pipeline

variable {size : Nat} {p : Pipeline} {full : List Batch} {b current : Batch}

/-- A pipeline that takes mutations, with full batches in the background and one in the slot. -/
structure Backlog (p : Pipeline) (size : Nat) (full : List Batch) (current : Batch) : Prop where
  batchSize : p.batchSize = size
  attempts : 0 < p.maxAttempts
  batches : p.batches = full ++ [current]
  background : p.background = full.map Batch.id
  slot : p.slot = some current.id
  distinct : (p.batches.map Batch.id).Nodup
  wellFormed : p.WellFormed

theorem nodup_ids_install (h : p.WellFormed) (hd : (p.batches.map Batch.id).Nodup) :
    (p.install.batches.map Batch.id).Nodup := by
  show ((p.batches ++ [({ id := p.nextId } : Batch)]).map Batch.id).Nodup
  rw [List.map_append, List.map_singleton, ← List.concat_eq_append]
  apply hd.concat
  intro hmem
  obtain ⟨b, hb, hid⟩ := List.mem_map.1 hmem
  have hlt := h.numbered b hb
  rw [hid] at hlt
  exact Nat.lt_irrefl _ hlt

theorem backlog_first (size attempts : Nat) :
    (empty size attempts).install.Backlog size [] { id := 1 } := by
  have hempty := wellFormed_empty size attempts
  refine ⟨rfl, ?_, rfl, rfl, rfl, ?_, wellFormed_install hempty⟩
  · show 0 < max attempts 1
    omega
  · exact nodup_ids_install hempty List.nodup_nil

theorem backlog_start (hsize : 0 < size) (attempts : Nat) :
    ∃ p, start true size attempts = .ok p ∧ p.Backlog size [] { id := 1 } :=
  ⟨_, start_eq hsize attempts, backlog_first size attempts⟩

theorem ne_id_of_split {front back : List Batch}
    (hd : ((front ++ b :: back).map Batch.id).Nodup) :
    (∀ b' ∈ front, b'.id ≠ b.id) ∧ ∀ b' ∈ back, b'.id ≠ b.id := by
  rw [List.map_append, List.map_cons, List.nodup_append, List.nodup_cons] at hd
  obtain ⟨-, ⟨hback, -⟩, hfront⟩ := hd
  constructor
  · exact fun b' hb' => hfront b'.id (List.mem_map_of_mem hb') b.id List.mem_cons_self
  · exact fun b' hb' heq => hback (heq ▸ List.mem_map_of_mem hb')

theorem waiting?_of_mem (hd : (p.batches.map Batch.id).Nodup) (hb : b ∈ p.batches) :
    p.waiting? b.id = some b.pending := by
  obtain ⟨front, back, hsplit⟩ := List.append_of_mem hb
  rw [hsplit] at hd
  have hfront : front.find? (fun b' => b'.id = b.id) = none := by
    rw [List.find?_eq_none]
    intro b' hb'
    simpa using (ne_id_of_split hd).1 b' hb'
  have hfind : p.batch? b.id = some b := by
    rw [batch?, hsplit, List.find?_append, hfront, List.find?_cons_of_pos (by simp)]
    rfl
  rw [waiting?, hfind, Option.map_some]

theorem Backlog.waiting?_current (h : p.Backlog size full current) :
    p.waiting? current.id = some current.pending := by
  apply waiting?_of_mem h.distinct
  rw [h.batches]
  exact List.mem_append_right _ (List.mem_singleton_self _)

theorem Backlog.pending_eq (h : p.Backlog size full current) :
    p.pending = current.pending.length := by
  have hwaiting := h.waiting?_current
  rw [waiting?, Option.map_eq_some_iff] at hwaiting
  obtain ⟨b, hb, hpending⟩ := hwaiting
  rw [pending, h.slot, Option.bind_some, hb, ← hpending]
  rfl

/-! ## Queueing -/

theorem batches_extend {front back : List Batch} (hd : (p.batches.map Batch.id).Nodup)
    (hsplit : p.batches = front ++ b :: back) (op : PendingOp) :
    (p.replace (b.extend op)).batches = front ++ b.extend op :: back := by
  rw [hsplit] at hd
  obtain ⟨hfront, hback⟩ := ne_id_of_split hd
  have hkeep : ∀ bs : List Batch, (∀ b' ∈ bs, b'.id ≠ b.id) →
      bs.map (fun b' => if b'.id = b.id then b.extend op else b') = bs := by
    intro bs hbs
    calc
      _ = bs.map fun b' => b' := by
        apply List.map_congr_left
        intro b' hb'
        exact if_neg (hbs b' hb')
      _ = bs := List.map_id' bs
  show p.batches.map _ = _
  rw [hsplit, List.map_append, List.map_cons]
  congr 1
  · exact hkeep front hfront
  · congr 1
    · exact if_pos rfl
    · exact hkeep back hback

theorem Backlog.replace_current (h : p.Backlog size full current) (op : PendingOp) :
    (p.replace (current.extend op)).Backlog size full (current.extend op) := by
  have hmem : current ∈ p.batches := by
    rw [h.batches]
    exact List.mem_append_right _ (List.mem_singleton_self _)
  have hd := h.distinct
  have hbatches := batches_extend hd h.batches op
  refine ⟨h.batchSize, h.attempts, hbatches, h.background, h.slot, ?_, ?_⟩
  · rw [hbatches, List.map_append]
    rw [h.batches, List.map_append] at hd
    exact hd
  · exact wellFormed_replace h.wellFormed rfl (h.wellFormed.numbered current hmem)

theorem Backlog.countEnqueued (h : p.Backlog size full current) (op : PendingOp) :
    (p.replace (current.extend op)).countEnqueued.Backlog size full (current.extend op) := by
  have hextended := h.replace_current op
  exact ⟨hextended.batchSize, hextended.attempts, hextended.batches, hextended.background,
    hextended.slot, hextended.distinct,
    ⟨hextended.wellFormed.accumulating, hextended.wellFormed.numbered⟩⟩

theorem Backlog.rotateFull (h : p.Backlog size full current) :
    (p.rotateFull current.id).1.Backlog size (full ++ [current]) { id := p.nextId } := by
  obtain ⟨inFlight, hrotated⟩ := rotateFull_of_slot h.slot
  rw [hrotated]
  refine ⟨h.batchSize, h.attempts, ?_, ?_, rfl, nodup_ids_install h.wellFormed h.distinct, ?_⟩
  · show p.batches ++ [_] = _
    rw [h.batches]
  · show p.background ++ [current.id] = _
    rw [h.background, List.map_append, List.map_singleton]
  · have hinstalled := wellFormed_install h.wellFormed
    exact ⟨hinstalled.accumulating, hinstalled.numbered⟩

/-- A mutation is taken by the batch in the slot, which leaves the slot once it is full. -/
theorem Backlog.enqueue (h : p.Backlog size full current) (op : PendingOp) :
    (p.enqueue op).1 = .ok () ∧
      (if current.pending.length + 1 = size then
        (p.enqueue op).2.1.Backlog size (full ++ [current.extend op]) { id := p.nextId }
      else (p.enqueue op).2.1.Backlog size full (current.extend op)) := by
  have hqueued :=
    enqueue_of_waiting? op h.wellFormed h.attempts h.slot h.waiting?_current
  have hcounted := h.countEnqueued op
  refine ⟨hqueued.1, ?_⟩
  rw [hqueued.2, h.batchSize]
  split
  · exact hcounted.rotateFull
  · exact hcounted

/-! ## Executing -/

section Executing

variable {σ : Type} [Store σ] {s : σ}

theorem filter_ids {front back : List Batch} (hd : ((front ++ b :: back).map Batch.id).Nodup) :
    (front ++ b :: back).filter (fun b' => b'.id ≠ b.id) = front ++ back := by
  obtain ⟨hfront, hback⟩ := ne_id_of_split hd
  have hfront : front.filter (fun b' => b'.id ≠ b.id) = front := by
    rw [List.filter_eq_self]
    intro b' hb'
    simpa using hfront b' hb'
  have hback : back.filter (fun b' => b'.id ≠ b.id) = back := by
    rw [List.filter_eq_self]
    intro b' hb'
    simpa using hback b' hb'
  rw [List.filter_append, List.filter_cons_of_neg (by simp), hfront, hback]

theorem executeBatch_of_split (front back : List Batch) (hsplit : p.batches = front ++ b :: back)
    (hd : (p.batches.map Batch.id).Nodup) :
    p.executeBatch b.id s = ({ p with batches := front ++ back }, Batch.run b.id b.pending s) := by
  have hmem : b ∈ p.batches := hsplit ▸ List.mem_append_right _ List.mem_cons_self
  rw [executeBatch_eq, waiting?_of_mem hd hmem, without, hsplit, filter_ids (hsplit ▸ hd)]
  rfl

theorem executeBatch_of_batches {rest : List Batch} (hb : p.batches = b :: rest)
    (hd : (p.batches.map Batch.id).Nodup) :
    p.executeBatch b.id s = ({ p with batches := rest }, Batch.run b.id b.pending s) :=
  executeBatch_of_split [] rest hb hd

theorem executeAll_of_batches {rest : List Batch} (hb : p.batches = full ++ rest)
    (hd : (p.batches.map Batch.id).Nodup) :
    (executeAll (full.map Batch.id) p s).1 = { p with batches := rest } ∧
      (executeAll (full.map Batch.id) p s).2.store = Batch.storeAfter full s ∧
      (executeAll (full.map Batch.id) p s).2.settled = Batch.settledBy full s := by
  induction full generalizing p s with
  | nil =>
    rw [List.nil_append] at hb
    refine ⟨?_, rfl, rfl⟩
    rw [← hb]
    rfl
  | cons b bs ih =>
    rw [List.cons_append] at hb
    have hhead := executeBatch_of_batches (s := s) hb hd
    have hrest : (((bs ++ rest).map Batch.id)).Nodup := by
      rw [hb] at hd
      exact (List.nodup_cons.1 hd).2
    obtain ⟨hpipeline, hstore, hsettled⟩ :=
      ih (p := { p with batches := bs ++ rest }) (s := (Batch.run b.id b.pending s).store)
        rfl hrest
    rw [List.map_cons, executeAll, hhead]
    refine ⟨hpipeline, hstore, ?_⟩
    show (Batch.run b.id b.pending s).settled ++ _ = _
    rw [hsettled, Batch.settledBy]

/-- The batches in the background are executed before the one that was taken out of the slot. -/
theorem finish_of_batches {rest : List Batch} (hb : p.batches = full ++ current :: rest)
    (hbackground : p.background = full.map Batch.id) (hd : (p.batches.map Batch.id).Nodup) :
    (p.finish (some current.id) s).1 =
        countFlushed { p with batches := rest, background := [], inFlight := [] } ∧
      (p.finish (some current.id) s).2.store = Batch.storeAfter (full ++ [current]) s ∧
      (p.finish (some current.id) s).2.settled = Batch.settledBy (full ++ [current]) s ∧
      (p.finish (some current.id) s).2.result.total = current.pending.length := by
  obtain ⟨hpipeline, hstore, hsettled⟩ :=
    executeAll_of_batches (p := { p with inFlight := [], background := [] }) (s := s) hb hd
  rw [← hbackground] at hpipeline hstore hsettled
  have htaken := executeBatch_of_batches
    (p := countFlushed { p with batches := current :: rest, background := [], inFlight := [] })
    (s := Batch.storeAfter full s) rfl
    (by
      rw [hb, List.map_append, List.nodup_append] at hd
      exact hd.2.1)
  have hfinish : p.finish (some current.id) s =
      let all := executeAll p.background { p with inFlight := [], background := [] } s
      let last := all.1.countFlushed.executeBatch current.id all.2.store
      (last.1, ⟨last.2.result, last.2.store, all.2.settled ++ last.2.settled,
        all.2.metrics ++ [.batchesInFlight 0] ++ last.2.metrics⟩) := rfl
  rw [hfinish]
  simp only [hpipeline, hstore, hsettled]
  rw [Batch.storeAfter_append, Batch.settledBy_append]
  refine ⟨congrArg Prod.fst htaken, ?_, ?_, ?_⟩
  · exact congrArg (fun r => r.2.store) htaken
  · rw [Batch.settledBy, Batch.settledBy, List.append_nil]
    exact congrArg (fun r => Batch.settledBy full s ++ r.2.settled) htaken
  · rw [← Batch.total_run current.id current.pending (Batch.storeAfter full s)]
    exact congrArg (fun r => r.2.result.total) htaken

theorem Backlog.of_sublist {rest : List Batch} (h : p.Backlog size full current)
    (hrest : rest.Sublist full) :
    { p with background := rest.map Batch.id, batches := rest ++ [current] }.Backlog
      size rest current := by
  have hbatches : (rest ++ [current]).Sublist p.batches := by
    rw [h.batches]
    exact hrest.append_right _
  refine ⟨h.batchSize, h.attempts, rfl, rfl, h.slot, h.distinct.sublist (hbatches.map _), ?_⟩
  exact ⟨fun b' hb' => h.wellFormed.accumulating b' (hbatches.subset hb'),
    fun b' hb' => h.wellFormed.numbered b' (hbatches.subset hb')⟩

theorem Backlog.runOldest_nil (h : p.Backlog size [] current) :
    p.runOldest s = (p, ⟨{}, s, [], []⟩) := by
  rw [runOldest, h.background]
  rfl

theorem Backlog.runOldest_cons (h : p.Backlog size (b :: full) current) :
    (p.runOldest s).1.Backlog size full current ∧
      (p.runOldest s).2 = Batch.run b.id b.pending s := by
  have hhead := executeBatch_of_batches (p := { p with background := full.map Batch.id }) (s := s)
    h.batches h.distinct
  have hrun : p.runOldest s =
      ({ p with background := full.map Batch.id, batches := full ++ [current] },
        Batch.run b.id b.pending s) := by
    rw [runOldest, h.background]
    exact hhead
  rw [hrun]
  exact ⟨h.of_sublist (List.sublist_cons_self b full), rfl⟩

/-- The batches in the background can be executed in any order. -/
theorem Backlog.executeBatch (h : p.Backlog size full current) {id : Nat} (hid : id ∈ p.background) :
    let r := { p with background := p.background.erase id }.executeBatch id s
    ∃ front b back, full = front ++ b :: back ∧ r.2 = Batch.run id b.pending s ∧
      r.1 = { p with
        background := (front ++ back).map Batch.id, batches := front ++ back ++ [current] } ∧
      r.1.Backlog size (front ++ back) current := by
  intro r
  rw [h.background] at hid
  obtain ⟨b, hb, rfl⟩ := List.mem_map.1 hid
  obtain ⟨front, back, rfl⟩ := List.append_of_mem hb
  have hd := h.distinct
  have hbatches : p.batches = front ++ b :: (back ++ [current]) := by
    rw [h.batches, List.append_assoc, List.cons_append]
  have hbackground : p.background.erase b.id = (front ++ back).map Batch.id := by
    have hnot : b.id ∉ front.map Batch.id := by
      rw [hbatches] at hd
      intro hmem
      obtain ⟨b', hb', heq⟩ := List.mem_map.1 hmem
      exact (ne_id_of_split hd).1 b' hb' heq
    rw [h.background, List.map_append, List.map_cons, List.erase_append_right _ hnot,
      List.erase_cons_head, List.map_append]
  have hr : r =
      ({ p with
          background := (front ++ back).map Batch.id, batches := front ++ back ++ [current] },
        Batch.run b.id b.pending s) := by
    have hrun := executeBatch_of_split (p := { p with background := p.background.erase b.id })
      (s := s) front (back ++ [current]) hbatches hd
    rw [← hbackground, List.append_assoc]
    exact hrun
  refine ⟨front, b, back, rfl, by rw [hr], by rw [hr], ?_⟩
  rw [hr]
  exact h.of_sublist ((List.sublist_cons_self b back).append_left front)

theorem Backlog.flush_eq (h : p.Backlog size full current) :
    (p.flush s).1 = countFlushed { p.install with
        batches := [{ id := p.nextId }], background := [], inFlight := [] } ∧
      (p.flush s).2.store = Batch.storeAfter (full ++ [current]) s ∧
      (p.flush s).2.settled = Batch.settledBy (full ++ [current]) s ∧
      (p.flush s).2.result.total = current.pending.length := by
  have hb : p.install.batches = full ++ current :: [{ id := p.nextId }] := by
    show p.batches ++ [_] = _
    rw [h.batches, List.append_assoc, List.singleton_append]
  have hd := nodup_ids_install h.wellFormed h.distinct
  have hflush : p.flush s =
      ((p.install.finish (some current.id) s).1,
        { (p.install.finish (some current.id) s).2 with
          metrics := [.rotation] ++ (p.install.finish (some current.id) s).2.metrics }) := by
    rw [Pipeline.flush, rotate, h.slot]
  rw [hflush]
  exact finish_of_batches hb h.background hd

theorem Backlog.flush (h : p.Backlog size full current) :
    (p.flush s).1.Backlog size [] { id := p.nextId } ∧
      (p.flush s).2.store = Batch.storeAfter (full ++ [current]) s ∧
      (p.flush s).2.settled = Batch.settledBy (full ++ [current]) s ∧
      (p.flush s).2.result.total = current.pending.length := by
  obtain ⟨hpipeline, hstore, hsettled, htotal⟩ := h.flush_eq (s := s)
  refine ⟨?_, hstore, hsettled, htotal⟩
  rw [hpipeline]
  refine ⟨h.batchSize, h.attempts, rfl, rfl, rfl, List.nodup_singleton _, ?_⟩
  have hinstalled := wellFormed_install h.wellFormed
  have hfresh : ({ id := p.nextId } : Batch) ∈ p.install.batches :=
    List.mem_append_right _ (List.mem_singleton_self _)
  constructor
  · intro b' hb'
    rw [List.mem_singleton.1 hb']
    rfl
  · intro b' hb'
    rw [List.mem_singleton.1 hb']
    exact hinstalled.numbered _ hfresh

theorem Backlog.shutdown_eq (h : p.Backlog size full current) :
    (p.shutdown s).1 = countFlushed { p with
        slot := none, batches := [], background := [], inFlight := [] } ∧
      (p.shutdown s).2.store = Batch.storeAfter (full ++ [current]) s ∧
      (p.shutdown s).2.settled = Batch.settledBy (full ++ [current]) s ∧
      (p.shutdown s).2.result.total = current.pending.length := by
  have hshutdown : p.shutdown s = { p with slot := none }.finish (some current.id) s := by
    rw [Pipeline.shutdown, takeLast, h.slot]
  rw [hshutdown]
  exact finish_of_batches (p := { p with slot := none }) h.batches h.background h.distinct

theorem Backlog.shutdown (h : p.Backlog size full current) :
    (p.shutdown s).1.slot = none ∧
      (p.shutdown s).2.store = Batch.storeAfter (full ++ [current]) s ∧
      (p.shutdown s).2.settled = Batch.settledBy (full ++ [current]) s ∧
      (p.shutdown s).2.result.total = current.pending.length := by
  obtain ⟨hpipeline, hrest⟩ := h.shutdown_eq (s := s)
  exact ⟨congrArg Pipeline.slot hpipeline, hrest⟩

end Executing

end Pipeline

end BatchingCache
