import BatchingCache.Proofs.Pipeline.Backlog
/-!
# Flushes that overlap

A flush or a shutdown takes the batch out of the slot, and with it the list of the batches in the
background whose ends it has to wait for; it waits for them, executes the batch that it took and
returns.  Others can flush, shut down and queue mutations in between.

The list is taken as a whole, so a call does not wait for what is on the list of another call.
-/

namespace BatchingCache

/-- A flush or a shutdown that waits: the batch that it took out of the slot, and those in the
background that it waits for.  Calls are numbered in the order in which they start. -/
structure Drain where
  call : Nat
  taken : Option Nat
  awaited : List Nat
  deriving DecidableEq

structure Overlap (σ : Type) where
  pipeline : Pipeline
  store : σ
  nextToken : Token := 0
  accepted : List Token := []
  settled : List Settlement := []
  started : Nat := 0
  waiting : List Drain := []
  /-- Calls that have executed the batch that they took, with their results. -/
  executed : List (Nat × BatchResult) := []
  returned : List (Nat × BatchResult) := []

namespace Overlap

inductive Action where
  | enqueue (mutation : Mutation) (mutationId : Option String)
  /-- A flush, or a shutdown if `last`, takes the batch out of the slot and its list. -/
  | start (last : Bool)
  | background (id : Nat)
  /-- A call for which all that it awaits is executed executes the batch that it took. -/
  | execute (call : Nat)
  | finish (call : Nat)

def take (last : Bool) (p : Pipeline) : Option Nat × Pipeline :=
  if last then p.takeLast else (p.rotate.1, p.rotate.2.1)

section

variable {σ : Type} [Store σ]

def absorb (r : Pipeline × Execution σ) (s : Overlap σ) : Overlap σ :=
  { s with pipeline := r.1, store := r.2.store, settled := s.settled ++ r.2.settled }

def step (s : Overlap σ) : Action → Overlap σ
  | .enqueue mutation mutationId =>
    let (result, pipeline, _) := s.pipeline.enqueue ⟨mutation, mutationId, s.nextToken⟩
    { s with
      pipeline
      nextToken := s.nextToken + 1
      accepted := if result.isOk then s.accepted ++ [s.nextToken] else s.accepted }
  | .start last =>
    let (taken, p) := take last s.pipeline
    { s with
      pipeline := { p with inFlight := [] }
      started := s.started + 1
      waiting := s.waiting ++ [⟨s.started, taken, p.inFlight⟩] }
  | .background id =>
    let p := s.pipeline
    if id ∈ p.background then
      s.absorb ({ p with background := p.background.erase id }.executeBatch id s.store)
    else s
  | .execute call =>
    match s.waiting.find? fun d => d.call = call with
    | none => s
    | some d =>
      if ∀ id ∈ d.awaited, id ∉ s.pipeline.background then
        let r := s.pipeline.executeTaken d.taken s.store
        { s.absorb r with
          waiting := s.waiting.erase d, executed := s.executed ++ [(call, r.2.result)] }
      else s
  | .finish call =>
    match s.executed.find? fun x => x.1 = call with
    | none => s
    | some x => { s with executed := s.executed.erase x, returned := s.returned ++ [x] }

def run (s : Overlap σ) (actions : List Action) : Overlap σ := actions.foldl step s

end

/-! ## Invariants -/

/-- A batch is on the list that the next call takes, or on one that was taken. -/
def Listed (p : Pipeline) (ds : List Drain) (id : Nat) : Prop :=
  id ∈ p.inFlight ∨ ∃ d ∈ ds, id ∈ d.awaited

def Known (p : Pipeline) (ds : List Drain) (id : Nat) : Prop :=
  p.slot = some id ∨ (∃ d ∈ ds, d.taken = some id) ∨ Listed p ds id

/-- No batch of a pipeline is lost while calls wait. -/
structure Traced (p : Pipeline) (ds : List Drain) : Prop where
  wellFormed : p.WellFormed
  distinct : (p.batches.map Batch.id).Nodup
  known : ∀ b ∈ p.batches, Known p ds b.id
  numbered : ∀ id, Known p ds id → id < p.nextId
  background : ∀ b ∈ p.batches, Listed p ds b.id → b.id ∈ p.background

variable {p q : Pipeline} {ds : List Drain} {d : Drain} {b : Batch} {id i : Nat}

/-- A step that puts no batch anywhere else. -/
theorem Traced.of_kept (h : Traced p ds) (hwell : q.WellFormed)
    (hids : (q.batches.map Batch.id).Sublist (p.batches.map Batch.id)) (hslot : q.slot = p.slot)
    (hlist : q.inFlight = p.inFlight) (hnext : q.nextId = p.nextId)
    (hback : ∀ b ∈ q.batches, b.id ∈ p.background → b.id ∈ q.background) : Traced q ds := by
  have hknown : ∀ id, Known q ds id ↔ Known p ds id := by
    intro id
    rw [Known, Known, Listed, Listed, hslot, hlist]
  have hlisted : ∀ id, Listed q ds id ↔ Listed p ds id := by
    intro id
    rw [Listed, Listed, hlist]
  have hold : ∀ b ∈ q.batches, ∃ b' ∈ p.batches, b'.id = b.id := by
    intro b hb
    exact List.mem_map.1 (hids.subset (List.mem_map_of_mem hb))
  refine ⟨hwell, h.distinct.sublist hids, ?_, ?_, ?_⟩
  · intro b hb
    obtain ⟨b', hb', hid⟩ := hold b hb
    rw [hknown, ← hid]
    exact h.known b' hb'
  · intro id hid
    rw [hnext]
    exact h.numbered id ((hknown id).1 hid)
  · intro b hb hb'
    obtain ⟨b'', hb'', hid⟩ := hold b hb
    apply hback b hb
    rw [hlisted] at hb'
    rw [← hid] at hb' ⊢
    exact h.background b'' hb'' hb'

/-! ## Queueing -/

theorem ids_replace (b : Batch) : (p.replace b).batches.map Batch.id = p.batches.map Batch.id := by
  show (p.batches.map _).map Batch.id = _
  rw [List.map_map]
  apply List.map_congr_left
  intro b' _
  rw [Function.comp_apply]
  split
  · rename_i heq
    exact heq.symm
  · rfl

theorem Traced.replace (h : Traced p ds) (hb : b.isRetired = false) (hid : b.id < p.nextId) :
    Traced (p.replace b).countEnqueued ds := by
  have hwell := Pipeline.wellFormed_replace h.wellFormed hb hid
  have hids : ((p.replace b).batches.map Batch.id).Sublist (p.batches.map Batch.id) := by
    rw [ids_replace]
  exact h.of_kept ⟨hwell.accumulating, hwell.numbered⟩ hids rfl rfl rfl fun _ _ hback => hback

theorem batches_rotateFull (hslot : p.slot = some id) :
    (p.rotateFull id).1.batches = p.install.batches := by
  rw [Pipeline.rotateFull_eq hslot]
  rfl

theorem listed_rotateFull (hslot : p.slot = some id) :
    Listed (p.rotateFull id).1 ds i ↔
      i = id ∨ i ∈ p.inFlight ∧ i ∈ p.background ∨ ∃ d ∈ ds, i ∈ d.awaited := by
  rw [Listed, Pipeline.rotateFull_eq hslot]
  show i ∈ p.inFlight.filter (p.background.contains ·) ++ [id] ∨ _ ↔ _
  rw [List.mem_append, List.mem_filter, List.contains_iff_mem, List.mem_singleton, or_assoc,
    or_left_comm]

theorem known_rotateFull (hslot : p.slot = some id) (hi : Known (p.rotateFull id).1 ds i) :
    i = p.nextId ∨ Known p ds i := by
  rcases hi with hi | hi | hi
  · left
    rw [Pipeline.rotateFull_eq hslot] at hi
    exact (Option.some.inj hi).symm
  · exact .inr (.inr (.inl hi))
  · rcases (listed_rotateFull hslot).1 hi with rfl | ⟨hi, -⟩ | hi
    · exact .inr (.inl hslot)
    · exact .inr (.inr (.inr (.inl hi)))
    · exact .inr (.inr (.inr (.inr hi)))

/-- The full batch goes to the list, where the batches stay that are still in the background. -/
theorem Traced.rotateFull (h : Traced p ds) (hslot : p.slot = some id) :
    Traced (p.rotateFull id).1 ds := by
  have hold : ∀ b ∈ (p.rotateFull id).1.batches, b ∈ p.batches ∨ b.id = p.nextId := by
    intro b hb
    rw [batches_rotateFull hslot] at hb
    rcases List.mem_append.1 hb with hb | hb
    · exact .inl hb
    · rw [List.mem_singleton.1 hb]
      exact .inr rfl
  have hnext : (p.rotateFull id).1.nextId = p.nextId + 1 := by
    rw [Pipeline.rotateFull_eq hslot]
    rfl
  have hback : (p.rotateFull id).1.background = p.background ++ [id] := by
    rw [Pipeline.rotateFull_eq hslot]
  have hwell : (p.rotateFull id).1.WellFormed := by
    have hinstalled := Pipeline.wellFormed_install h.wellFormed
    rw [Pipeline.rotateFull_eq hslot]
    exact ⟨hinstalled.accumulating, hinstalled.numbered⟩
  refine ⟨hwell, ?_, ?_, ?_, ?_⟩
  · rw [batches_rotateFull hslot]
    exact Pipeline.nodup_ids_install h.wellFormed h.distinct
  · intro b hb
    rcases hold b hb with hb | hid
    · rcases h.known b hb with hid | hid | hid
      · rw [hslot, Option.some.injEq] at hid
        exact .inr (.inr ((listed_rotateFull hslot).2 (.inl hid.symm)))
      · exact .inr (.inl hid)
      · have hwaits := h.background b hb hid
        exact .inr (.inr ((listed_rotateFull hslot).2 (.inr (hid.imp_left fun hid => ⟨hid, hwaits⟩))))
    · left
      rw [Pipeline.rotateFull_eq hslot, hid]
      rfl
  · intro i hi
    rw [hnext]
    rcases known_rotateFull hslot hi with rfl | hi
    · exact Nat.lt_succ_self _
    · exact Nat.lt_succ_of_lt (h.numbered i hi)
  · intro b hb hid
    rw [hback]
    rcases (listed_rotateFull hslot).1 hid with hid | ⟨-, hid⟩ | hid
    · exact List.mem_append_right _ (List.mem_singleton.2 hid)
    · exact List.mem_append_left _ hid
    · rcases hold b hb with hb | hfresh
      · exact List.mem_append_left _ (h.background b hb (.inr hid))
      · -- No call can wait for a batch that did not exist when the call started.
        have hlt := h.numbered b.id (.inr (.inr (.inr hid)))
        rw [hfresh] at hlt
        exact absurd hlt (Nat.lt_irrefl _)

/-! ## Taking -/

theorem take_cases (last : Bool) (p : Pipeline) :
    (take last p).1 = p.slot ∧
      ((take last p).2 = { p with slot := none } ∨ (take last p).2 = p.install) := by
  cases last with
  | true => exact ⟨rfl, .inl rfl⟩
  | false =>
    show p.rotate.1 = p.slot ∧ (p.rotate.2.1 = _ ∨ p.rotate.2.1 = _)
    rw [Pipeline.rotate]
    rcases Option.eq_none_or_eq_some p.slot with hslot | ⟨id, hslot⟩
    · rw [hslot]
      refine ⟨rfl, .inl ?_⟩
      show p = _
      rw [← hslot]
    · rw [hslot]
      exact ⟨rfl, .inr rfl⟩

section Taking

variable {call : Nat}

theorem listed_take : Listed { q with inFlight := [] } (ds ++ [⟨call, p.slot, p.inFlight⟩]) id ↔
    Listed p ds id := by
  constructor
  · rintro (hid | ⟨d, hd, hid⟩)
    · cases hid
    · rcases List.mem_append.1 hd with hd | hd
      · exact .inr ⟨d, hd, hid⟩
      · rw [List.mem_singleton.1 hd] at hid
        exact .inl hid
  · rintro (hid | ⟨d, hd, hid⟩)
    · exact .inr ⟨_, List.mem_append_right _ (List.mem_singleton_self _), hid⟩
    · exact .inr ⟨d, List.mem_append_left _ hd, hid⟩

theorem known_take : Known { q with inFlight := [] } (ds ++ [⟨call, p.slot, p.inFlight⟩]) id ↔
    q.slot = some id ∨ Known p ds id := by
  rw [Known, Known, listed_take]
  constructor
  · rintro (hid | ⟨d, hd, hid⟩ | hid)
    · exact .inl hid
    · rcases List.mem_append.1 hd with hd | hd
      · exact .inr (.inr (.inl ⟨d, hd, hid⟩))
      · rw [List.mem_singleton.1 hd] at hid
        exact .inr (.inl hid)
    · exact .inr (.inr (.inr hid))
  · rintro (hid | hid | ⟨d, hd, hid⟩ | hid)
    · exact .inl hid
    · exact .inr (.inl ⟨_, List.mem_append_right _ (List.mem_singleton_self _), hid⟩)
    · exact .inr (.inl ⟨d, List.mem_append_left _ hd, hid⟩)
    · exact .inr (.inr hid)

theorem Traced.take (h : Traced p ds) (last : Bool) (call : Nat) :
    Traced { (take last p).2 with inFlight := [] }
      (ds ++ [⟨call, (take last p).1, (take last p).2.inFlight⟩]) := by
  obtain ⟨htaken, hleft | hleft⟩ := take_cases last p
  · rw [htaken, hleft]
    refine ⟨⟨h.wellFormed.accumulating, h.wellFormed.numbered⟩, h.distinct, ?_, ?_, ?_⟩
    · exact fun b hb => known_take.2 (.inr (h.known b hb))
    · intro id hid
      rcases known_take.1 hid with hid | hid
      · cases hid
      · exact h.numbered id hid
    · exact fun b hb hb' => h.background b hb (listed_take.1 hb')
  · rw [htaken, hleft]
    have hwell := Pipeline.wellFormed_install h.wellFormed
    refine ⟨⟨hwell.accumulating, hwell.numbered⟩,
      Pipeline.nodup_ids_install h.wellFormed h.distinct, ?_, ?_, ?_⟩
    · intro b hb
      apply known_take.2
      rcases List.mem_append.1 hb with hb | hb
      · exact .inr (h.known b hb)
      · rw [List.mem_singleton.1 hb]
        exact .inl rfl
    · intro id hid
      show id < p.nextId + 1
      rcases known_take.1 hid with hid | hid
      · cases hid
        exact Nat.lt_succ_self _
      · exact Nat.lt_succ_of_lt (h.numbered id hid)
    · intro b hb hb'
      have hlisted := listed_take.1 hb'
      rcases List.mem_append.1 hb with hb | hb
      · exact h.background b hb hlisted
      · have hlt := h.numbered b.id (.inr (.inr hlisted))
        rw [List.mem_singleton.1 hb] at hlt
        exact absurd hlt (Nat.lt_irrefl _)

end Taking

/-! ## Executing -/

section Executing

variable {σ : Type} [Store σ] {store : σ}

theorem mem_without : b ∈ (p.without id).batches ↔ b ∈ p.batches ∧ b.id ≠ id := by
  rw [Pipeline.without, List.mem_filter, decide_eq_true_eq]

theorem ids_without : ((p.without id).batches.map Batch.id).Sublist (p.batches.map Batch.id) :=
  List.filter_sublist.map _

theorem Traced.executeBackground (h : Traced p ds) :
    Traced ({ p with background := p.background.erase id }.executeBatch id store).1 ds := by
  rw [Pipeline.executeBatch_eq]
  have hwell : (p.without id).WellFormed := Pipeline.wellFormed_without h.wellFormed
  refine h.of_kept ⟨hwell.accumulating, hwell.numbered⟩ ids_without rfl rfl rfl ?_
  intro b hb hback
  exact (List.mem_erase_of_ne (mem_without.1 hb).2).2 hback

theorem Traced.execute (h : Traced p ds) (hd : ∀ id ∈ d.awaited, id ∉ p.background) :
    Traced (p.executeTaken d.taken store).1 (ds.erase d) := by
  have hkept : Traced (p.executeTaken d.taken store).1 ds ∧
      (∀ b ∈ (p.executeTaken d.taken store).1.batches, d.taken ≠ some b.id) ∧
      (p.executeTaken d.taken store).1.background = p.background := by
    rcases Option.eq_none_or_eq_some d.taken with htaken | ⟨id, htaken⟩
    · rw [htaken]
      exact ⟨h, fun b _ => nofun, rfl⟩
    · rw [htaken]
      show Traced (p.countFlushed.executeBatch id store).1 ds ∧
        (∀ b ∈ (p.countFlushed.executeBatch id store).1.batches, _) ∧
        (p.countFlushed.executeBatch id store).1.background = _
      rw [Pipeline.executeBatch_eq]
      have hwell : (p.without id).WellFormed := Pipeline.wellFormed_without h.wellFormed
      refine ⟨?_, ?_, rfl⟩
      · exact h.of_kept ⟨hwell.accumulating, hwell.numbered⟩ ids_without rfl rfl rfl
          fun _ _ hback => hback
      · intro b hb heq
        exact (mem_without.1 hb).2 (Option.some.inj heq).symm
  obtain ⟨htraced, hgone, hback⟩ := hkept
  have hlisted : ∀ id, Listed (p.executeTaken d.taken store).1 (ds.erase d) id →
      Listed (p.executeTaken d.taken store).1 ds id := by
    rintro id (hid | ⟨d', hd', hid⟩)
    · exact .inl hid
    · exact .inr ⟨d', List.mem_of_mem_erase hd', hid⟩
  refine ⟨htraced.wellFormed, htraced.distinct, ?_, ?_, ?_⟩
  · intro b hb
    rcases htraced.known b hb with hid | ⟨d', hd', hid⟩ | hid | ⟨d', hd', hid⟩
    · exact .inl hid
    · have hne : d' ≠ d := fun heq => hgone b hb (heq ▸ hid)
      exact .inr (.inl ⟨d', (List.mem_erase_of_ne hne).2 hd', hid⟩)
    · exact .inr (.inr (.inl hid))
    · have hback' := htraced.background b hb (.inr ⟨d', hd', hid⟩)
      rw [hback] at hback'
      have hne : d' ≠ d := fun heq => hd b.id (heq ▸ hid) hback'
      exact .inr (.inr (.inr ⟨d', (List.mem_erase_of_ne hne).2 hd', hid⟩))
  · rintro id (hid | ⟨d', hd', hid⟩ | hid)
    · exact htraced.numbered id (.inl hid)
    · exact htraced.numbered id (.inr (.inl ⟨d', List.mem_of_mem_erase hd', hid⟩))
    · exact htraced.numbered id (.inr (.inr (hlisted id hid)))
  · exact fun b hb hid => htraced.background b hb (hlisted b.id hid)

end Executing

/-! ## A call that is alone -/

section Alone

variable {σ : Type} [Store σ]

theorem run_background (s : Overlap σ) {ids : List Nat} (hids : s.pipeline.background = ids) :
    s.run (ids.map .background) =
      s.absorb (Pipeline.executeAll ids { s.pipeline with background := [] } s.store) := by
  induction ids generalizing s with
  | nil =>
    show s = { s with
      pipeline := { s.pipeline with background := [] }, settled := s.settled ++ [] }
    rw [List.append_nil, ← hids]
  | cons id ids ih =>
    have hstep : s.step (.background id) =
        s.absorb ({ s.pipeline with background := ids }.executeBatch id s.store) := by
      rw [step, hids, if_pos List.mem_cons_self, List.erase_cons_head]
    have hrest : (s.step (.background id)).pipeline.background = ids := by
      rw [hstep, absorb, Pipeline.executeBatch_eq]
      rfl
    rw [List.map_cons]
    show (s.step (.background id)).run (ids.map .background) = _
    rw [ih _ hrest, hstep, Pipeline.executeAll]
    unfold absorb
    simp only [Pipeline.executeBatch_eq, List.append_assoc]
    rfl

theorem background_executeAll (ids : List Nat) (p : Pipeline) (store : σ) :
    (Pipeline.executeAll ids p store).1.background = p.background := by
  induction ids generalizing p store with
  | nil => rfl
  | cons id ids ih =>
    rw [Pipeline.executeAll, Pipeline.executeBatch_eq]
    exact ih (p.without id) _

theorem background_take (last : Bool) (p : Pipeline) :
    (take last p).2.background = p.background := by
  obtain ⟨-, hleft | hleft⟩ := take_cases last p
  · rw [hleft]
  · rw [hleft]
    rfl

theorem return_alone (s : Overlap σ) (hw : s.waiting = [d]) (he : s.executed = [])
    (hd : ∀ id ∈ d.awaited, id ∉ s.pipeline.background) :
    let r := s.pipeline.executeTaken d.taken s.store
    (s.step (.execute d.call)).step (.finish d.call) =
      { s.absorb r with
        waiting := [], returned := s.returned ++ [(d.call, r.2.result)] } := by
  intro r
  have hexecute : s.step (.execute d.call) =
      { s.absorb r with waiting := [], executed := [(d.call, r.2.result)] } := by
    rw [step, hw, List.find?_cons_of_pos (by simp)]
    simp only [if_pos hd, List.erase_cons_head]
    rw [he]
    rfl
  rw [hexecute, step, List.find?_cons_of_pos (by simp)]
  simp only [List.erase_cons_head]
  rw [← he]
  rfl

/-- A call during which nothing else happens is a flush, or a shutdown, of the pipeline. -/
theorem run_alone (s : Overlap σ) (hw : s.waiting = []) (he : s.executed = []) (last : Bool) :
    let r := if last then s.pipeline.shutdown s.store else s.pipeline.flush s.store
    s.run (.start last :: (s.pipeline.background.map .background ++
        [.execute s.started, .finish s.started])) =
      { s.absorb r with
        started := s.started + 1, returned := s.returned ++ [(s.started, r.2.result)] } := by
  intro r
  let taken := (take last s.pipeline).1
  let q := (take last s.pipeline).2
  have hfinish : s.absorb r = s.absorb (q.finish taken s.store) ∧
      r.2.result = (q.finish taken s.store).2.result := by
    cases last with
    | true => exact ⟨rfl, rfl⟩
    | false => exact ⟨rfl, rfl⟩
  let s₁ : Overlap σ :=
    { s with
      pipeline := { q with inFlight := [] }
      started := s.started + 1
      waiting := [⟨s.started, taken, q.inFlight⟩] }
  let all := Pipeline.executeAll q.background { q with inFlight := [], background := [] } s.store
  have hstart : s.step (.start last) = s₁ := by
    rw [step, hw]
    rfl
  have hbackground : s₁.run (s.pipeline.background.map .background) = s₁.absorb all := by
    rw [← background_take last]
    exact run_background s₁ rfl
  have hreturn := return_alone (d := ⟨s.started, taken, q.inFlight⟩) (s₁.absorb all) rfl he (by
    intro id _
    show id ∉ all.1.background
    rw [background_executeAll]
    exact List.not_mem_nil)
  show (s.step (.start last)).run (s.pipeline.background.map .background ++ _) = _
  rw [hstart, run, List.foldl_append]
  show ((s₁.run (s.pipeline.background.map .background)).step (.execute s.started)).step
    (.finish s.started) = _
  rw [hbackground, hfinish.1, hfinish.2]
  refine hreturn.trans ?_
  unfold absorb Pipeline.finish Pipeline.drain Pipeline.runBackground
  simp only [List.append_assoc, hw]
  rfl

end Alone

end Overlap

end BatchingCache
