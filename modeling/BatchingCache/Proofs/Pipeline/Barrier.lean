import BatchingCache.Proofs.Pipeline.Overlap
import Mathlib.Data.List.Range
/-!
# Barriers

When a flush or a shutdown returns, a mutation that was taken before the call started is settled,
unless a call that started earlier still has to execute the batch with that mutation, or waits for
it.  So a call that has nobody before it is a barrier.
-/

namespace BatchingCache

open scoped List

def Batch.tokens (b : Batch) : List Token := b.pending.map PendingOp.token

def Pipeline.tokensAt (p : Pipeline) (id : Nat) : List Token :=
  ((p.waiting? id).getD []).map PendingOp.token

namespace Overlap

variable {σ : Type}

def tokens (s : Overlap σ) : List Token :=
  s.settled.map Settlement.token ++ s.pipeline.batches.flatMap Batch.tokens

def calls (s : Overlap σ) : List Nat :=
  s.waiting.map Drain.call ++ (s.executed.map Prod.fst ++ s.returned.map Prod.fst)

def IsSettled (s : Overlap σ) (t : Token) : Prop := t ∈ s.settled.map Settlement.token

/-- A mutation waits in a batch that a call has still to execute, or to wait for. -/
def Owes (s : Overlap σ) (d : Drain) (t : Token) : Prop :=
  ∃ id, (d.taken = some id ∨ id ∈ d.awaited) ∧ t ∈ s.pipeline.tokensAt id

structure Sound (s : Overlap σ) : Prop where
  traced : Traced s.pipeline s.waiting
  tokens : s.tokens ~ s.accepted
  nodup : s.accepted.Nodup
  fresh : ∀ t ∈ s.accepted, t < s.nextToken
  calls : s.calls ~ List.range s.started

instance {s : Overlap σ} {t : Token} : Decidable (s.IsSettled t) :=
  inferInstanceAs (Decidable (t ∈ _))

variable {s : Overlap σ} {p : Pipeline} {b : Batch} {d : Drain} {op : PendingOp}
  {ops : List PendingOp} {id i : Nat} {t : Token}

/-! ## Mutations that wait -/

theorem tokensAt_of_mem (hd : (p.batches.map Batch.id).Nodup) (hb : b ∈ p.batches) :
    p.tokensAt b.id = b.tokens := by
  rw [Pipeline.tokensAt, Pipeline.waiting?_of_mem hd hb]
  rfl

theorem exists_of_tokensAt (ht : t ∈ p.tokensAt id) :
    ∃ b ∈ p.batches, b.id = id ∧ t ∈ b.tokens := by
  cases hb : p.batch? id with
  | none =>
    rw [Pipeline.tokensAt, Pipeline.waiting?, hb] at ht
    cases ht
  | some b =>
    rw [Pipeline.tokensAt, Pipeline.waiting?, hb] at ht
    obtain ⟨hmem, hid⟩ := Pipeline.mem_and_id_of_batch? hb
    exact ⟨b, hmem, hid, ht⟩

theorem Sound.not_settled_of_owes (h : s.Sound) (howes : s.Owes d t) : ¬ s.IsSettled t := by
  obtain ⟨id, -, ht⟩ := howes
  obtain ⟨b, hb, -, ht⟩ := exists_of_tokensAt ht
  have hnodup := h.tokens.nodup_iff.2 h.nodup
  unfold Overlap.tokens at hnodup
  rw [List.nodup_append] at hnodup
  intro hsettled
  exact hnodup.2.2 t hsettled t (List.mem_flatMap.2 ⟨b, hb, ht⟩) rfl

theorem tokensAt_replace (op : PendingOp) (hops : p.waiting? id = some ops)
    (ht : t ∈ p.tokensAt i) :
    t ∈ (p.replace ⟨id, .accumulating (ops ++ [op])⟩).tokensAt i := by
  have hwaiting := Pipeline.waiting?_replace (i := i) (b := ⟨id, .accumulating (ops ++ [op])⟩)
    (by rw [hops]; rfl)
  rw [Pipeline.tokensAt, hwaiting]
  split
  · rename_i hi
    rw [Pipeline.tokensAt, hi, hops] at ht
    show t ∈ (ops ++ [op]).map PendingOp.token
    rw [List.map_append]
    exact List.mem_append_left _ ht
  · exact ht

theorem tokensAt_install (h : p.WellFormed) : p.install.tokensAt i = p.tokensAt i := by
  rw [Pipeline.tokensAt, Pipeline.waiting?_install h]
  split
  · rename_i hi
    rw [Pipeline.tokensAt, Pipeline.waiting?_eq_none_of_le h (Nat.le_of_eq hi.symm)]
    rfl
  · rfl

theorem tokensAt_take (h : p.WellFormed) (last : Bool) :
    (take last p).2.tokensAt i = p.tokensAt i := by
  obtain ⟨-, hleft | hleft⟩ := take_cases last p
  · rw [hleft]
    rfl
  · rw [hleft, tokensAt_install h]

theorem tokensAt_rotateFull (h : p.WellFormed) (hslot : p.slot = some id) :
    (p.rotateFull id).1.tokensAt i = p.tokensAt i := by
  rw [Pipeline.rotateFull_eq hslot, ← tokensAt_install h]
  rfl

theorem tokensAt_enqueue (h : p.WellFormed) (ht : t ∈ p.tokensAt i) :
    t ∈ (p.enqueue op).2.1.tokensAt i := by
  rcases Pipeline.enqueue_cases op h with
    ⟨id, ops, hslot, hops, -, hleft⟩ | ⟨e, stats, -, hleft⟩
  · have hwaits := tokensAt_replace op hops ht
    have hreplaced := Pipeline.wellFormed_replace (b := ⟨id, .accumulating (ops ++ [op])⟩) h rfl
      (Pipeline.lt_nextId_of_waiting? h hops)
    have hcounted : (p.replace ⟨id, .accumulating (ops ++ [op])⟩).countEnqueued.WellFormed :=
      ⟨hreplaced.accumulating, hreplaced.numbered⟩
    rw [hleft]
    split
    · rw [tokensAt_rotateFull hcounted hslot]
      exact hwaits
    · exact hwaits
  · rw [hleft]
    exact ht

section

variable [Store σ]

/-- What waited in a batch is settled, and what waits elsewhere goes on waiting. -/
theorem tokensAt_executeBatch (id : Nat) (store : σ) (ht : t ∈ p.tokensAt i) :
    t ∈ (p.executeBatch id store).2.settled.map Settlement.token ∨
      i ≠ id ∧ t ∈ (p.executeBatch id store).1.tokensAt i := by
  rw [Pipeline.executeBatch_eq]
  by_cases hi : i = id
  · left
    rw [Batch.map_token_run, ← hi]
    exact ht
  · right
    rw [Pipeline.tokensAt, Pipeline.waiting?_without, if_neg hi]
    exact ⟨hi, ht⟩

theorem tokensAt_executeTaken (taken : Option Nat) (store : σ) (ht : t ∈ p.tokensAt i) :
    t ∈ (p.executeTaken taken store).2.settled.map Settlement.token ∨
      taken ≠ some i ∧ t ∈ (p.executeTaken taken store).1.tokensAt i := by
  cases taken with
  | none => exact .inr ⟨nofun, ht⟩
  | some id =>
    rcases tokensAt_executeBatch (p := p.countFlushed) id store ht with hsettled | ⟨hi, hwaits⟩
    · exact .inl hsettled
    · exact .inr ⟨fun heq => hi (Option.some.inj heq).symm, hwaits⟩

theorem perm_tokens_executeBatch (id : Nat) (store : σ) (hd : (p.batches.map Batch.id).Nodup) :
    (p.executeBatch id store).2.settled.map Settlement.token ++
        (p.executeBatch id store).1.batches.flatMap Batch.tokens ~
      p.batches.flatMap Batch.tokens := by
  by_cases hid : ∃ b ∈ p.batches, b.id = id
  · obtain ⟨b, hb, rfl⟩ := hid
    obtain ⟨front, back, hsplit⟩ := List.append_of_mem hb
    rw [Pipeline.executeBatch_of_split front back hsplit hd, Batch.map_token_run, hsplit]
    show b.tokens ++ (front ++ back).flatMap Batch.tokens ~ _
    rw [List.flatMap_append, List.flatMap_append, List.flatMap_cons, ← List.append_assoc,
      ← List.append_assoc]
    exact List.perm_append_comm.append_right _
  · have hnone : p.batch? id = none := by
      rw [Pipeline.batch?, List.find?_eq_none]
      intro b hb heq
      exact hid ⟨b, hb, by simpa using heq⟩
    rw [Pipeline.executeBatch, hnone]
    exact .refl _

end

/-! ## Queueing -/

theorem Sound.refused (h : s.Sound) (stats : PipelineStats) :
    ({ s with
      pipeline := { s.pipeline with stats }
      nextToken := s.nextToken + 1 } : Overlap σ).Sound := by
  have hwell := h.traced.wellFormed
  refine ⟨?_, h.tokens, h.nodup, fun t ht => Nat.lt_succ_of_lt (h.fresh t ht), h.calls⟩
  exact h.traced.of_kept ⟨hwell.accumulating, hwell.numbered⟩ (List.Sublist.refl _) rfl rfl rfl
    fun _ _ hback => hback

theorem Sound.push (h : s.Sound) (op : PendingOp) (hb : b ∈ s.pipeline.batches)
    (htoken : op.token = s.nextToken) :
    ({ s with
      pipeline := (s.pipeline.replace (b.extend op)).countEnqueued
      nextToken := s.nextToken + 1
      accepted := s.accepted ++ [s.nextToken] } : Overlap σ).Sound := by
  have htraced := h.traced.replace (b := b.extend op) rfl (h.traced.wellFormed.numbered b hb)
  refine ⟨htraced, ?_, ?_, ?_, h.calls⟩
  · obtain ⟨front, back, hsplit⟩ := List.append_of_mem hb
    have hextended : (b.extend op).tokens = b.tokens ++ [s.nextToken] := by
      rw [Batch.tokens, Batch.pending_extend, List.map_append, List.map_singleton, htoken]
      rfl
    have hold := h.tokens
    unfold Overlap.tokens at hold
    rw [hsplit, List.flatMap_append, List.flatMap_cons] at hold
    show s.settled.map Settlement.token ++
      (s.pipeline.replace (b.extend op)).batches.flatMap Batch.tokens ~ _
    rw [Pipeline.batches_extend h.traced.distinct hsplit op, List.flatMap_append,
      List.flatMap_cons, hextended]
    let others := s.settled.map Settlement.token ++ (front.flatMap Batch.tokens ++ b.tokens)
    calc
      _ = others ++ ([s.nextToken] ++ back.flatMap Batch.tokens) := by
        simp only [others, List.append_assoc]
      _ ~ others ++ (back.flatMap Batch.tokens ++ [s.nextToken]) :=
        List.perm_append_comm.append_left _
      _ = s.settled.map Settlement.token ++
          (front.flatMap Batch.tokens ++ (b.tokens ++ back.flatMap Batch.tokens)) ++
            [s.nextToken] := by
        simp only [others, List.append_assoc]
      _ ~ s.accepted ++ [s.nextToken] := hold.append_right _
  · have hfresh : s.nextToken ∉ s.accepted := fun ht => Nat.lt_irrefl _ (h.fresh _ ht)
    show (s.accepted ++ [s.nextToken]).Nodup
    rw [← List.concat_eq_append]
    exact h.nodup.concat hfresh
  · intro t ht
    rcases List.mem_append.1 ht with ht | ht
    · exact Nat.lt_succ_of_lt (h.fresh t ht)
    · rw [List.mem_singleton.1 ht]
      exact Nat.lt_succ_self _

theorem flatMap_install : p.install.batches.flatMap Batch.tokens = p.batches.flatMap Batch.tokens := by
  show (p.batches ++ [_]).flatMap Batch.tokens = _
  rw [List.flatMap_append]
  exact List.append_nil _

theorem Sound.rotateFull (h : s.Sound) (hslot : s.pipeline.slot = some id) :
    ({ s with pipeline := (s.pipeline.rotateFull id).1 } : Overlap σ).Sound := by
  refine ⟨h.traced.rotateFull hslot, ?_, h.nodup, h.fresh, h.calls⟩
  show _ ++ (s.pipeline.rotateFull id).1.batches.flatMap Batch.tokens ~ _
  rw [batches_rotateFull hslot, flatMap_install]
  exact h.tokens

/-! ## Fresh pipelines -/

def fresh (p : Pipeline) (store : σ) : Overlap σ := { pipeline := p, store }

theorem sound_fresh {size attempts : Nat} {executor : Bool}
    (hstart : Pipeline.start executor size attempts = .ok p) (store : σ) :
    (fresh p store).Sound := by
  obtain ⟨-, rfl⟩ := Pipeline.of_start_ok hstart
  have h := Pipeline.backlog_first size attempts
  have hfirst : ∀ b ∈ (Pipeline.empty size attempts).install.batches, b = { id := 1 } := by
    intro b hb
    rw [h.batches] at hb
    exact List.mem_singleton.1 hb
  have hunlisted : ∀ id, ¬ Listed (Pipeline.empty size attempts).install [] id := by
    rintro id (hid | ⟨d, hd, -⟩)
    · cases hid
    · cases hd
  refine ⟨⟨h.wellFormed, h.distinct, ?_, ?_, ?_⟩, .refl _, List.nodup_nil, nofun, .refl _⟩
  · intro b hb
    rw [hfirst b hb]
    exact .inl h.slot
  · rintro id (hid | ⟨d, hd, -⟩ | hid)
    · cases hid
      exact Nat.lt_succ_self 1
    · cases hd
    · exact absurd hid (hunlisted id)
  · exact fun b _ hid => absurd hid (hunlisted b.id)

/-! ## Steps -/

section Steps

variable [Store σ]

theorem Sound.enqueue (h : s.Sound) (mutation : Mutation) (mutationId : Option String) :
    (s.step (.enqueue mutation mutationId)).Sound := by
  have hstep : s.step (.enqueue mutation mutationId) =
      let r := s.pipeline.enqueue ⟨mutation, mutationId, s.nextToken⟩
      { s with
        pipeline := r.2.1
        nextToken := s.nextToken + 1
        accepted := if r.1.isOk then s.accepted ++ [s.nextToken] else s.accepted } := rfl
  rw [hstep]
  rcases Pipeline.enqueue_cases ⟨mutation, mutationId, s.nextToken⟩ h.traced.wellFormed with
    ⟨id, ops, hslot, hops, hok, hleft⟩ | ⟨e, stats, herror, hleft⟩
  · obtain ⟨b, hb, rfl⟩ := Option.map_eq_some_iff.1 hops
    obtain ⟨hmem, rfl⟩ := Pipeline.mem_and_id_of_batch? hb
    have hpushed := h.push ⟨mutation, mutationId, s.nextToken⟩ hmem rfl
    simp only [hok, hleft]
    split
    · exact hpushed.rotateFull hslot
    · exact hpushed
  · simp only [herror, hleft]
    exact h.refused stats

theorem Sound.start (h : s.Sound) (last : Bool) : (s.step (.start last)).Sound := by
  refine ⟨h.traced.take last s.started, ?_, h.nodup, h.fresh, ?_⟩
  · show s.settled.map Settlement.token ++
      (take last s.pipeline).2.batches.flatMap Batch.tokens ~ _
    obtain ⟨-, hleft | hleft⟩ := take_cases last s.pipeline
    · rw [hleft]
      exact h.tokens
    · rw [hleft, flatMap_install]
      exact h.tokens
  · show (s.waiting ++ [_]).map Drain.call ++
      (s.executed.map Prod.fst ++ s.returned.map Prod.fst) ~ List.range (s.started + 1)
    rw [List.map_append, List.range_succ, List.append_assoc]
    calc
      _ ~ s.waiting.map Drain.call ++
          ((s.executed.map Prod.fst ++ s.returned.map Prod.fst) ++ [s.started]) :=
        List.perm_append_comm.append_left _
      _ = s.calls ++ [s.started] := (List.append_assoc ..).symm
      _ ~ List.range s.started ++ [s.started] := h.calls.append_right _

theorem Sound.background (h : s.Sound) (id : Nat) : (s.step (.background id)).Sound := by
  rw [step]
  split
  · refine ⟨h.traced.executeBackground, ?_, h.nodup, h.fresh, h.calls⟩
    have hexecuted := perm_tokens_executeBatch id s.store
      (p := { s.pipeline with background := s.pipeline.background.erase id }) h.traced.distinct
    show (s.settled ++ _).map Settlement.token ++ _ ~ _
    rw [List.map_append, List.append_assoc]
    exact (hexecuted.append_left _).trans h.tokens
  · exact h

theorem Sound.execute (h : s.Sound) (call : Nat) : (s.step (.execute call)).Sound := by
  rw [step]
  split
  · exact h
  · rename_i d hfind
    split
    · rename_i hawaited
      have hmem := List.mem_of_find?_eq_some hfind
      have hcall : d.call = call := by simpa using List.find?_some hfind
      refine ⟨h.traced.execute hawaited, ?_, h.nodup, h.fresh, ?_⟩
      · show (s.settled ++ _).map Settlement.token ++ _ ~ _
        rw [List.map_append, List.append_assoc]
        refine .trans (.append_left _ ?_) h.tokens
        cases htaken : d.taken with
        | none => exact .refl _
        | some id =>
          exact perm_tokens_executeBatch (p := s.pipeline.countFlushed) id s.store h.traced.distinct
      · have herased := (List.perm_cons_erase hmem).map Drain.call
        rw [List.map_cons, hcall] at herased
        refine .trans ?_ h.calls
        show (s.waiting.erase d).map Drain.call ++
          ((s.executed ++ [_]).map Prod.fst ++ s.returned.map Prod.fst) ~ _
        rw [List.map_append, List.append_assoc, ← List.append_assoc]
        calc
          _ ~ call :: ((s.waiting.erase d).map Drain.call ++ s.executed.map Prod.fst ++
              s.returned.map Prod.fst) := List.perm_middle
          _ = (call :: (s.waiting.erase d).map Drain.call) ++
              (s.executed.map Prod.fst ++ s.returned.map Prod.fst) := by
            rw [List.append_assoc, List.cons_append]
          _ ~ s.calls := herased.symm.append_right _
    · exact h

theorem Sound.finish (h : s.Sound) (call : Nat) : (s.step (.finish call)).Sound := by
  rw [step]
  split
  · exact h
  · rename_i x hfind
    have hmem := List.mem_of_find?_eq_some hfind
    have herased := (List.perm_cons_erase hmem).map Prod.fst
    refine ⟨h.traced, h.tokens, h.nodup, h.fresh, .trans ?_ h.calls⟩
    show s.waiting.map Drain.call ++ ((s.executed.erase x).map Prod.fst ++
      (s.returned ++ [x]).map Prod.fst) ~ _
    refine .append_left _ ?_
    rw [List.map_append, ← List.append_assoc]
    calc
      _ ~ x.1 :: ((s.executed.erase x).map Prod.fst ++ s.returned.map Prod.fst) :=
        List.perm_append_singleton _ _
      _ ~ s.executed.map Prod.fst ++ s.returned.map Prod.fst := herased.symm.append_right _

theorem Sound.step (h : s.Sound) (a : Action) : (s.step a).Sound := by
  cases a with
  | enqueue mutation mutationId => exact h.enqueue mutation mutationId
  | start last => exact h.start last
  | background id => exact h.background id
  | execute call => exact h.execute call
  | finish call => exact h.finish call

theorem Sound.run (h : s.Sound) (actions : List Action) : (s.run actions).Sound := by
  induction actions generalizing s with
  | nil => exact h
  | cons a as ih => exact ih (h.step a)

/-! ## What is settled stays settled -/

theorem IsSettled.step (h : s.IsSettled t) (a : Action) : (s.step a).IsSettled t := by
  have habsorb : ∀ r : Pipeline × Execution σ, (s.absorb r).IsSettled t := by
    intro r
    show t ∈ (s.settled ++ r.2.settled).map Settlement.token
    rw [List.map_append]
    exact List.mem_append_left _ h
  cases a with
  | enqueue mutation mutationId => exact h
  | start last => exact h
  | background id =>
    rw [Overlap.step]
    split
    · exact habsorb _
    · exact h
  | execute call =>
    rw [Overlap.step]
    split
    · exact h
    · split
      · exact habsorb _
      · exact h
  | finish call =>
    rw [Overlap.step]
    split
    · exact h
    · exact h

theorem IsSettled.run (h : s.IsSettled t) (actions : List Action) : (s.run actions).IsSettled t := by
  induction actions generalizing s with
  | nil => exact h
  | cons a as ih => exact ih (h.step a)

/-- What a call owes is settled, or the call goes on waiting and owes it. -/
theorem Sound.step_of_owes (h : s.Sound) (hd : d ∈ s.waiting) (howes : s.Owes d t) (a : Action) :
    (s.step a).IsSettled t ∨ d ∈ (s.step a).waiting ∧ (s.step a).Owes d t := by
  obtain ⟨id, hid, ht⟩ := howes
  have hsettled : ∀ r : Pipeline × Execution σ, t ∈ r.2.settled.map Settlement.token →
      (s.absorb r).IsSettled t := by
    intro r hr
    show t ∈ (s.settled ++ r.2.settled).map Settlement.token
    rw [List.map_append]
    exact List.mem_append_right _ hr
  cases a with
  | enqueue mutation mutationId =>
    refine .inr ⟨hd, id, hid, ?_⟩
    show t ∈ (s.pipeline.enqueue _).2.1.tokensAt id
    exact tokensAt_enqueue h.traced.wellFormed ht
  | start last =>
    refine .inr ⟨List.mem_append_left _ hd, id, hid, ?_⟩
    show t ∈ (take last s.pipeline).2.tokensAt id
    rw [tokensAt_take h.traced.wellFormed]
    exact ht
  | background id' =>
    rw [Overlap.step]
    split
    · rcases tokensAt_executeBatch id' s.store
        (p := { s.pipeline with background := s.pipeline.background.erase id' }) ht with
        ht | ⟨-, ht⟩
      · exact .inl (hsettled _ ht)
      · exact .inr ⟨hd, id, hid, ht⟩
    · exact .inr ⟨hd, id, hid, ht⟩
  | execute call =>
    rw [Overlap.step]
    split
    · exact .inr ⟨hd, id, hid, ht⟩
    · rename_i d' hfind
      split
      · rename_i hawaited
        rcases tokensAt_executeTaken d'.taken s.store ht with ht' | ⟨htaken, ht'⟩
        · exact .inl (hsettled _ ht')
        · -- The call itself leaves nothing behind: what it awaits was in the background.
          have hne : d ≠ d' := by
            rintro rfl
            rcases hid with hid | hid
            · exact htaken hid
            · obtain ⟨b, hb, rfl, -⟩ := exists_of_tokensAt ht
              exact hawaited b.id hid (h.traced.background b hb (.inr ⟨d, hd, hid⟩))
          exact .inr ⟨(List.mem_erase_of_ne hne).2 hd, id, hid, ht'⟩
      · exact .inr ⟨hd, id, hid, ht⟩
  | finish call =>
    right
    rw [Overlap.step]
    split
    · exact ⟨hd, id, hid, ht⟩
    · exact ⟨hd, id, hid, ht⟩

theorem Sound.run_of_owes (h : s.Sound) (hd : d ∈ s.waiting) (howes : s.Owes d t)
    (actions : List Action) :
    (s.run actions).IsSettled t ∨ d ∈ (s.run actions).waiting ∧ (s.run actions).Owes d t := by
  induction actions generalizing s with
  | nil => exact .inr ⟨hd, howes⟩
  | cons a as ih =>
    rcases h.step_of_owes hd howes a with hsettled | ⟨hd', howes'⟩
    · exact .inl (hsettled.run as)
    · exact ih (h.step a) hd' howes'

/-- A call that starts owes all that is not settled, unless another call owes it already. -/
theorem Sound.start_of_accepted (h : s.Sound) (ht : t ∈ s.accepted) (last : Bool) :
    (s.step (.start last)).IsSettled t ∨
      ∃ d ∈ (s.step (.start last)).waiting, (d ∈ s.waiting ∨ d.call = s.started) ∧
        (s.step (.start last)).Owes d t := by
  rcases List.mem_append.1 (h.tokens.mem_iff.2 ht) with hsettled | hunsettled
  · exact .inl hsettled
  · right
    obtain ⟨b, hb, hb'⟩ := List.mem_flatMap.1 hunsettled
    have hwaits : t ∈ (take last s.pipeline).2.tokensAt b.id := by
      rw [tokensAt_take h.traced.wellFormed, tokensAt_of_mem h.traced.distinct hb]
      exact hb'
    have hbefore : ∀ d ∈ s.waiting, (d.taken = some b.id ∨ b.id ∈ d.awaited) →
        ∃ d ∈ (s.step (.start last)).waiting, (d ∈ s.waiting ∨ d.call = s.started) ∧
          (s.step (.start last)).Owes d t :=
      fun d hd hid => ⟨d, List.mem_append_left _ hd, .inl hd, b.id, hid, hwaits⟩
    have hnow : ((take last s.pipeline).1 = some b.id ∨ b.id ∈ (take last s.pipeline).2.inFlight) →
        ∃ d ∈ (s.step (.start last)).waiting, (d ∈ s.waiting ∨ d.call = s.started) ∧
          (s.step (.start last)).Owes d t :=
      fun hid => ⟨_, List.mem_append_right _ (List.mem_singleton_self _), .inr rfl, b.id, hid, hwaits⟩
    obtain ⟨htaken, hleft⟩ := take_cases last s.pipeline
    rcases h.traced.known b hb with hid | ⟨d, hd, hid⟩ | hid | ⟨d, hd, hid⟩
    · exact hnow (.inl (htaken.trans hid))
    · exact hbefore d hd (.inl hid)
    · apply hnow
      right
      rcases hleft with hleft | hleft
      · rw [hleft]
        exact hid
      · rw [hleft]
        exact hid
    · exact hbefore d hd (.inr hid)

end Steps

/-! ## Barriers -/

/-- When a call has returned, the mutations that were taken before it started are settled, but for
those that a call owes which was waiting before it and waits still. -/
theorem settled_unless_owed [Store σ] {executor : Bool} {size attempts : Nat}
    (hstart : Pipeline.start executor size attempts = .ok p) (store : σ)
    (before after : List Action) (last : Bool)
    (ht : t ∈ ((fresh p store).run before).accepted)
    (hreturned : ((fresh p store).run before).started ∈
      (((fresh p store).run before).run (.start last :: after)).returned.map Prod.fst) :
    let s := (fresh p store).run before
    let s' := s.run (.start last :: after)
    ¬ s'.IsSettled t ↔ ∃ d ∈ s.waiting, d ∈ s'.waiting ∧ s'.Owes d t := by
  intro s s'
  have hs : s.Sound := (sound_fresh hstart store).run before
  have hs' : s'.Sound := hs.run _
  constructor
  · intro hnot
    rcases hs.start_of_accepted ht last with hsettled | ⟨d, hd, hwho, howes⟩
    · exact absurd (hsettled.run after) hnot
    rcases (hs.step _).run_of_owes hd howes after with hsettled | ⟨hd', howes'⟩
    · exact absurd hsettled hnot
    rcases hwho with hearlier | hcall
    · exact ⟨d, hearlier, hd', howes'⟩
    · -- The call itself cannot wait and have returned.
      have hnodup := hs'.calls.nodup_iff.2 List.nodup_range
      unfold Overlap.calls at hnodup
      rw [List.nodup_append] at hnodup
      have hwaits : s.started ∈ s'.waiting.map Drain.call := hcall ▸ List.mem_map_of_mem hd'
      exact absurd rfl (hnodup.2.2 _ hwaits _ (List.mem_append_right _ hreturned))
  · rintro ⟨d, -, -, howes⟩
    exact hs'.not_settled_of_owes howes

/-- A second flush takes an empty list while the first one waits for a full batch. -/
theorem second_flush_does_not_wait :
    let before : List Action := [.enqueue (.set "k" [] none) none, .start false]
    let after : List Action := [.execute 1, .finish 1]
    ∃ p, Pipeline.start true 1 5 = .ok p ∧
      let s := (fresh p ({} : Memory)).run before
      let s' := s.run (.start false :: after)
      0 ∈ s.accepted ∧ s.started ∈ s'.returned.map Prod.fst ∧ ¬ s'.IsSettled 0 := by
  intro before after
  refine ⟨_, rfl, ?_⟩
  decide

theorem owed_by_first_flush :
    let before : List Action := [.enqueue (.set "k" [] none) none, .start false]
    let after : List Action := [.execute 1, .finish 1]
    ∃ p, Pipeline.start true 1 5 = .ok p ∧
      let s := (fresh p ({} : Memory)).run before
      let s' := s.run (.start false :: after)
      0 ∈ s.accepted ∧ s.started ∈ s'.returned.map Prod.fst ∧
        ∃ d ∈ s.waiting, d ∈ s'.waiting ∧ s'.Owes d 0 := by
  intro before after
  obtain ⟨p, hstart⟩ : ∃ p, Pipeline.start true 1 5 = .ok p := ⟨_, rfl⟩
  have hp := (Pipeline.of_start_ok hstart).2
  refine ⟨p, hstart, ?_, ?_,
    (settled_unless_owed hstart ({} : Memory) before after false ?_ ?_).1 ?_⟩
  all_goals
    rw [hp]
    decide

end Overlap

end BatchingCache
