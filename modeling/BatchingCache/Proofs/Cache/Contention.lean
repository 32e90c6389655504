import BatchingCache.Proofs.Batch.Settlement
import BatchingCache.Proofs.Cache.Writes
import BatchingCache.Proofs.Store.Locality
/-!
# Contention for a key

Puts that expect the same value of a key, and would all replace it by another one.  Whether they are
carried out directly or in batches, and in whatever order, the first of them is applied if the key holds
that value, and no other one is.
-/

namespace BatchingCache

/-- A call that changes what a key holds in no other way than by dropping it once it has expired. -/
def Call.Spares (key : String) : Call → Prop
  | .get _ => True
  | .scoredRange .. => True
  | .mapGet _ => True
  | .mapGetFields .. => True
  | .scan .. => True
  | c => c.Within (· ≠ key)

namespace Content

variable {now t : Nat} {key : String} {expected : Bytes} {expiresAt : Option Nat} {d : Content}

theorem live_answer_of_spares {c : Call} (h : c.Spares key) (hle : now ≤ t) :
    (d.answer now c).2.live t key = d.live t key := by
  have hframe (h : c.Within (· ≠ key)) : (d.answer now c).2.live t key = d.live t key :=
    live_congr ((confined_answer now h).frame fun hne => hne rfl)
  cases c with
  | get k =>
    show (d.read now k).2.live t key = _
    rw [snd_read]
    exact live_dropExpired hle
  | scoredRange k start stop reversed => rfl
  | mapGet k => rfl
  | mapGetFields k names => rfl
  | scan cursor count pattern => rfl
  | set k value ttl => exact hframe h
  | compareAndSet k expected value => exact hframe h
  | delete k => exact hframe h
  | scoredAdd k score member => exact hframe h
  | mapPut k fields => exact hframe h
  | mapDeleteFields k names => exact hframe h
  | batch ms => exact hframe h

theorem live_of_later {entry : Entry} (hle : now ≤ t) (h : d.live t key = some entry) :
    d.live now key = some entry := by
  obtain ⟨hget, hexpired⟩ := Option.filter_eq_some_iff.1 h
  rw [Bool.not_eq_true'] at hexpired
  refine Option.filter_eq_some_iff.2 ⟨hget, ?_⟩
  rw [Bool.not_eq_true']
  exact isExpired_eq_false_of_le hle hexpired

theorem live_of_before_deadline (h : d.get? key = some (.string expected expiresAt))
    (hbefore : ∀ instant ∈ expiresAt, t < instant) :
    d.live t key = some (.string expected expiresAt) := by
  refine Option.filter_eq_some_iff.2 ⟨h, ?_⟩
  rw [Bool.not_eq_true']
  exact isExpired_string_eq_false_iff.2 hbefore

theorem compareAndSet_of_live (value : Bytes)
    (h : d.live now key = some (.string expected expiresAt)) :
    d.compareAndSet now key expected value = (.ok true, d.insert key (.string value none)) := by
  obtain ⟨-, happlied⟩ | ⟨hnot, -⟩ := compareAndSet_cases now key expected value d
  · rw [happlied, dropExpired_of_live h]
  · exact absurd ⟨expiresAt, h⟩ hnot

theorem compareAndSet_of_not_live (value : Bytes)
    (h : ¬ ∃ expiresAt, d.live now key = some (.string expected expiresAt)) :
    d.compareAndSet now key expected value = (refusal (d.get? key), d.dropExpired now key) := by
  obtain ⟨hlive, -⟩ | ⟨-, hrefused⟩ := compareAndSet_cases now key expected value d
  · exact absurd hlive h
  · exact hrefused

end Content

/-! ## Contenders -/

structure Contender (key : String) (e : Bytes) where
  cache : Cache
  write : Write
  value : Bytes
  mutation_eq : write.mutation cache.tenant = .ok (.compareAndSet key e value)
  value_ne : value ≠ e

inductive Told where
  | direct (result : Except CacheError Unit)
  | queued (token : Token) (settlement : Settlement)

structure Report (key : String) (e : Bytes) where
  contender : Contender key e
  time : Nat
  applied : Bool
  told : Told

inductive Waiting (key : String) (e : Bytes) where
  | contender (x : Contender key e) (token : Token)
  | other (op : PendingOp)

/-- What happens to the store: a contender is carried out directly, a batch is executed, a call is made by
somebody else, or time passes. -/
inductive Turn (key : String) (e : Bytes) where
  | direct (x : Contender key e)
  | batch (id : Nat) (ops : List (Waiting key e))
  | call (c : Call)
  | wait (nanos : Nat)

variable {key : String} {e : Bytes}

namespace Report

def Wins (r : Report key e) : Prop :=
  r.applied = true ∧ match r.told with
    | .direct result => result = .ok ()
    | .queued token x => x = ⟨token, .ok r.contender.write.mutationId⟩

/-- A contender that is not applied is told so if it was queued.  If it was not, it is told only that the key
holds a value that is no string. -/
def Loses (misfit : Bool) (r : Report key e) : Prop :=
  r.applied = false ∧ match r.told with
    | .direct result => result = if misfit then .error (.store .wrongType) else .ok ()
    | .queued token x => x = ⟨token, .error (.batchProcessing .notApplied)⟩

end Report

namespace Contender

def pending (x : Contender key e) (token : Token) : PendingOp :=
  ⟨.compareAndSet key e x.value, x.write.mutationId, token⟩

theorem queue_eq (x : Contender key e) (token : Token) :
    x.write.queue x.cache token =
      let (result, pipeline, ms) := x.cache.pipeline.enqueue (x.pending token)
      ⟨result, { x.cache with pipeline }, ms ++ resultMetrics x.write.queueName result⟩ := by
  rw [x.write.queue_eq, x.mutation_eq]
  rfl

theorem direct_eq (x : Contender key e) (s : Memory) :
    (x.write.direct x.cache s).result =
        ((s.call (.compareAndSet key e x.value)).1.mapError CacheError.store).map (fun _ => ()) ∧
      (x.write.direct x.cache s).store = (s.call (.compareAndSet key e x.value)).2 := by
  refine ⟨?_, (Write.direct_of_mutation x.mutation_eq s).1⟩
  rw [x.write.direct_eq_carryOut, x.mutation_eq, carryOut]
  show (((discard (perform _) : Query Memory Unit).run.run s).1) = _
  rw [run_discard_perform]
  rfl

end Contender

namespace Waiting

def pending : Waiting key e → PendingOp
  | contender x token => x.pending token
  | other op => op

def contender? : Waiting key e → Option (Contender key e)
  | contender x _ => some x
  | other _ => none

def report? (now : Nat) (reply : Reply) (settlement : Settlement) :
    Waiting key e → Option (Report key e)
  | contender x token => some ⟨x, now, reply.isApplied, .queued token settlement⟩
  | other _ => none

def inOrder (now : Nat) : List (Waiting key e) → Content → List (Report key e)
  | [], _ => []
  | op :: ops, d =>
    let (reply, d) := d.mutate now op.pending.mutation
    (op.report? now reply ⟨op.pending.token, Batch.complete op.pending reply⟩).toList ++
      inOrder now ops d

end Waiting

namespace Turn

def contenders : Turn key e → List (Contender key e)
  | direct x => [x]
  | batch _ ops => ops.filterMap Waiting.contender?
  | _ => []

def Spares (k : String) : Turn key e → Prop
  | direct _ => True
  | batch _ ops => ∀ op, .other op ∈ ops → op.mutation.key ≠ k
  | call c => c.Spares k
  | wait _ => True

def play (s : Memory) : Turn key e → Memory
  | direct x => (x.write.direct x.cache s).store
  | batch id ops => (Batch.run id (ops.map Waiting.pending) s).store
  | call c => (s.call c).2
  | wait nanos => { s with now := s.now + nanos }

def reports (s : Memory) : Turn key e → List (Report key e)
  | direct x =>
    [⟨x, s.now, (s.call (.compareAndSet key e x.value)).1 = .ok true,
      .direct (x.write.direct x.cache s).result⟩]
  | batch id ops =>
    let pending := ops.map Waiting.pending
    let replies := (s.call (.batch (pending.map PendingOp.mutation))).1.toOption.getD []
    (ops.zip (replies.zip (Batch.run id pending s).settled)).filterMap
      fun (op, reply, settlement) => op.report? s.now reply settlement
  | _ => []

def playAll (turns : List (Turn key e)) (s : Memory) : Memory := turns.foldl play s

def reportsAll : List (Turn key e) → Memory → List (Report key e)
  | [], _ => []
  | turn :: turns, s => turn.reports s ++ reportsAll turns (turn.play s)

end Turn

/-! ## Contests -/

open Content

/-- What comes of contenders between two states of the store.  If the key holds what they expect, and goes
on to do so until the first one is carried out, that one wins and all others lose.  If it holds anything
else, all of them lose and it goes on holding that. -/
structure Contest (now : Nat) (d : Content) (reports : List (Report key e)) (now' : Nat)
    (d' : Content) : Prop where
  forward : now ≤ now'
  during : ∀ r ∈ reports, now ≤ r.time ∧ r.time ≤ now'
  held : ∀ expiresAt first others, d.get? key = some (.string e expiresAt) → reports = first :: others →
    (∀ instant ∈ expiresAt, first.time < instant) →
    first.Wins ∧ (∀ r ∈ others, r.Loses false) ∧
      d'.get? key = some (.string first.contender.value none)
  quiet : reports = [] → ∀ t, now' ≤ t → d'.live t key = d.live t key
  otherwise : (¬ ∃ expiresAt, d.live now key = some (.string e expiresAt)) →
    (∀ r ∈ reports, r.Loses (misfit (d.get? key))) ∧ ∀ t, now' ≤ t → d'.live t key = d.live t key

namespace Contest

variable {now now' now'' : Nat} {d d' d'' : Content} {reports reports' : List (Report key e)}

/-- Once one has won, the key does not hold what the others expect any more. -/
theorem all_lose_after (h : Contest now d reports now' d') {x : Contender key e}
    (hvalue : d.get? key = some (.string x.value none)) :
    (∀ r ∈ reports, r.Loses false) ∧ d'.get? key = some (.string x.value none) := by
  have hlive : ∀ t, d.live t key = some (.string x.value none) := fun t =>
    live_of_before_deadline hvalue nofun
  have hother : ¬ ∃ expiresAt, d.live now key = some (.string e expiresAt) := by
    rintro ⟨expiresAt, hheld⟩
    have heq := (hlive now).symm.trans hheld
    simp only [Option.some.injEq, Entry.string.injEq] at heq
    exact x.value_ne heq.1
  obtain ⟨hlose, hkept⟩ := h.otherwise hother
  rw [hvalue] at hlose
  have hend := (hkept now' (Nat.le_refl _)).trans (hlive now')
  exact ⟨hlose, (Option.filter_eq_some_iff.1 hend).1⟩

theorem trans (h : Contest now d reports now' d') (h' : Contest now' d' reports' now'' d'') :
    Contest now d (reports ++ reports') now'' d'' where
  forward := h.forward.trans h'.forward
  during := by
    refine List.forall_mem_append.2 ⟨fun r hr => ?_, fun r hr => ?_⟩
    · exact ⟨(h.during r hr).1, (h.during r hr).2.trans h'.forward⟩
    · exact ⟨h.forward.trans (h'.during r hr).1, (h'.during r hr).2⟩
  held expiresAt first others hget hreports hbefore := by
    cases reports with
    | nil =>
      -- Until the first one is carried out the key is left alone, so it still holds what is expected.
      have hreports : reports' = first :: others := hreports
      have htime := (h'.during first (hreports ▸ List.mem_cons_self)).1
      have hlive := (h.quiet rfl _ htime).trans (live_of_before_deadline hget hbefore)
      exact h'.held expiresAt first others (Option.filter_eq_some_iff.1 hlive).1 hreports hbefore
    | cons r rs =>
      obtain ⟨rfl, rfl⟩ := List.cons_eq_cons.1 hreports
      obtain ⟨hwins, hlose, hvalue⟩ := h.held expiresAt r rs hget rfl hbefore
      obtain ⟨hlose', hend⟩ := h'.all_lose_after hvalue
      exact ⟨hwins, List.forall_mem_append.2 ⟨hlose, hlose'⟩, hend⟩
  quiet hnone t hle := by
    obtain ⟨hnone, hnone'⟩ := List.append_eq_nil_iff.1 hnone
    exact (h'.quiet hnone' t hle).trans (h.quiet hnone t (h'.forward.trans hle))
  otherwise hother := by
    obtain ⟨hlose, hkept⟩ := h.otherwise hother
    have hother' : ¬ ∃ expiresAt, d'.live now' key = some (.string e expiresAt) := by
      rintro ⟨expiresAt, hheld⟩
      rw [hkept now' (Nat.le_refl _)] at hheld
      exact hother ⟨expiresAt, live_of_later h.forward hheld⟩
    obtain ⟨hlose', hkept'⟩ := h'.otherwise hother'
    rw [← misfit_live now' key d', hkept now' (Nat.le_refl _), misfit_live] at hlose'
    refine ⟨List.forall_mem_append.2 ⟨hlose, hlose'⟩, fun t hle => ?_⟩
    exact (hkept' t hle).trans (hkept t (h'.forward.trans hle))

theorem of_live (hle : now ≤ now') (hkept : ∀ t, now' ≤ t → d'.live t key = d.live t key) :
    Contest now d ([] : List (Report key e)) now' d' where
  forward := hle
  during := List.forall_mem_nil _
  held _ _ _ _ hreports := absurd hreports.symm (List.cons_ne_nil _ _)
  quiet _ := hkept
  otherwise _ := ⟨List.forall_mem_nil _, hkept⟩

theorem of_contender {r : Report key e} (htime : r.time = now)
    (hwins : (d.compareAndSet now key e r.contender.value).1 = .ok true → r.Wins)
    (hloses : (d.compareAndSet now key e r.contender.value).1 = refusal (d.get? key) →
      r.Loses (misfit (d.get? key))) :
    Contest now d [r] now (d.compareAndSet now key e r.contender.value).2 where
  forward := Nat.le_refl now
  during := List.forall_mem_singleton.2 ⟨htime.ge, htime.le⟩
  held expiresAt first others hget hreports hbefore := by
    obtain ⟨rfl, rfl⟩ := List.cons_eq_cons.1 hreports
    rw [htime] at hbefore
    have happlied := compareAndSet_of_live r.contender.value (live_of_before_deadline hget hbefore)
    refine ⟨hwins (by rw [happlied]), List.forall_mem_nil _, ?_⟩
    rw [happlied]
    exact KeyMap.get?_insert_self _ _ _
  quiet hnone := absurd hnone (List.cons_ne_nil _ _)
  otherwise hother := by
    have hrefused := compareAndSet_of_not_live r.contender.value hother
    refine ⟨List.forall_mem_singleton.2 (hloses (by rw [hrefused])), ?_⟩
    rw [hrefused]
    exact fun t hle => live_dropExpired hle

end Contest

/-! ## Batches -/

namespace Waiting

variable {now : Nat} {d : Content}

theorem contest_contender (now : Nat) (d : Content) (x : Contender key e) (token : Token) :
    let reply := (d.mutate now (x.pending token).mutation).1
    Contest now d
      [⟨x, now, reply.isApplied, .queued token ⟨token, Batch.complete (x.pending token) reply⟩⟩]
      now (d.mutate now (x.pending token).mutation).2 := by
  have hreply : (d.mutate now (x.pending token).mutation).1 =
      .applied ((d.compareAndSet now key e x.value).1.toOption.getD false) := rfl
  refine Contest.of_contender (r := ⟨x, now, _, .queued token ⟨token, _⟩⟩) rfl ?_ ?_
  · intro happlied
    rw [hreply, happlied]
    exact ⟨rfl, rfl⟩
  · intro hrefused
    have hnot : (refusal (d.get? key)).toOption.getD false = false :=
      Bool.eq_false_iff.2 (mt isApplied_toOption_iff.1 (refusal_ne_true _))
    rw [hreply, hrefused, hnot]
    exact ⟨rfl, rfl⟩

theorem contest_inOrder (now : Nat) (d : Content) {ops : List (Waiting key e)}
    (hspares : ∀ op, .other op ∈ ops → op.mutation.key ≠ key) :
    Contest now d (inOrder now ops d) now
      (d.mutateAll now ((ops.map pending).map PendingOp.mutation)).2 := by
  induction ops generalizing d with
  | nil => exact .of_live (Nat.le_refl now) fun _ _ => rfl
  | cons op ops ih =>
    have hrest := ih (d.mutate now op.pending.mutation).2
      fun op hop => hspares op (List.mem_cons_of_mem _ hop)
    cases op with
    | contender x token => exact (contest_contender now d x token).trans hrest
    | other op =>
      have hkey := hspares op List.mem_cons_self
      refine Contest.trans (.of_live (Nat.le_refl now) fun t _ => ?_) hrest
      exact live_congr ((confined_mutate now op.mutation).frame hkey.symm)

theorem map_contender_inOrder (ops : List (Waiting key e)) :
    (inOrder now ops d).map Report.contender = ops.filterMap contender? := by
  induction ops generalizing d with
  | nil => rfl
  | cons op ops ih =>
    rw [inOrder, List.map_append, ih]
    cases op with
    | contender x token => rfl
    | other op => rfl

/-- The reports of a batch come of its mutations one after the other. -/
theorem filterMap_zip_eq_inOrder (ops : List (Waiting key e)) :
    (ops.zip ((d.mutateAll now ((ops.map pending).map PendingOp.mutation)).1.zip
        (Batch.settleInOrder now (ops.map pending) d))).filterMap
      (fun (op, reply, settlement) => op.report? now reply settlement) = inOrder now ops d := by
  induction ops generalizing d with
  | nil => rfl
  | cons op ops ih =>
    rw [List.map_cons, List.map_cons, mutateAll_cons, Batch.settleInOrder_cons, List.zip_cons_cons,
      List.zip_cons_cons, List.filterMap_cons, inOrder, ih]
    cases op with
    | contender x token => rfl
    | other op => rfl

end Waiting

/-! ## Turns -/

namespace Turn

variable {s : Memory} {turn : Turn key e} {turns : List (Turn key e)}

theorem reports_batch (hs : s.failing = false) (id : Nat) (ops : List (Waiting key e)) :
    (batch id ops).reports s = Waiting.inOrder s.now ops s.content := by
  rw [reports, Memory.fst_call_batch hs, Batch.settled_run hs]
  exact Waiting.filterMap_zip_eq_inOrder ops

theorem failing_play (turn : Turn key e) (s : Memory) : (turn.play s).failing = s.failing := by
  cases turn with
  | direct x =>
    rw [play, (x.direct_eq s).2]
    exact Memory.failing_call _
  | batch id ops => exact Batch.failing_run id _
  | call c => exact Memory.failing_call c
  | wait nanos => rfl

theorem map_contender_reports (hs : s.failing = false) (turn : Turn key e) :
    (turn.reports s).map Report.contender = turn.contenders := by
  cases turn with
  | direct x => rfl
  | batch id ops =>
    rw [reports_batch hs]
    exact Waiting.map_contender_inOrder ops
  | call c => rfl
  | wait nanos => rfl

theorem contest_direct (hs : s.failing = false) (x : Contender key e) :
    Contest s.now s.content ((direct x).reports s) ((direct x).play s).now
      ((direct x).play s).content := by
  obtain ⟨hresult, hstore⟩ := x.direct_eq s
  have hanswer : (s.call (.compareAndSet key e x.value)).1 =
      (s.content.compareAndSet s.now key e x.value).1 := Memory.fst_call hs _
  have hcontent : (s.call (.compareAndSet key e x.value)).2.content =
      (s.content.compareAndSet s.now key e x.value).2 := Memory.content_call hs _
  rw [play, reports, hstore, hresult, Memory.now_call, hcontent, hanswer]
  refine Contest.of_contender (r := ⟨x, s.now, _, .direct _⟩) rfl ?_ ?_
  · intro happlied
    rw [happlied]
    exact ⟨rfl, rfl⟩
  · intro hrefused
    rw [hrefused, refusal]
    cases misfit (s.content.get? key) with
    | true => exact ⟨rfl, rfl⟩
    | false => exact ⟨rfl, rfl⟩

theorem contest_play (hs : s.failing = false) (hspares : turn.Spares key) :
    Contest s.now s.content (turn.reports s) (turn.play s).now (turn.play s).content := by
  cases turn with
  | direct x => exact contest_direct hs x
  | batch id ops =>
    rw [reports_batch hs, play, Batch.now_run, Batch.content_run hs]
    exact Waiting.contest_inOrder s.now s.content hspares
  | call c =>
    show Contest s.now s.content [] (s.call c).2.now (s.call c).2.content
    rw [Memory.now_call, Memory.content_call hs]
    exact .of_live (Nat.le_refl _) fun t hle => live_answer_of_spares hspares hle
  | wait nanos => exact .of_live (Nat.le_add_right _ _) fun _ _ => rfl

/-- What comes of the contenders of all turns. -/
theorem contest_playAll (hs : s.failing = false) (hspares : ∀ turn ∈ turns, turn.Spares key) :
    Contest s.now s.content (reportsAll turns s) (playAll turns s).now (playAll turns s).content := by
  induction turns generalizing s with
  | nil => exact .of_live (Nat.le_refl _) fun _ _ => rfl
  | cons turn turns ih =>
    obtain ⟨hturn, hturns⟩ := List.forall_mem_cons.1 hspares
    exact (contest_play hs hturn).trans (ih ((failing_play turn s).trans hs) hturns)

theorem map_contender_reportsAll (hs : s.failing = false) (turns : List (Turn key e)) :
    (reportsAll turns s).map Report.contender = turns.flatMap contenders := by
  induction turns generalizing s with
  | nil => rfl
  | cons turn turns ih =>
    rw [reportsAll, List.map_append, map_contender_reports hs, ih ((failing_play turn s).trans hs),
      List.flatMap_cons]

/-- Nothing but the key of the contenders is touched by them. -/
theorem live_play (hs : s.failing = false) {k : String} (hk : k ≠ key) (hspares : turn.Spares k) :
    s.now ≤ (turn.play s).now ∧
      ∀ t, (turn.play s).now ≤ t → (turn.play s).content.live t k = s.content.live t k := by
  cases turn with
  | direct x =>
    rw [play, (x.direct_eq s).2, Memory.now_call, Memory.content_call hs]
    refine ⟨Nat.le_refl _, fun t _ => live_congr ?_⟩
    exact (confined_compareAndSet s.now key e x.value).frame hk
  | batch id ops =>
    rw [play, Batch.now_run, Batch.content_run hs]
    refine ⟨Nat.le_refl _, fun t _ => live_congr ?_⟩
    refine (confined_mutateAll (P := (· ≠ k)) s.now ?_).frame fun hne => hne rfl
    intro m hm
    obtain ⟨op, hop, rfl⟩ := List.mem_map.1 hm
    obtain ⟨waiting, hwaiting, rfl⟩ := List.mem_map.1 hop
    cases waiting with
    | contender x token => exact hk.symm
    | other op => exact hspares op hwaiting
  | call c =>
    show s.now ≤ (s.call c).2.now ∧ _
    rw [play, Memory.now_call, Memory.content_call hs]
    exact ⟨Nat.le_refl _, fun t hle => live_answer_of_spares hspares hle⟩
  | wait nanos => exact ⟨Nat.le_add_right _ _, fun _ _ => rfl⟩

theorem live_playAll (hs : s.failing = false) {k : String} (hk : k ≠ key)
    (hspares : ∀ turn ∈ turns, turn.Spares k) :
    s.now ≤ (playAll turns s).now ∧
      ∀ t, (playAll turns s).now ≤ t → (playAll turns s).content.live t k = s.content.live t k := by
  induction turns generalizing s with
  | nil => exact ⟨Nat.le_refl _, fun _ _ => rfl⟩
  | cons turn turns ih =>
    obtain ⟨hturn, hturns⟩ := List.forall_mem_cons.1 hspares
    obtain ⟨hnow, hlive⟩ := live_play hs hk hturn
    obtain ⟨hnow', hlive'⟩ := ih ((failing_play turn s).trans hs) hturns
    exact ⟨hnow.trans hnow', fun t hle => (hlive' t hle).trans (hlive t (hnow'.trans hle))⟩

end Turn

/-- However contenders are carried out, directly or in batches, in whatever order and with other things
between them that leave their key alone: if the key holds what they expect, and does not expire before the
first one is carried out, that one is applied, its value is kept, and no other one is applied.  If the key
holds anything else none of them is, and it goes on holding that.  Whoever was queued is told so; who was
not is told nothing of it, unless the key holds a value that is no string.  What a queued contender hands
to the pipeline is the mutation that stands for it in a batch. -/
theorem first_contender_wins (s : Memory) (turns : List (Turn key e)) (hs : s.failing = false)
    (hspares : ∀ turn ∈ turns, turn.Spares key) :
    let t := Turn.playAll turns s
    let reports := Turn.reportsAll turns s
    reports.map Report.contender = turns.flatMap Turn.contenders ∧
      (∀ r ∈ reports, s.now ≤ r.time ∧ r.time ≤ t.now) ∧
      (∀ expiresAt first others, s.content.get? key = some (.string e expiresAt) →
        reports = first :: others → (∀ instant ∈ expiresAt, first.time < instant) →
        first.Wins ∧ (∀ r ∈ others, r.Loses false) ∧
          t.content.get? key = some (.string first.contender.value none)) ∧
      ((¬ ∃ expiresAt, s.content.live s.now key = some (.string e expiresAt)) →
        (∀ r ∈ reports, r.Loses (misfit (s.content.get? key))) ∧
          ∀ instant, t.now ≤ instant → t.content.live instant key = s.content.live instant key) ∧
      (∀ k, k ≠ key → (∀ turn ∈ turns, turn.Spares k) →
        ∀ instant, t.now ≤ instant → t.content.live instant k = s.content.live instant k) ∧
      ∀ (x : Contender key e) (token : Token),
        x.write.queue x.cache token =
          let (result, pipeline, ms) := x.cache.pipeline.enqueue (x.pending token)
          ⟨result, { x.cache with pipeline }, ms ++ resultMetrics x.write.queueName result⟩ := by
  intro t reports
  have hcontest := Turn.contest_playAll hs hspares
  exact ⟨Turn.map_contender_reportsAll hs turns, hcontest.during, hcontest.held, hcontest.otherwise,
    fun k hk hspares => (Turn.live_playAll hs hk hspares).2, Contender.queue_eq⟩

theorem queued_contender_wins :
    ∃ first second third : Contender "k" [97],
      first.write = .putString
        { key := some "k", value := some "b", expected := some "a", mutationId := some "m" } ∧
      second.write = .putString { key := some "k", value := some "c", expected := some "a" } ∧
      third.write = .putEntity .text { key := some "k", value := some "d", expected := some "a" } ∧
      let s : Memory := { content := KeyMap.ofList [("k", .string [97] (some 9))] }
      let turns : List (Turn "k" [97]) := [.call (.get "k"), .wait 8,
        .batch 1 [.other ⟨.delete "x", none, 0⟩, .contender first 1, .contender second 2],
        .direct third]
      s.failing = false ∧ (∀ turn ∈ turns, turn.Spares "k") ∧
        ∃ r others, Turn.reportsAll turns s = r :: others ∧ r.contender = first ∧ r.Wins ∧
          others.map Report.contender = [second, third] ∧ (∀ r ∈ others, r.Loses false) ∧
          (Turn.playAll turns s).content.get? "k" = some (.string [98] none) := by
  obtain ⟨c, -, htenant⟩ : ∃ c, Cache.build true {} = .ok c ∧ c.tenant = ⟨""⟩ := ⟨_, rfl, rfl⟩
  let first : Contender "k" [97] :=
    { cache := c
      write := .putString
        { key := some "k", value := some "b", expected := some "a", mutationId := some "m" }
      value := [98]
      mutation_eq := by rw [htenant]; rfl
      value_ne := by decide }
  let second : Contender "k" [97] :=
    { cache := c
      write := .putString { key := some "k", value := some "c", expected := some "a" }
      value := [99]
      mutation_eq := by rw [htenant]; rfl
      value_ne := by decide }
  let third : Contender "k" [97] :=
    { cache := c
      write := .putEntity .text { key := some "k", value := some "d", expected := some "a" }
      value := [100]
      mutation_eq := by rw [htenant]; rfl
      value_ne := by decide }
  refine ⟨first, second, third, rfl, rfl, rfl, ?_⟩
  intro s turns
  have hspares : ∀ turn ∈ turns, turn.Spares "k" := by
    simp only [turns, List.forall_mem_cons, List.not_mem_nil, false_implies, implies_true, and_true]
    refine ⟨trivial, trivial, ?_, trivial⟩
    intro op hop
    simp only [List.mem_cons, Waiting.other.injEq, reduceCtorEq, List.not_mem_nil, or_false] at hop
    rw [hop]
    exact (by decide : "x" ≠ "k")
  obtain ⟨hall, hduring, hheld, -⟩ := first_contender_wins s turns rfl hspares
  have hnow : (Turn.playAll turns s).now = 8 := by
    simp only [turns, Turn.playAll, List.foldl_cons, List.foldl_nil, Turn.play, (third.direct_eq _).2,
      Memory.now_call, Batch.now_run, s]
  obtain ⟨r, others, hreports, hfirst, hothers⟩ := List.map_eq_cons_iff.1 hall
  have htime : r.time ≤ 8 := hnow ▸ (hduring r (hreports ▸ List.mem_cons_self)).2
  obtain ⟨hwins, hlose, hvalue⟩ := hheld (some 9) r others rfl hreports fun instant hmem =>
    Option.mem_some.1 hmem ▸ Nat.lt_succ_of_le htime
  refine ⟨rfl, hspares, r, others, hreports, hfirst, hwins, hothers, hlose, ?_⟩
  rw [hvalue, hfirst]

end BatchingCache
