import BatchingCache.Proofs.Cache.Entities
import BatchingCache.Proofs.Cache.Facade
import BatchingCache.Proofs.Pipeline.Backlog
import Mathlib.Data.List.Perm.Subperm
/-!
# What a cache keeps of what it was given

Values are put and queued under keys, with nothing in the way.  Once all that was queued has been
executed, the store holds just the keys that were written, and under each of them the bytes of a value
that was given for it.
-/

namespace BatchingCache

structure Deposit (α : Type) where
  key : String
  value : α
  mutationId : Option String := none
  namespaced : Bool := true
  deriving DecidableEq, Repr

namespace Deposit

variable {α : Type}

def request (d : Deposit α) : PutRequest α :=
  { key := some d.key, value := some d.value, mutationId := d.mutationId, namespaced := d.namespaced }

def wire (ns : Namespace) (d : Deposit α) : String := ns.wireKey d.key d.namespaced

inductive Act (α : Type) where
  | put (d : Deposit α)
  | queue (d : Deposit α)
  | background (id : Nat)
  | flush

def Act.deposit? : Act α → Option (Deposit α)
  | put d => some d
  | queue d => some d
  | _ => none

def Act.onFacade (codec : Codec α) : Act α → Facade.Act Memory
  | put d => .direct (.write (.putEntity codec d.request))
  | queue d => .queue (.putEntity codec d.request)
  | background id => .background id
  | flush => .flush

variable {bytes : α → Bytes} {ns : Namespace} {ds : List (Deposit α)} {content : Content}
  {kept : KeyMap α} {d : Deposit α}

/-! ## The store -/

/-- The store holds just the bytes of what is kept, and all of that was deposited. -/
structure Keeps (bytes : α → Bytes) (ns : Namespace) (ds : List (Deposit α)) (content : Content)
    (kept : KeyMap α) : Prop where
  content : ∀ wire, content.get? wire = (kept.get? wire).map fun v => .string (bytes v) none
  deposited : ∀ wire v, kept.get? wire = some v → ∃ d ∈ ds, d.wire ns = wire ∧ d.value = v

theorem Keeps.mono (h : Keeps bytes ns ds content kept) (more : List (Deposit α)) :
    Keeps bytes ns (ds ++ more) content kept := by
  refine ⟨h.content, fun wire v hv => ?_⟩
  obtain ⟨d, hd, hdeposit⟩ := h.deposited wire v hv
  exact ⟨d, List.mem_append_left more hd, hdeposit⟩

theorem Keeps.insert (h : Keeps bytes ns ds content kept) (hd : d ∈ ds) :
    Keeps bytes ns ds (content.insert (d.wire ns) (.string (bytes d.value) none))
      (kept.insert (d.wire ns) d.value) := by
  constructor
  · intro wire
    by_cases hwire : d.wire ns = wire
    · subst hwire
      rw [KeyMap.get?_insert_self, KeyMap.get?_insert_self]
      rfl
    · rw [KeyMap.get?_insert_of_ne _ _ hwire, KeyMap.get?_insert_of_ne _ _ hwire]
      exact h.content wire
  · intro wire v hv
    by_cases hwire : d.wire ns = wire
    · subst hwire
      rw [KeyMap.get?_insert_self] at hv
      exact ⟨d, hd, rfl, Option.some.inj hv⟩
    · rw [KeyMap.get?_insert_of_ne _ _ hwire] at hv
      exact h.deposited wire v hv

theorem isSome_insert_iff {wire wire' : String} {v : α} :
    ((kept.insert wire v).get? wire').isSome ↔ wire = wire' ∨ (kept.get? wire').isSome := by
  by_cases hwire : wire = wire'
  · subst hwire
    rw [KeyMap.get?_insert_self]
    simp
  · rw [KeyMap.get?_insert_of_ne _ _ hwire]
    simp [hwire]

/-! ## Mutations that wait -/

def Writes (bytes : α → Bytes) (ns : Namespace) (ds : List (Deposit α)) (op : PendingOp) : Prop :=
  ∃ d ∈ ds, op.mutation = .set (d.wire ns) (bytes d.value) none

theorem Writes.mono {op : PendingOp} (h : Writes bytes ns ds op) (more : List (Deposit α)) :
    Writes bytes ns (ds ++ more) op := by
  obtain ⟨d, hd, hop⟩ := h
  exact ⟨d, List.mem_append_left more hd, hop⟩

theorem Keeps.contentAfter (now : Nat) {ops : List PendingOp} (hops : ∀ op ∈ ops, Writes bytes ns ds op)
    (h : Keeps bytes ns ds content kept) :
    ∃ kept', Keeps bytes ns ds (Batch.contentAfter now ops content) kept' ∧
      ∀ wire, (kept'.get? wire).isSome ↔
        (kept.get? wire).isSome ∨ ∃ op ∈ ops, op.mutation.key = wire := by
  induction ops generalizing content kept with
  | nil => exact ⟨kept, h, fun wire => by simp⟩
  | cons op ops ih =>
    obtain ⟨⟨d, hd, hop⟩, hlater⟩ := List.forall_mem_cons.1 hops
    obtain ⟨kept', hkept', hkeys⟩ := ih hlater (h.insert hd)
    refine ⟨kept', ?_, fun wire => ?_⟩
    · have hfirst : (content.mutate now op.mutation).2 =
          content.insert (d.wire ns) (.string (bytes d.value) none) := by
        rw [hop]
        rfl
      have hsplit : Batch.contentAfter now (op :: ops) content =
          Batch.contentAfter now ops (content.mutate now op.mutation).2 := rfl
      rwa [hsplit, hfirst]
    · have hkey : op.mutation.key = d.wire ns := by
        rw [hop]
        rfl
      rw [hkeys, isSome_insert_iff, List.exists_mem_cons_iff, hkey, or_assoc, or_left_comm]

theorem isOk_of_settleInOrder {now : Nat} {ops : List PendingOp}
    (hops : ∀ op ∈ ops, Writes bytes ns ds op) :
    ∀ t ∈ Batch.settleInOrder now ops content, t.completion.isOk = true := by
  induction ops generalizing content with
  | nil => simp [Batch.settleInOrder]
  | cons op ops ih =>
    obtain ⟨⟨d, -, hop⟩, hlater⟩ := List.forall_mem_cons.1 hops
    rw [Batch.settleInOrder_cons, List.forall_mem_cons]
    refine ⟨?_, ih hlater⟩
    simp only [Batch.complete, hop]
    rfl

/-! ## Runs -/

def Succeeded : Facade.Answer → Prop
  | .result r => r.isOk = true
  | _ => True

theorem succeeded_append {answers : List Facade.Answer} {a : Facade.Answer}
    (h : ∀ a ∈ answers, Succeeded a) (ha : Succeeded a) : ∀ b ∈ answers ++ [a], Succeeded b := by
  intro b hb
  rcases List.mem_append.1 hb with hb | hb
  · exact h b hb
  · rw [List.mem_singleton.1 hb]
    exact ha

/-- All that was deposited is kept or waits, and nothing else is kept or waits. -/
structure Stocked (bytes : α → Bytes) (c : Cache) (size : Nat) (ds : List (Deposit α))
    (x : Facade Memory) (full : List Batch) (current : Batch) (kept : KeyMap α) : Prop where
  backlog : x.cache.pipeline.Backlog size full current
  cache : x.cache = { c with pipeline := x.cache.pipeline }
  failing : x.store.failing = false
  keeps : Keeps bytes c.tenant ds x.store.content kept
  waiting : ∀ op ∈ (full ++ [current]).flatMap Batch.pending, Writes bytes c.tenant ds op
  reached : ∀ d ∈ ds, (kept.get? (d.wire c.tenant)).isSome ∨
    ∃ op ∈ (full ++ [current]).flatMap Batch.pending, op.mutation.key = d.wire c.tenant
  answers : ∀ a ∈ x.answers, Succeeded a
  settled : ∀ t ∈ x.settled, t.completion.isOk = true

section Runs

variable {codec : Codec α} {c : Cache} {size : Nat} {x : Facade Memory} {full : List Batch}
  {current : Batch}

theorem Stocked.tenant (h : Stocked bytes c size ds x full current kept) :
    x.cache.tenant = c.tenant := by rw [h.cache]

theorem Stocked.cache_trans (h : Stocked bytes c size ds x full current kept) {y : Facade Memory}
    (hcache : y.cache = { x.cache with pipeline := y.cache.pipeline }) :
    y.cache = { c with pipeline := y.cache.pipeline } := by
  rw [hcache, h.cache]

theorem mutation_request (hbytes : ∀ v, codec.encode v = .ok (bytes v)) (d : Deposit α) :
    d.request.mutation ns codec = .ok (.set (d.wire ns) (bytes d.value) none) := by
  show (codec.write d.value >>= fun bs => _) = _
  rw [Codec.write, hbytes]
  rfl

theorem Stocked.put (hbytes : ∀ v, codec.encode v = .ok (bytes v))
    (h : Stocked bytes c size ds x full current kept) (d : Deposit α) :
    Stocked bytes c size (ds ++ [d]) (x.step ((Act.put d).onFacade codec)) full current
      (kept.insert (d.wire c.tenant) d.value) := by
  obtain ⟨hresult, hfailing, -, hcontent⟩ := Cache.put_of_encode (c := x.cache) h.failing
    (hbytes d.value) "put_entity" d.key d.mutationId d.namespaced
  rw [h.tenant] at hcontent
  have hstored : (x.step ((Act.put d).onFacade codec)).store.content =
      x.store.content.insert (d.wire c.tenant) (.string (bytes d.value) none) := hcontent
  have hd : d ∈ ds ++ [d] := List.mem_append_right ds (List.mem_singleton_self d)
  refine ⟨h.backlog, h.cache, hfailing, ?_, ?_, ?_, ?_, h.settled⟩
  · rw [hstored]
    exact (h.keeps.mono [d]).insert hd
  · exact fun op hop => (h.waiting op hop).mono [d]
  · intro d' hd'
    rw [isSome_insert_iff]
    rcases List.mem_append.1 hd' with hd' | hd'
    · rcases h.reached d' hd' with hkept | hwaits
      · exact .inl (.inr hkept)
      · exact .inr hwaits
    · rw [List.mem_singleton.1 hd']
      exact .inl (.inl rfl)
  · exact succeeded_append h.answers (congrArg Except.isOk hresult)

/-- One more mutation waits, in the slot or in the batch that just left it. -/
theorem Stocked.queued (h : Stocked bytes c size ds x full current kept) (d : Deposit α)
    {y : Facade Memory} (op : PendingOp)
    (hop : op.mutation = .set (d.wire c.tenant) (bytes d.value) none)
    {full' : List Batch} {current' : Batch} (hbacklog : y.cache.pipeline.Backlog size full' current')
    (hwaiting : (full' ++ [current']).flatMap Batch.pending =
      (full ++ [current]).flatMap Batch.pending ++ [op])
    (hcache : y.cache = { x.cache with pipeline := y.cache.pipeline }) (hstore : y.store = x.store)
    (hanswers : y.answers = x.answers ++ [.result (.ok () : Except CacheError Unit)])
    (hsettled : y.settled = x.settled) : Stocked bytes c size (ds ++ [d]) y full' current' kept := by
  refine ⟨hbacklog, h.cache_trans hcache, ?_, ?_, ?_, ?_, ?_, ?_⟩
  · rw [hstore]
    exact h.failing
  · rw [hstore]
    exact h.keeps.mono [d]
  · rw [hwaiting]
    intro op' hop'
    rcases List.mem_append.1 hop' with hop' | hop'
    · exact (h.waiting op' hop').mono [d]
    · rw [List.mem_singleton.1 hop']
      exact ⟨d, List.mem_append_right ds (List.mem_singleton_self d), hop⟩
  · rw [hwaiting]
    intro d' hd'
    rcases List.mem_append.1 hd' with hd' | hd'
    · rcases h.reached d' hd' with hkept | ⟨op', hop', hkey⟩
      · exact .inl hkept
      · exact .inr ⟨op', List.mem_append_left _ hop', hkey⟩
    · rw [List.mem_singleton.1 hd']
      refine .inr ⟨op, List.mem_append_right _ (List.mem_singleton_self op), ?_⟩
      rw [hop]
      rfl
  · rw [hanswers]
    exact succeeded_append h.answers rfl
  · rw [hsettled]
    exact h.settled

theorem Stocked.queue (hbytes : ∀ v, codec.encode v = .ok (bytes v))
    (h : Stocked bytes c size ds x full current kept) (d : Deposit α) :
    ∃ full' current', Stocked bytes c size (ds ++ [d]) (x.step ((Act.queue d).onFacade codec))
      full' current' kept := by
  let op : PendingOp := ⟨.set (d.wire c.tenant) (bytes d.value) none, d.mutationId, x.answers.length⟩
  have hmutation : (Write.putEntity codec d.request).mutation c.tenant = .ok op.mutation :=
    mutation_request hbytes d
  have hqueue := Write.queue_eq (.putEntity codec d.request) x.cache x.answers.length
  rw [h.tenant, hmutation] at hqueue
  obtain ⟨haccepted, hqueued⟩ := h.backlog.enqueue op
  have hcache : (x.step ((Act.queue d).onFacade codec)).cache =
      { x.cache with pipeline := (x.cache.pipeline.enqueue op).2.1 } := by
    show ((Write.putEntity codec d.request).queue x.cache x.answers.length).cache = _
    rw [hqueue]
    rfl
  have hanswers : (x.step ((Act.queue d).onFacade codec)).answers =
      x.answers ++ [.result (.ok () : Except CacheError Unit)] := by
    show x.answers ++
      [.result ((Write.putEntity codec d.request).queue x.cache x.answers.length).result] = _
    rw [hqueue, ← haccepted]
    rfl
  have htaken : ∀ full' current', (x.cache.pipeline.enqueue op).2.1.Backlog size full' current' →
      (full' ++ [current']).flatMap Batch.pending = (full ++ [current]).flatMap Batch.pending ++ [op] →
      Stocked bytes c size (ds ++ [d]) (x.step ((Act.queue d).onFacade codec)) full' current' kept := by
    intro full' current' hbacklog hwaiting
    have hpipeline : (x.step ((Act.queue d).onFacade codec)).cache.pipeline =
        (x.cache.pipeline.enqueue op).2.1 := congrArg Cache.pipeline hcache
    rw [← hpipeline] at hbacklog
    exact h.queued d op rfl hbacklog hwaiting (by rw [hpipeline, hcache]) rfl hanswers rfl
  split at hqueued
  · exact ⟨_, _, htaken _ _ hqueued (by simp)⟩
  · exact ⟨_, _, htaken _ _ hqueued (by simp)⟩

/-- What has been executed is kept and waits no more. -/
theorem Stocked.executed (h : Stocked bytes c size ds x full current kept) {y : Facade Memory}
    (ops : List PendingOp) {full' : List Batch} {current' : Batch}
    (hbacklog : y.cache.pipeline.Backlog size full' current')
    (hops : ∀ op, op ∈ (full ++ [current]).flatMap Batch.pending ↔
      op ∈ ops ∨ op ∈ (full' ++ [current']).flatMap Batch.pending)
    (hcache : y.cache = { x.cache with pipeline := y.cache.pipeline })
    (hfailing : y.store.failing = false)
    (hcontent : y.store.content = Batch.contentAfter x.store.now ops x.store.content)
    (hanswers : ∀ a ∈ y.answers, Succeeded a)
    (hsettled : y.settled = x.settled ++ Batch.settleInOrder x.store.now ops x.store.content) :
    ∃ kept', Stocked bytes c size ds y full' current' kept' := by
  have hwrites : ∀ op ∈ ops, Writes bytes c.tenant ds op :=
    fun op hop => h.waiting op ((hops op).2 (.inl hop))
  obtain ⟨kept', hkeeps, hkeys⟩ := h.keeps.contentAfter x.store.now hwrites
  rw [← hcontent] at hkeeps
  refine ⟨kept', hbacklog, h.cache_trans hcache, hfailing, hkeeps, ?_, ?_, hanswers, ?_⟩
  · exact fun op hop => h.waiting op ((hops op).2 (.inr hop))
  · intro d hd
    rw [hkeys]
    rcases h.reached d hd with hkept | ⟨op, hop, hkey⟩
    · exact .inl (.inl hkept)
    · rcases (hops op).1 hop with hdone | hwaits
      · exact .inl (.inr ⟨op, hdone, hkey⟩)
      · exact .inr ⟨op, hwaits, hkey⟩
  · rw [hsettled]
    intro t ht
    rcases List.mem_append.1 ht with ht | ht
    · exact h.settled t ht
    · exact isOk_of_settleInOrder hwrites t ht

theorem Stocked.background (h : Stocked bytes c size ds x full current kept) (id : Nat) :
    ∃ full' current' kept', Stocked bytes c size ds (x.step (.background id)) full' current' kept' := by
  by_cases hid : id ∈ x.cache.pipeline.background
  · obtain ⟨front, b, back, rfl, hrun, -, hbacklog⟩ := h.backlog.executeBatch (s := x.store) hid
    have hstep : x.step (.background id) = x.absorb
        { x.cache with pipeline := ({ x.cache.pipeline with
            background := x.cache.pipeline.background.erase id }.executeBatch id x.store).1 }
        (Batch.run id b.pending x.store) [] := by
      rw [← hrun]
      exact if_pos hid
    rw [hstep]
    refine ⟨_, _, h.executed b.pending hbacklog ?_ rfl ?_ ?_ ?_ ?_⟩
    · intro op
      simp only [List.flatMap_append, List.flatMap_cons, List.mem_append]
      tauto
    · exact (Batch.failing_run id b.pending).trans h.failing
    · exact Batch.content_run h.failing id b.pending
    · intro a ha
      exact h.answers a (by simpa [Facade.absorb] using ha)
    · exact congrArg (x.settled ++ ·) (Batch.settled_run h.failing id b.pending)
  · have hstep : x.step (.background id) = x := if_neg hid
    rw [hstep]
    exact ⟨full, current, kept, h⟩

theorem Stocked.flush (h : Stocked bytes c size ds x full current kept) :
    ∃ id kept', Stocked bytes c size ds (x.step .flush) [] { id } kept' := by
  obtain ⟨hbacklog, hstore, hsettled, -⟩ := h.backlog.flush (s := x.store)
  refine ⟨_, h.executed ((full ++ [current]).flatMap Batch.pending) hbacklog ?_ rfl ?_ ?_ ?_ ?_⟩
  · intro op
    simp
  · show (x.cache.pipeline.flush x.store).2.store.failing = false
    rw [hstore, Batch.failing_storeAfter, h.failing]
  · show (x.cache.pipeline.flush x.store).2.store.content = _
    rw [hstore, Batch.content_storeAfter h.failing]
  · exact succeeded_append h.answers trivial
  · show x.settled ++ (x.cache.pipeline.flush x.store).2.settled = _
    rw [hsettled, Batch.settledBy_eq h.failing]

theorem Stocked.step (hbytes : ∀ v, codec.encode v = .ok (bytes v))
    (h : Stocked bytes c size ds x full current kept) (act : Act α) :
    ∃ full' current' kept', Stocked bytes c size (ds ++ act.deposit?.toList)
      (x.step (act.onFacade codec)) full' current' kept' := by
  cases act with
  | put d => exact ⟨full, current, _, h.put hbytes d⟩
  | queue d =>
    obtain ⟨full', current', hqueued⟩ := h.queue hbytes d
    exact ⟨full', current', kept, hqueued⟩
  | background id =>
    have hstep := h.background id
    rwa [← List.append_nil ds] at hstep
  | flush =>
    obtain ⟨id, kept', hflushed⟩ := h.flush
    rw [← List.append_nil ds] at hflushed
    exact ⟨[], { id }, kept', hflushed⟩

theorem Stocked.run (hbytes : ∀ v, codec.encode v = .ok (bytes v))
    (h : Stocked bytes c size ds x full current kept) (acts : List (Act α)) :
    ∃ full' current' kept', Stocked bytes c size (ds ++ acts.filterMap Act.deposit?)
      (x.run (acts.map (Act.onFacade codec))) full' current' kept' := by
  induction acts generalizing x ds full current kept with
  | nil =>
    rw [List.filterMap_nil, List.append_nil]
    exact ⟨full, current, kept, h⟩
  | cons act acts ih =>
    obtain ⟨full', current', kept', hstep⟩ := h.step hbytes act
    have hall : ds ++ (act :: acts).filterMap Act.deposit? =
        ds ++ act.deposit?.toList ++ acts.filterMap Act.deposit? := by
      rw [List.filterMap_cons, List.append_assoc]
      cases act.deposit? <;> rfl
    rw [hall]
    exact ih hstep

theorem stocked_build {executor : Bool} {config : Config}
    (hbuild : Cache.build executor config = .ok c) :
    Stocked bytes c config.pipelineSize [] { cache := c, store := {} } [] { id := 1 } ∅ := by
  unfold Cache.build at hbuild
  cases hstart : Pipeline.start executor config.pipelineSize config.batchRetries with
  | error e =>
    rw [hstart] at hbuild
    cases hbuild
  | ok p =>
    rw [hstart] at hbuild
    cases hbuild
    obtain ⟨-, rfl⟩ := Pipeline.of_start_ok hstart
    exact ⟨Pipeline.backlog_first _ _, rfl, rfl, ⟨fun _ => rfl, nofun⟩, nofun, nofun, nofun, nofun⟩

/-- Once nothing waits, just the keys that were written are kept. -/
theorem Stocked.isSome_iff {id : Nat} (h : Stocked bytes c size ds x [] { id } kept) (wire : String) :
    (kept.get? wire).isSome ↔ ∃ d ∈ ds, d.wire c.tenant = wire := by
  constructor
  · intro hsome
    obtain ⟨v, hv⟩ := Option.isSome_iff_exists.1 hsome
    obtain ⟨d, hd, hwire, -⟩ := h.keeps.deposited wire v hv
    exact ⟨d, hd, hwire⟩
  · rintro ⟨d, hd, rfl⟩
    rcases h.reached d hd with hkept | ⟨op, hop, -⟩
    · exact hkept
    · cases hop

end Runs

theorem Keeps.size_le (h : Keeps bytes ns ds content kept) : content.size ≤ ds.length := by
  have hnodup : (content.toList.map Prod.fst).Nodup := by
    rw [List.nodup_iff_pairwise_ne, List.pairwise_map]
    apply content.sorted.imp
    intro a b hlt heq
    rw [heq] at hlt
    exact String.lt_irrefl _ hlt
  have hsubset : content.toList.map Prod.fst ⊆ ds.map (wire ns) := by
    intro key hkey
    obtain ⟨⟨key, e⟩, hmem, rfl⟩ := List.mem_map.1 hkey
    have hget := h.content key
    rw [KeyMap.mem_toList_iff.1 hmem, eq_comm, Option.map_eq_some_iff] at hget
    obtain ⟨v, hv, -⟩ := hget
    obtain ⟨d, hd, hwire, -⟩ := h.deposited key v hv
    exact List.mem_map.2 ⟨d, hd, hwire⟩
  have hlength := (List.subperm_of_subset hnodup hsubset).length_le
  rwa [List.length_map, List.length_map] at hlength

end Deposit

end BatchingCache
