import BatchingCache.Proofs.Cache.Qualification
/-!
# Runs of a cache

All that callers can ask of a cache, one thing after the other, between batches that are executed in
the background and changes of the store from outside.  A run of a cache with a namespace is a run of
one without that is asked for the same with keys in full.
-/

namespace BatchingCache

namespace Facade

inductive Answer : Type 1 where
  | result {α : Type} (result : Except CacheError α)
  | flushed (result : BatchResult)
  | health (healthy : Bool)

/-- What can happen to a cache.  The clock and other clients change the store from outside. -/
inductive Act (σ : Type) : Type 1 where
  | direct (op : Operation)
  | queue (w : Write)
  | scan {α : Type} (codec : Codec α) (calls : Nat) (pattern : String) (namespaced : Bool)
  | flush
  | shutdown
  | healthCheck (force : Bool)
  | background (id : Nat)
  | outside (change : σ → σ)

end Facade

structure Facade (σ : Type) : Type 1 where
  cache : Cache
  store : σ
  answers : List Facade.Answer := []
  settled : List Settlement := []
  metrics : List Metric := []

namespace Facade

variable {σ : Type}

/-- A request with its key, or its pattern, in full. -/
def Act.inFull (ns : Namespace) : Act σ → Act σ
  | direct op => direct (op.inFull ns)
  | queue w => queue (w.inFull ns)
  | scan codec calls pattern namespaced =>
    scan codec calls (ns.inFull namespaced pattern) namespaced
  | act => act

def bare (x : Facade σ) : Facade σ := { x with cache := x.cache.bare }

def tell (x : Facade σ) {α : Type} (o : Outcome σ α) : Facade σ :=
  { x with
    store := o.store
    answers := x.answers ++ [.result o.result]
    metrics := x.metrics ++ o.metrics }

def absorb (x : Facade σ) (c : Cache) (e : Execution σ) (answers : List Answer) : Facade σ where
  cache := c
  store := e.store
  answers := x.answers ++ answers
  settled := x.settled ++ e.settled
  metrics := x.metrics ++ e.metrics

variable [Store σ]

def step (x : Facade σ) : Act σ → Facade σ
  | .direct op => x.tell (op.run x.cache x.store)
  | .queue w =>
    let q := w.queue x.cache x.answers.length
    { x with cache := q.cache }.tell ⟨q.result, x.store, q.metrics⟩
  | .scan codec calls pattern namespaced =>
    x.tell (x.cache.scanByPattern codec calls pattern namespaced x.store)
  | .flush =>
    let (c, e) := x.cache.flush x.store
    x.absorb c e [.flushed e.result]
  | .shutdown =>
    let (c, e) := x.cache.shutdown x.store
    x.absorb c e [.flushed e.result]
  | .healthCheck force =>
    let k := x.cache.healthCheck force x.store
    x.absorb k.cache ⟨{}, k.store, [], k.metrics⟩ [.health k.healthy]
  | .background id =>
    let p := x.cache.pipeline
    if id ∈ p.background then
      let (pipeline, e) := { p with background := p.background.erase id }.executeBatch id x.store
      x.absorb { x.cache with pipeline } e []
    else x
  | .outside change => { x with store := change x.store }

def run (x : Facade σ) (acts : List (Act σ)) : Facade σ := acts.foldl step x

variable {x : Facade σ}

theorem tell_inFull (hns : x.cache.tenant.name ≠ "") (op : Operation) :
    x.bare.tell ((op.inFull x.cache.tenant).run x.cache.bare x.store) =
      (x.tell (op.run x.cache x.store)).bare := by
  cases op with
  | write w => exact congrArg x.bare.tell (w.direct_inFull hns)
  | getString r => exact congrArg x.bare.tell (Cache.get_inFull hns _ _ r)
  | getEntity codec r => exact congrArg x.bare.tell (Cache.get_inFull hns _ codec r)
  | getStrings r => exact congrArg x.bare.tell (Cache.getScored_inFull hns _ _ r)
  | getEntities codec r => exact congrArg x.bare.tell (Cache.getScored_inFull hns _ codec r)
  | putMap codec r => exact congrArg x.bare.tell (Cache.putMap_inFull hns codec r)
  | getMap codec r => exact congrArg x.bare.tell (Cache.getMap_inFull hns codec r)
  | deleteMap r => exact congrArg x.bare.tell (Cache.deleteMap_inFull hns r)

theorem step_inFull (hns : x.cache.tenant.name ≠ "") (act : Act σ) :
    x.bare.step (act.inFull x.cache.tenant) = (x.step act).bare := by
  cases act with
  | direct op => exact tell_inFull hns op
  | queue w =>
    simp only [Act.inFull, step, bare]
    rw [w.queue_inFull hns]
    rfl
  | scan codec calls pattern namespaced =>
    exact congrArg x.bare.tell (Cache.scanByPattern_inFull hns codec calls pattern namespaced)
  | healthCheck force =>
    simp only [Act.inFull, step, bare]
    rw [Cache.healthCheck_bare hns]
    rfl
  | background id =>
    have hbare : id ∈ x.bare.cache.pipeline.background ↔ id ∈ x.cache.pipeline.background := .rfl
    by_cases hid : id ∈ x.cache.pipeline.background
    · simp only [Act.inFull, step, if_pos (hbare.2 hid), if_pos hid]
      rfl
    · simp only [Act.inFull, step, if_neg (mt hbare.1 hid), if_neg hid]
  | flush => rfl
  | shutdown => rfl
  | outside change => rfl

theorem tenant_step (x : Facade σ) (act : Act σ) : (x.step act).cache.tenant = x.cache.tenant := by
  cases act with
  | queue w =>
    simp only [step, tell]
    rw [w.queue_eq]
    cases w.mutation x.cache.tenant with
    | error e => rfl
    | ok m => rfl
  | healthCheck force => cases force <;> rfl
  | background id =>
    simp only [step]
    split
    · rfl
    · rfl
  | _ => rfl

theorem run_inFull (hns : x.cache.tenant.name ≠ "") (acts : List (Act σ)) :
    x.bare.run (acts.map (Act.inFull x.cache.tenant)) = (x.run acts).bare := by
  induction acts generalizing x with
  | nil => rfl
  | cons act acts ih =>
    have htenant := x.tenant_step act
    calc x.bare.run ((act :: acts).map (Act.inFull x.cache.tenant))
      _ = (x.bare.step (act.inFull x.cache.tenant)).run (acts.map (Act.inFull x.cache.tenant)) := rfl
      _ = (x.step act).bare.run (acts.map (Act.inFull (x.step act).cache.tenant)) := by
        rw [step_inFull hns, htenant]
      _ = ((x.step act).run acts).bare := ih (htenant ▸ hns)

end Facade

theorem Cache.build_bare {executor : Bool} {config : Config} {c : Cache}
    (h : Cache.build executor config = .ok c) :
    Cache.build executor { config with keyNamespace := none } = .ok c.bare := by
  unfold Cache.build at h ⊢
  cases hstart : Pipeline.start executor config.pipelineSize config.batchRetries with
  | error e =>
    rw [hstart] at h
    cases h
  | ok p =>
    rw [hstart] at h
    cases h
    rfl

/-- A cache with a namespace, and one without that is given every key and pattern with the namespace
and the delimiter before it, unless its request steps out of the namespace: they tell their callers the
same, the same comes of their mutations, they record the same, and they leave the same in the store. -/
theorem Facade.namespace_once {σ : Type} [Store σ] {executor : Bool} {config : Config} {name : String}
    {c : Cache} (hname : config.namespaceName = some name) (hbuild : Cache.build executor config = .ok c)
    (s : σ) (acts : List (Act σ)) :
    ∃ c', Cache.build executor { config with keyNamespace := none } = .ok c' ∧
      let namespaced := ({ cache := c, store := s } : Facade σ).run acts
      let plain := ({ cache := c', store := s } : Facade σ).run (acts.map (Act.inFull ⟨name⟩))
      plain.answers = namespaced.answers ∧ plain.settled = namespaced.settled ∧
        plain.metrics = namespaced.metrics ∧ plain.store = namespaced.store := by
  obtain ⟨hns, hne⟩ := Config.ofName_namespaceName hname
  have htenant : c.tenant = ⟨name⟩ := (Cache.build_eq hbuild).1.trans hns
  refine ⟨c.bare, Cache.build_bare hbuild, ?_⟩
  intro namespaced plain
  have hrun : plain = namespaced.bare := by
    have hrun := run_inFull (x := { cache := c, store := s }) (by rwa [htenant]) acts
    rwa [htenant] at hrun
  rw [hrun]
  exact ⟨rfl, rfl, rfl, rfl⟩

theorem Facade.namespace_once_mixed :
    let config : Config := { keyNamespace := some " fleet " }
    let acts : List (Act Memory) :=
      [.queue (.putString { key := some "k", value := some "v" }), .flush,
        .direct (.getString { key := some "k" }),
        .direct (.getString { key := some "fleet:k", namespaced := false }),
        .direct (.getString {}), .scan .text 9 "*" true, .healthCheck true]
    ∃ c c', config.namespaceName = some "fleet" ∧ Cache.build true config = .ok c ∧
      Cache.build true { config with keyNamespace := none } = .ok c' ∧
      (({ cache := c', store := {} } : Facade Memory).run
          (acts.map (Act.inFull ⟨"fleet"⟩))).answers =
        (({ cache := c, store := {} } : Facade Memory).run acts).answers := by
  intro config acts
  have hname : config.namespaceName = some "fleet" := by decide
  obtain ⟨c, hbuild⟩ : ∃ c, Cache.build true config = .ok c := ⟨_, rfl⟩
  obtain ⟨c', hbuild', hanswers, -⟩ := namespace_once hname hbuild {} acts
  exact ⟨c, c', hname, hbuild, hbuild', hanswers⟩

end BatchingCache
