import BatchingCache.Proofs.Cache.Operations
import BatchingCache.Proofs.Pipeline.Confinement
/-!
# Tenants

Two caches share one store.  As long as each of them stays in its own namespace, and neither namespace
is part of the other, the first cache cannot tell whether the second one does anything.
-/

namespace BatchingCache

/-! ## One tenant -/

namespace Tenant

/-- What can happen to a cache.  A flush or a shutdown happens at once, or it takes the batch out of the
slot, batches in the background are executed, and the batch that was taken is executed last. -/
inductive Act : Type 1 where
  | direct (op : Operation)
  | queue (w : Write)
  | flush
  | shutdown
  /-- The batch is taken out of the slot, for good if `last`. -/
  | take (last : Bool)
  | execute (id : Nat)
  | background (id : Nat)

inductive Answer : Type 1 where
  | direct (op : Operation) (result : Except CacheError op.Result)
  | queued (result : Except CacheError Unit)
  | flushed (result : BatchResult)

def Act.namespaced : Act → Bool
  | direct op => op.namespaced
  | queue w => w.namespaced
  | _ => true

end Tenant

structure Tenant : Type 1 where
  cache : Cache
  /-- The batches that were taken out of the slot and wait to be executed. -/
  taken : List Nat := []
  answers : List Tenant.Answer := []
  settled : List Settlement := []

namespace Tenant

def reply (a : Answer) (t : Tenant) : Tenant := { t with answers := t.answers ++ [a] }

def absorb (r : Cache × Execution Memory) (t : Tenant) : Tenant :=
  { t with cache := r.1, settled := t.settled ++ r.2.settled }

def step (t : Tenant) (act : Act) (s : Memory) : Tenant × Memory :=
  let c := t.cache
  match act with
  | .direct op => (t.reply (.direct op (op.run c s).result), (op.run c s).store)
  | .queue w =>
    let q := w.queue c t.answers.length
    ({ t with cache := q.cache }.reply (.queued q.result), s)
  | .flush =>
    let r := c.flush s
    ((t.absorb r).reply (.flushed r.2.result), r.2.store)
  | .shutdown =>
    let r := c.shutdown s
    ((t.absorb r).reply (.flushed r.2.result), r.2.store)
  | .take false =>
    let (id, p, _) := c.pipeline.rotate
    let pipeline := { p with inFlight := [] }
    ({ t with cache := { c with pipeline }, taken := t.taken ++ id.toList }, s)
  | .take true =>
    let (id, p) := c.pipeline.takeLast
    let pipeline := { p with inFlight := [] }
    ({ t with cache := { c with pipeline }, taken := t.taken ++ id.toList }, s)
  | .execute id =>
    if id ∈ t.taken then
      let (pipeline, e) := c.pipeline.countFlushed.executeBatch id s
      let t := { t with taken := t.taken.erase id }
      ((t.absorb ({ c with pipeline }, e)).reply (.flushed e.result), e.store)
    else (t, s)
  | .background id =>
    if id ∈ c.pipeline.background then
      let p := { c.pipeline with background := c.pipeline.background.erase id }
      let (pipeline, e) := p.executeBatch id s
      (t.absorb ({ c with pipeline }, e), e.store)
    else (t, s)

/-! ## What a step of a tenant keeps to -/

structure KeepsTo (ns : Namespace) (t : Tenant) : Prop where
  tenant : t.cache.tenant = ns
  holds : t.cache.pipeline.Holds ns.Owns

variable {ns : Namespace} {t : Tenant} {act : Act}

/-- An execution that keeps to the keys of the namespace, and whatever is told of it. -/
theorem KeepsTo.absorb (h : t.KeepsTo ns) {f : Memory → Pipeline × Execution Memory}
    (hf : Pipeline.KeepsTo ns.Owns f) (tell : BatchResult → Tenant → Tenant)
    (htell : ∀ r t, (tell r t).cache = t.cache) :
    let after s := tell (f s).2.result (t.absorb ({ t.cache with pipeline := (f s).1 }, (f s).2))
    Memory.Confined ns.Owns (fun s => (after s, (f s).2.store)) ∧ ∀ s, (after s).KeepsTo ns := by
  refine ⟨hf.confined.map fun r => tell r.2.1
    { t with cache := { t.cache with pipeline := r.1 }, settled := t.settled ++ r.2.2 }, fun s => ?_⟩
  constructor
  · rw [htell]
    exact h.tenant
  · rw [htell]
    exact hf.holds s

theorem KeepsTo.queue (h : t.KeepsTo ns) (hns : ns.name ≠ "") {w : Write} (hw : w.namespaced)
    (token : Token) :
    (w.queue t.cache token).cache.tenant = ns ∧
      (w.queue t.cache token).cache.pipeline.Holds ns.Owns := by
  rw [w.queue_eq, h.tenant]
  cases hm : w.mutation ns with
  | error e => exact ⟨h.tenant, h.holds⟩
  | ok m => exact ⟨h.tenant, h.holds.enqueueWithin (w.owns_of_mutation hns hw hm) _⟩

/-- A step of a tenant reads and changes nothing but what the keys of its namespace hold. -/
theorem confined_step (hns : ns.name ≠ "") (h : t.KeepsTo ns) (hact : act.namespaced) :
    Memory.Confined ns.Owns (fun s => t.step act s) ∧ ∀ s, (t.step act s).1.KeepsTo ns := by
  have hflushed : ∀ (r : BatchResult) (t : Tenant), (t.reply (.flushed r)).cache = t.cache :=
    fun _ _ => rfl
  cases act with
  | direct op =>
    have hconfined := Operation.confined (h.tenant ▸ hns) hact
    rw [h.tenant] at hconfined
    exact ⟨hconfined.map fun r => t.reply (.direct op r), fun s => ⟨h.tenant, h.holds⟩⟩
  | queue w =>
    obtain ⟨htenant, hholds⟩ := h.queue hns hact t.answers.length
    exact ⟨Memory.confined_return _ _, fun s => ⟨htenant, hholds⟩⟩
  | flush => exact h.absorb (Pipeline.keepsTo_flush h.holds) (fun r t => t.reply (.flushed r)) hflushed
  | shutdown =>
    exact h.absorb (Pipeline.keepsTo_shutdown h.holds) (fun r t => t.reply (.flushed r)) hflushed
  | take last =>
    cases last with
    | false =>
      exact ⟨Memory.confined_return _ _, fun s => ⟨h.tenant, h.holds.rotate⟩⟩
    | true => exact ⟨Memory.confined_return _ _, fun s => ⟨h.tenant, h.holds⟩⟩
  | execute id =>
    by_cases hid : id ∈ t.taken
    · have ht : ({ t with taken := t.taken.erase id } : Tenant).KeepsTo ns := ⟨h.tenant, h.holds⟩
      simp only [step, if_pos hid]
      exact ht.absorb (Pipeline.keepsTo_executeBatch (p := t.cache.pipeline.countFlushed) h.holds id)
        (fun r t => t.reply (.flushed r)) hflushed
    · simp only [step, if_neg hid]
      exact ⟨Memory.confined_return _ _, fun _ => h⟩
  | background id =>
    by_cases hid : id ∈ t.cache.pipeline.background
    · simp only [step, if_pos hid]
      exact h.absorb (Pipeline.keepsTo_executeBatch
        (p := { t.cache.pipeline with background := t.cache.pipeline.background.erase id }) h.holds id)
        (fun _ t => t) fun _ _ => rfl
    · simp only [step, if_neg hid]
      exact ⟨Memory.confined_return _ _, fun _ => h⟩

theorem keepsTo_build {executor : Bool} {config : Config} {c : Cache}
    (h : Cache.build executor config = .ok c) : ({ cache := c } : Tenant).KeepsTo c.tenant := by
  refine ⟨rfl, ?_⟩
  unfold Cache.build Pipeline.start at h
  split at h
  · cases h
  · split at h
    · cases h
    · cases h
      exact Pipeline.Holds.install nofun

end Tenant

/-! ## Two tenants -/

inductive Side where
  | first
  | second
  deriving DecidableEq

structure Event : Type 1 where
  side : Side
  now : Nat
  act : Tenant.Act

structure Shared : Type 1 where
  first : Tenant
  second : Tenant
  store : Memory

def Memory.at (now : Nat) (s : Memory) : Memory := { s with now }

namespace Shared

def step (x : Shared) (e : Event) : Shared :=
  match e.side with
  | .first =>
    let (first, store) := x.first.step e.act (x.store.at e.now)
    { x with first, store }
  | .second =>
    let (second, store) := x.second.step e.act (x.store.at e.now)
    { x with second, store }

def run (x : Shared) (events : List Event) : Shared := events.foldl step x

variable {ns₁ ns₂ : Namespace} {x y : Shared} {e : Event}

/-- Two runs that the first tenant cannot tell apart. -/
structure Alike (ns₁ ns₂ : Namespace) (x y : Shared) : Prop where
  first : x.first = y.first
  keepsTo₁ : x.first.KeepsTo ns₁
  keepsTo₂ : x.second.KeepsTo ns₂
  store : ∀ now, Memory.Agree ns₁.Owns (x.store.at now) (y.store.at now)

theorem Alike.step_first (h : Alike ns₁ ns₂ x y) (hns : ns₁.name ≠ "") (hact : e.act.namespaced)
    (hside : e.side = .first) : Alike ns₁ ns₂ (x.step e) (y.step e) := by
  obtain ⟨hconfined, hkeeps⟩ := Tenant.confined_step hns h.keepsTo₁ hact
  obtain ⟨hfirst, hstore⟩ := hconfined.congr (h.store e.now)
  simp only [step, hside, ← h.first]
  exact ⟨hfirst, hkeeps _, h.keepsTo₂, fun now => ⟨hstore.content, rfl, hstore.failing⟩⟩

theorem Alike.step_second (h : Alike ns₁ ns₂ x y) (hns : ns₂.name ≠ "") (hact : e.act.namespaced)
    (hside : e.side = .second) (hapart : ∀ key, ns₁.Owns key → ¬ ns₂.Owns key) :
    Alike ns₁ ns₂ (x.step e) y := by
  obtain ⟨hconfined, hkeeps⟩ := Tenant.confined_step hns h.keepsTo₂ hact
  have hframe := (hconfined.frame (x.store.at e.now)).mono hapart
  simp only [step, hside]
  refine ⟨h.first, h.keepsTo₁, hkeeps _, fun now => ?_⟩
  have hstore := h.store now
  exact ⟨fun k hk => (hframe.content k hk).trans (hstore.content k hk), rfl,
    hframe.failing.trans hstore.failing⟩

theorem Alike.run (h : Alike ns₁ ns₂ x y) (hns₁ : ns₁.name ≠ "") (hns₂ : ns₂.name ≠ "")
    (hapart : ∀ key, ns₁.Owns key → ¬ ns₂.Owns key) {events : List Event}
    (hevents : ∀ e ∈ events, e.act.namespaced) :
    Alike ns₁ ns₂ (x.run events) (y.run (events.filter fun e => e.side = .first)) := by
  induction events generalizing x y with
  | nil => exact h
  | cons e events ih =>
    obtain ⟨hact, hrest⟩ := List.forall_mem_cons.1 hevents
    cases hside : e.side with
    | first =>
      rw [List.filter_cons_of_pos (by simp [hside])]
      exact ih (h.step_first hns₁ hact hside) hrest
    | second =>
      rw [List.filter_cons_of_neg (by simp [hside])]
      exact ih (h.step_second hns₂ hact hside hapart) hrest

/-- Two caches of one store, of which neither namespace begins with the other: what the first one is
told, what comes of its mutations and what its keys hold is as if the second one did nothing. -/
theorem first_cannot_tell_second {executor₁ executor₂ : Bool} {config₁ config₂ : Config}
    {name₁ name₂ : String} {c₁ c₂ : Cache} (hname₁ : config₁.namespaceName = some name₁)
    (hname₂ : config₂.namespaceName = some name₂) (hbuild₁ : Cache.build executor₁ config₁ = .ok c₁)
    (hbuild₂ : Cache.build executor₂ config₂ = .ok c₂)
    (h₁₂ : ¬ (⟨name₁⟩ : Namespace).Owns (name₂ ++ Namespace.delimiter))
    (h₂₁ : ¬ (⟨name₂⟩ : Namespace).Owns (name₁ ++ Namespace.delimiter)) (s : Memory)
    {events : List Event} (hevents : ∀ e ∈ events, e.act.namespaced) :
    let start : Shared := ⟨{ cache := c₁ }, { cache := c₂ }, s⟩
    let both := start.run events
    let alone := start.run (events.filter fun e => e.side = .first)
    both.first.answers = alone.first.answers ∧ both.first.settled = alone.first.settled ∧
      ∀ key, (⟨name₁⟩ : Namespace).Owns key →
        both.store.content.get? key = alone.store.content.get? key := by
  obtain ⟨hns₁, hne₁⟩ := Config.ofName_namespaceName hname₁
  obtain ⟨hns₂, hne₂⟩ := Config.ofName_namespaceName hname₂
  have htenant₁ : c₁.tenant = ⟨name₁⟩ := (Cache.build_eq hbuild₁).1.trans hns₁
  have htenant₂ : c₂.tenant = ⟨name₂⟩ := (Cache.build_eq hbuild₂).1.trans hns₂
  intro start both alone
  have hstart : Alike ⟨name₁⟩ ⟨name₂⟩ start start := by
    refine ⟨rfl, ?_, ?_, fun now => Memory.Agree.refl _ _⟩
    · exact htenant₁ ▸ Tenant.keepsTo_build hbuild₁
    · exact htenant₂ ▸ Tenant.keepsTo_build hbuild₂
  have hend := hstart.run hne₁ hne₂ (fun key => Namespace.not_owns_of_owns h₁₂ h₂₁) hevents
  exact ⟨congrArg Tenant.answers hend.first, congrArg Tenant.settled hend.first,
    (hend.store 0).content⟩

theorem first_cannot_tell_put_of_second :
    let config₁ : Config := { keyNamespace := some " fleet" }
    let config₂ : Config := { keyNamespace := some "depot" }
    let events : List Event :=
      [⟨.second, 3, .direct (.write (.putString { key := some "k", value := some "v" }))⟩,
        ⟨.first, 4, .queue (.delete { key := some "k" })⟩, ⟨.first, 5, .flush⟩,
        ⟨.first, 6, .direct (.getString { key := some "k" })⟩]
    ∃ c₁ c₂, config₁.namespaceName = some "fleet" ∧ config₂.namespaceName = some "depot" ∧
      Cache.build true config₁ = .ok c₁ ∧ Cache.build true config₂ = .ok c₂ ∧
      ¬ (⟨"fleet"⟩ : Namespace).Owns ("depot" ++ Namespace.delimiter) ∧
      ¬ (⟨"depot"⟩ : Namespace).Owns ("fleet" ++ Namespace.delimiter) ∧
      (∀ e ∈ events, e.act.namespaced) ∧
        let start : Shared := ⟨{ cache := c₁ }, { cache := c₂ }, {}⟩
        (start.run events).first.answers =
          (start.run (events.filter fun e => e.side = .first)).first.answers := by
  intro config₁ config₂ events
  have hname₁ : config₁.namespaceName = some "fleet" := by decide
  have hname₂ : config₂.namespaceName = some "depot" := by decide
  have h₁₂ : ¬ (⟨"fleet"⟩ : Namespace).Owns ("depot" ++ Namespace.delimiter) := by
    rintro ⟨rest, hrest⟩
    have hfirst := congrArg (fun s : String => s.toList.head?) hrest
    simp at hfirst
  have h₂₁ : ¬ (⟨"depot"⟩ : Namespace).Owns ("fleet" ++ Namespace.delimiter) := by
    rintro ⟨rest, hrest⟩
    have hfirst := congrArg (fun s : String => s.toList.head?) hrest
    simp at hfirst
  have hevents : ∀ e ∈ events, e.act.namespaced := by decide
  obtain ⟨c₁, hbuild₁⟩ : ∃ c, Cache.build true config₁ = .ok c := ⟨_, rfl⟩
  obtain ⟨c₂, hbuild₂⟩ : ∃ c, Cache.build true config₂ = .ok c := ⟨_, rfl⟩
  refine ⟨c₁, c₂, hname₁, hname₂, hbuild₁, hbuild₂, h₁₂, h₂₁, hevents, ?_⟩
  exact (first_cannot_tell_second hname₁ hname₂ hbuild₁ hbuild₂ h₁₂ h₂₁ {} hevents).1

end Shared

end BatchingCache
