import BatchingCache.Cache.Health
import BatchingCache.Proofs.Cache.Writes
import BatchingCache.Proofs.KeyMap
import BatchingCache.Proofs.Store.Live
/-!
# What a probe leaves behind

A probe of a store in memory that goes well erases the probe key, whoever wrote it, and changes no other
key.
-/

namespace BatchingCache

theorem Content.sameLive_erase_iff {now : Nat} {key : String} {d : Content} :
    SameLive now (d.erase key) d ↔ d.live now key = none := by
  have herased : live now key (d.erase key) = none := by
    rw [live, KeyMap.get?_erase, if_pos rfl, Option.filter_none]
  constructor
  · intro hsame
    rw [← hsame key]
    exact herased
  · intro hnone k
    by_cases hk : k = key
    · rw [hk, herased, hnone]
    · apply live_congr
      rw [KeyMap.get?_erase, if_neg hk]

theorem Namespace.wireKey_outside (ns : Namespace) (key : String) : ns.wireKey key false = key := by
  simp [wireKey]

namespace Cache

/-! ## The calls of a probe -/

def probePut : Mutation := .set healthProbeKey (Utf8.encode healthProbeValue) none

def probeDelete : Mutation := .delete healthProbeKey

section

variable {σ : Type} [Store σ]

theorem putString_probe (c : Cache) (s : σ) :
    c.putString { key := some healthProbeKey, value := some healthProbeValue, namespaced := false } s =
      carryOut "put_string" (.ok probePut) s := by
  unfold putString probePut
  rw [put_eq_carryOut]
  show carryOut _ (.ok (.set (c.tenant.wireKey healthProbeKey false) _ none)) s = _
  rw [Namespace.wireKey_outside]

theorem delete_probe (c : Cache) (s : σ) :
    c.delete { key := some healthProbeKey, namespaced := false } s =
      carryOut "delete" (.ok probeDelete) s := by
  rw [delete_eq_carryOut]
  show carryOut _ (.ok (.delete (c.tenant.wireKey healthProbeKey false))) s = _
  rw [Namespace.wireKey_outside]
  rfl

theorem result_carryOut (name : String) (m : Mutation) (s : σ) :
    (carryOut name (.ok m) s).result =
      ((Store.call m.call s).1.mapError CacheError.store).map fun _ => () := by
  have hdirect : carryOut name (.ok m) s = direct name (discard (perform m.call)) s := rfl
  rw [hdirect, direct, run_discard_perform]

/-- A probe ends with the failure of its first call, or makes both. -/
theorem probe_cases (c : Cache) (s : σ) :
    (∃ e, (Store.call probePut.call s).1 = .error e ∧ (c.probe s).result = .error (.store e) ∧
      (c.probe s).store = (Store.call probePut.call s).2) ∨
    (Store.call probePut.call s).1 = .ok () ∧
      (c.probe s).store = (Store.call probeDelete.call (Store.call probePut.call s).2).2 := by
  have hstore : (carryOut "put_string" (.ok probePut) s).store = (Store.call probePut.call s).2 :=
    carryOut_ok.1
  have hresult := result_carryOut "put_string" probePut s
  unfold probe
  rw [putString_probe]
  cases hput : (Store.call probePut.call s).1 with
  | error e =>
    have hfailed : (carryOut "put_string" (.ok probePut) s).result = .error (.store e) := by
      rw [hresult, hput]
      rfl
    simp only [hfailed]
    exact .inl ⟨e, rfl, rfl, hstore⟩
  | ok x =>
    have hdone : (carryOut "put_string" (.ok probePut) s).result = .ok () := by
      rw [hresult, hput]
      rfl
    simp only [hdone, delete_probe, hstore]
    exact .inr ⟨rfl, carryOut_ok.1⟩

end

/-! ## A store in memory -/

variable {c : Cache} {s : Memory}

theorem not_healthy_of_failing (hs : s.failing = true) : (c.healthCheck true s).healthy = false := by
  show (c.probe s).result.isOk = false
  rcases probe_cases c s with ⟨e, -, hresult, -⟩ | ⟨hput, -⟩
  · rw [hresult]
    rfl
  · rw [show Store.call probePut.call s = _ from Memory.call_of_failing hs probePut.call] at hput
    cases hput

theorem content_probe (hs : s.failing = false) :
    (c.probe s).store.content = s.content.erase healthProbeKey := by
  have hput : (s.call probePut.call).2.content =
      s.content.insert healthProbeKey (.string (Utf8.encode healthProbeValue) none) :=
    Memory.content_call hs _
  have hdelete : ((s.call probePut.call).2.call probeDelete.call).2.content =
      (s.call probePut.call).2.content.erase healthProbeKey :=
    Memory.content_call ((Memory.failing_call _).trans hs) _
  rcases probe_cases c s with ⟨e, hfails, -, -⟩ | ⟨-, hstore⟩
  · have hanswer : (s.call probePut.call).1 = .ok () := Memory.fst_call hs _
    rw [show (Store.call probePut.call s).1 = .ok () from hanswer] at hfails
    cases hfails
  · rw [hstore]
    show ((s.call probePut.call).2.call probeDelete.call).2.content = _
    rw [hdelete, hput, KeyMap.erase_insert]

theorem now_probe : (c.probe s).store.now = s.now := by
  rcases probe_cases c s with ⟨e, -, -, hstore⟩ | ⟨-, hstore⟩
  · rw [hstore]
    exact Memory.now_call _
  · rw [hstore]
    exact (Memory.now_call _).trans (Memory.now_call _)

/-- After a forced check that finds the store healthy, every key but the probe key holds what it held
before, and the probe key holds nothing.  So the check does no damage exactly if nothing live was kept
under the probe key. -/
theorem check_erases_probe_key_alone (c : Cache) {s : Memory}
    (h : (c.healthCheck true s).healthy = true) :
    let after := (c.healthCheck true s).store
    after.now = s.now ∧
    (∀ key, key ≠ healthProbeKey → after.content.get? key = s.content.get? key) ∧
    after.content.get? healthProbeKey = none ∧
    (Content.SameLive s.now after.content s.content ↔
      s.content.live s.now healthProbeKey = none) := by
  have hs : s.failing = false := by
    by_contra hfailing
    rw [not_healthy_of_failing (eq_true_of_ne_false hfailing)] at h
    cases h
  have hcontent : (c.healthCheck true s).store.content = s.content.erase healthProbeKey :=
    content_probe hs
  intro after
  rw [hcontent]
  refine ⟨now_probe, fun key hkey => ?_, ?_, Content.sameLive_erase_iff⟩
  · rw [KeyMap.get?_erase, if_neg hkey]
  · rw [KeyMap.get?_erase, if_pos rfl]

theorem check_spares_expiring_string :
    let d : Content := (KeyMap.ofList
      [("fleet:a", .string [0x31] (some 9)), (healthProbeKey, .string [0x32] (some 5))])
    let s : Memory := { content := d, now := 7 }
    ∃ c, build true { keyNamespace := some "fleet" } = .ok c ∧
      (c.healthCheck true s).healthy = true ∧
      Content.SameLive 7 (c.healthCheck true s).store.content d := by
  intro d s
  obtain ⟨c, hbuild⟩ : ∃ c, build true { keyNamespace := some "fleet" } = .ok c := ⟨_, rfl⟩
  have hhealthy : (c.healthCheck true s).healthy = true := by
    cases hbuild
    rfl
  obtain ⟨-, -, -, hsame⟩ := check_erases_probe_key_alone c hhealthy
  exact ⟨c, hbuild, hhealthy, hsame.2 (by decide)⟩

/-- What a user keeps under the probe key is lost with the first forced check. -/
theorem check_loses_string_under_probe_key :
    let s : Memory := { content := KeyMap.ofList [("hello", .string [0x31] none)] }
    ∃ c, build true { keyNamespace := some "fleet" } = .ok c ∧
      (c.healthCheck true s).healthy = true ∧
      s.content.live 0 "hello" = some (.string [0x31] none) ∧
      (c.healthCheck true s).store.content.live 0 "hello" = none := by
  intro s
  exact ⟨_, rfl, rfl, by decide, by decide⟩

end Cache

end BatchingCache
