import BatchingCache.Proofs.Cache.Deposits
import BatchingCache.Proofs.Cache.Scan
import BatchingCache.Proofs.Json.Doubles
import BatchingCache.Proofs.Store.Glob
/-!
# Readings that come back

Every reading can be written, and a value that is no finite number is written as `null`.  So a cache
takes all readings, and gives back those whose values are finite: a scan fails as soon as one of the
others is listed.
-/

namespace BatchingCache

open Deposit (Keeps Stocked Succeeded)

def Namespace.Lists (ns : Namespace) (namespaced : Bool) (wire : String) : Prop :=
  Glob.accepts (Utf8.encode (ns.wireKey "*" namespaced)) (Utf8.encode wire) = true

/-- A scan of the namespace lists the keys of the requests in it, and one that steps out of it the keys
of those that do, if no backslash in the name of the namespace takes a character literally. -/
theorem Namespace.lists_wireKey {ns : Namespace} (hns : '\\' ∉ ns.name.toList) (namespaced : Bool)
    (key : String) : ns.Lists namespaced (ns.wireKey key namespaced) := by
  unfold Namespace.Lists Namespace.wireKey
  split
  · exact Glob.accepts_any (Utf8.encode key)
  · have hlead : '\\' ∉ (ns.name ++ Namespace.delimiter).toList := by
      rw [String.toList_append, List.mem_append, not_or]
      exact ⟨hns, by decide⟩
    have hstar : Utf8.encode "*" = [0x2A] := by decide
    rw [Utf8.encode_append (ns.name ++ delimiter), Utf8.encode_append (ns.name ++ delimiter), hstar]
    exact Glob.accepts_beginning hlead (Utf8.encode key)

section Kept

variable {α : Type} {bytes : α → Bytes} {ns : Namespace} {ds : List (Deposit α)} {content : Content}
  {kept : KeyMap α}

theorem Deposit.Keeps.live (h : Keeps bytes ns ds content kept) (now : Nat) (wire : String) :
    content.live now wire = (kept.get? wire).map fun v => .string (bytes v) none := by
  rw [Content.live, h.content]
  cases kept.get? wire with
  | none => rfl
  | some v => rfl

theorem Deposit.Keeps.matches_iff (h : Keeps bytes ns ds content kept) {now : Nat}
    {pattern value : Bytes} {wire : String} : content.Matches now pattern wire value ↔
      (∃ v, kept.get? wire = some v ∧ bytes v = value) ∧
        Glob.accepts pattern (Utf8.encode wire) = true := by
  unfold Content.Matches
  rw [h.live]
  cases kept.get? wire with
  | none => simp
  | some v => simp

end Kept

/-! ## What is given back -/

def Reading.bytes (r : Reading) : Bytes := r.toJson.print

theorem Reading.encode_eq (r : Reading) : Reading.codec.encode r = .ok r.bytes := rfl

variable {c : Cache} {s : Memory} {kept : KeyMap Reading}

/-- A cache on a store that keeps these readings gives back those with finite values. -/
structure GivesBack (c : Cache) (s : Memory) (kept : KeyMap Reading) : Prop where
  got : ∀ {key namespaced r}, kept.get? (c.tenant.wireKey key namespaced) = some r →
    r.value.isFinite = true →
      ∃ y, (c.getEntity Reading.codec { key := some key, namespaced } s).result =
        .ok (some ⟨r.sensor, y⟩)
  lost : ∀ {key namespaced r}, kept.get? (c.tenant.wireKey key namespaced) = some r →
    r.value.isFinite = false →
      ∃ message, (c.getEntity Reading.codec { key := some key, namespaced } s).result =
        .error (.codec (.decode message))
  scanned : ∀ namespaced,
    (∀ wire r, kept.get? wire = some r → c.tenant.Lists namespaced wire → r.value.isFinite = true) →
      ∃ pages, ∀ calls, pages ≤ calls → ∃ found,
        (c.scanByPattern Reading.codec calls "*" namespaced (⟨s, []⟩ : Observed Memory)).result =
            .ok (some found) ∧
          ∀ wire sensor, (∃ y, found.get? wire = some ⟨sensor, y⟩) ↔
            c.tenant.Lists namespaced wire ∧ ∃ y, kept.get? wire = some ⟨sensor, y⟩
  spoiled : ∀ namespaced {wire r}, kept.get? wire = some r → c.tenant.Lists namespaced wire →
    r.value.isFinite = false →
      ∃ pages, ∀ calls, pages ≤ calls → ∃ wire' r' e,
        (c.scanByPattern Reading.codec calls "*" namespaced (⟨s, []⟩ : Observed Memory)).result =
            .error (.decode wire' e) ∧
          kept.get? wire' = some r' ∧ c.tenant.Lists namespaced wire' ∧ r'.value.isFinite = false

section Proof

variable {ds : List (Deposit Reading)}

theorem result_getEntity (hs : s.failing = false) (h : Keeps Reading.bytes c.tenant ds s.content kept)
    {key : String} {namespaced : Bool} {r : Reading}
    (hr : kept.get? (c.tenant.wireKey key namespaced) = some r) :
    (c.getEntity Reading.codec { key := some key, namespaced } s).result =
      ((Reading.codec.decode r.bytes).mapError CacheError.codec).map some := by
  have hlive : s.content.live s.now (c.tenant.wireKey key namespaced) = some (.string r.bytes none) := by
    rw [h.live, hr]
    rfl
  exact Cache.result_get hs hlive "get_entity"

theorem givesBack {executor : Bool} {config : Config}
    (hbuild : Cache.build executor config = .ok c) (hlimit : config.scanLimit < UInt64.size)
    (hs : s.failing = false) (hsize : 2 * s.content.size ≤ UInt64.size)
    (h : Keeps Reading.bytes c.tenant ds s.content kept) (p : Pipeline) :
    GivesBack { c with pipeline := p } s kept := by
  constructor
  · intro key namespaced r hr hfinite
    obtain ⟨y, hy⟩ := r.decode_encode hfinite
    refine ⟨y, (result_getEntity (c := { c with pipeline := p }) hs h hr).trans ?_⟩
    rw [Reading.bytes, hy]
    rfl
  · intro key namespaced r hr hfinite
    obtain ⟨message, he⟩ := r.decode_encode_error hfinite
    refine ⟨message, (result_getEntity (c := { c with pipeline := p }) hs h hr).trans ?_⟩
    rw [Reading.bytes, he]
    rfl
  · intro namespaced hfinite
    have hscan := Cache.scan_at_rest hbuild hlimit hs hsize Reading.codec "*" namespaced
    apply Exists.intro
    intro calls hcalls
    obtain ⟨hreads, -⟩ := hscan calls hcalls
    obtain ⟨found, hresult, hfound, -⟩ := hreads (by
      intro wire value hmatching
      obtain ⟨⟨r, hr, rfl⟩, hlists⟩ := h.matches_iff.1 hmatching
      obtain ⟨y, hy⟩ := r.decode_encode (hfinite wire r hr hlists)
      exact ⟨_, hy⟩)
    refine ⟨found, hresult, fun wire sensor => ?_⟩
    simp only [hfound, h.matches_iff]
    constructor
    · rintro ⟨y, value, ⟨⟨r, hr, rfl⟩, hlists⟩, hdecode⟩
      obtain ⟨z, hz⟩ := r.decode_encode (hfinite wire r hr hlists)
      have heq : (⟨r.sensor, z⟩ : Reading) = ⟨sensor, y⟩ := Except.ok.inj (hz.symm.trans hdecode)
      rw [Reading.mk.injEq] at heq
      exact ⟨hlists, r.value, by rw [hr, ← heq.1]⟩
    · rintro ⟨hlists, y, hr⟩
      obtain ⟨z, hz⟩ := Reading.decode_encode ⟨sensor, y⟩ (hfinite wire _ hr hlists)
      exact ⟨z, _, ⟨⟨_, hr, rfl⟩, hlists⟩, hz⟩
  · intro namespaced wire r hr hlists hfinite
    have hscan := Cache.scan_at_rest hbuild hlimit hs hsize Reading.codec "*" namespaced
    apply Exists.intro
    intro calls hcalls
    obtain ⟨-, hfails⟩ := hscan calls hcalls
    obtain ⟨message, he⟩ := r.decode_encode_error hfinite
    obtain ⟨wire', value, e, hresult, hmatching, hdecode, -⟩ :=
      hfails ⟨wire, r.bytes, _, h.matches_iff.2 ⟨⟨r, hr, rfl⟩, hlists⟩, he⟩
    obtain ⟨⟨r', hr', rfl⟩, hlists'⟩ := h.matches_iff.1 hmatching
    refine ⟨wire', r', e, hresult, hr', hlists', ?_⟩
    -- A value that is finite would have been read.
    cases hvalue : r'.value.isFinite with
    | false => rfl
    | true =>
      obtain ⟨y, hy⟩ := r'.decode_encode hvalue
      cases hdecode.symm.trans hy

/-- After a flush nothing waits, and what was put and queued is kept and given back. -/
theorem givesBack_flushed {executor : Bool} {config : Config}
    (hbuild : Cache.build executor config = .ok c) (hlimit : config.scanLimit < UInt64.size)
    (acts : List (Deposit.Act Reading)) (hfew : 2 * acts.length ≤ UInt64.size) :
    let x := (({ cache := c, store := {} } : Facade Memory).run
      (acts.map (Deposit.Act.onFacade Reading.codec))).step .flush
    ∃ id kept, Stocked Reading.bytes c config.pipelineSize (acts.filterMap Deposit.Act.deposit?) x []
      { id } kept ∧ GivesBack x.cache x.store kept := by
  intro x
  have hstart : Stocked Reading.bytes c config.pipelineSize [] { cache := c, store := {} } []
    { id := 1 } ∅ := Deposit.stocked_build hbuild
  obtain ⟨full, current, before, hrun⟩ := hstart.run Reading.encode_eq acts
  obtain ⟨id, kept, hend⟩ := hrun.flush
  rw [List.nil_append] at hend
  have hsize : 2 * x.store.content.size ≤ UInt64.size := by
    have hkeys := hend.keeps.size_le
    have hdeposits := List.length_filterMap_le Deposit.Act.deposit? acts
    exact Nat.le_trans (Nat.mul_le_mul_left 2 (Nat.le_trans hkeys hdeposits)) hfew
  refine ⟨id, kept, hend, ?_⟩
  rw [hend.cache]
  exact givesBack hbuild hlimit hend.failing hsize hend.keeps x.cache.pipeline

end Proof

/-- Readings are put and queued in any order, with batches executed in the background, until a flush.
All of that goes well, and just the keys that were written are kept, each with a reading that was given
for it.  Those with finite values are given back; a scan lists them all, or fails at one of the others. -/
theorem readings_come_back_iff_finite {executor : Bool} {config : Config} {c : Cache}
    (hbuild : Cache.build executor config = .ok c) (hlimit : config.scanLimit < UInt64.size)
    (acts : List (Deposit.Act Reading)) (hfew : 2 * acts.length ≤ UInt64.size) :
    let ds := acts.filterMap Deposit.Act.deposit?
    let x := (({ cache := c, store := {} } : Facade Memory).run
      (acts.map (Deposit.Act.onFacade Reading.codec))).step .flush
    (∀ a ∈ x.answers, Succeeded a) ∧ (∀ t ∈ x.settled, t.completion.isOk = true) ∧
      ('\\' ∉ c.tenant.name.toList → ∀ d ∈ ds, x.cache.tenant.Lists d.namespaced (d.wire c.tenant)) ∧
      ∃ kept : KeyMap Reading,
        (∀ wire, (kept.get? wire).isSome ↔ ∃ d ∈ ds, d.wire c.tenant = wire) ∧
          (∀ wire r, kept.get? wire = some r → ∃ d ∈ ds, d.wire c.tenant = wire ∧ d.value = r) ∧
          GivesBack x.cache x.store kept := by
  intro ds x
  obtain ⟨id, kept, hend, hback⟩ := givesBack_flushed hbuild hlimit acts hfew
  refine ⟨hend.answers, hend.settled, ?_, kept, hend.isSome_iff, hend.keeps.deposited, hback⟩
  intro hname d _
  rw [show x.cache.tenant = c.tenant from hend.tenant]
  exact Namespace.lists_wireKey hname d.namespaced d.key

theorem finite_readings_come_back :
    let config : Config := { keyNamespace := some "fleet" }
    let first : Deposit Reading := { key := "a", value := ⟨"s", ⟨0x3FB999999999999A⟩⟩ }
    let second : Deposit Reading := { key := "b", value := ⟨"t", ⟨0xFFEFFFFFFFFFFFFF⟩⟩ }
    let acts : List (Deposit.Act Reading) := [.put first, .queue second]
    ∃ c, Cache.build true config = .ok c ∧ config.scanLimit < UInt64.size ∧
      2 * acts.length ≤ UInt64.size ∧
      let x := (({ cache := c, store := {} } : Facade Memory).run
        (acts.map (Deposit.Act.onFacade Reading.codec))).step .flush
      ∃ pages, ∀ calls, pages ≤ calls → ∃ found y z,
        (x.cache.scanByPattern Reading.codec calls "*" true (⟨x.store, []⟩ : Observed Memory)).result =
            .ok (some found) ∧
          found.get? "fleet:a" = some ⟨"s", y⟩ ∧ found.get? "fleet:b" = some ⟨"t", z⟩ := by
  intro config first second acts
  obtain ⟨c, hbuild⟩ : ∃ c, Cache.build true config = .ok c := ⟨_, rfl⟩
  have htenant : c.tenant = ⟨"fleet"⟩ := by
    cases hbuild
    decide
  refine ⟨c, hbuild, by decide, by decide, ?_⟩
  intro x
  obtain ⟨-, -, hlists, kept, hkeys, hvalues, hback⟩ :=
    readings_come_back_iff_finite hbuild (by decide) acts (by decide)
  have hfirst : first.wire c.tenant = "fleet:a" := by
    rw [htenant]
    decide
  have hsecond : second.wire c.tenant = "fleet:b" := by
    rw [htenant]
    decide
  have hname : '\\' ∉ c.tenant.name.toList := by
    rw [htenant]
    decide
  have hkept : ∀ wire r, kept.get? wire = some r →
      wire = "fleet:a" ∧ r = first.value ∨ wire = "fleet:b" ∧ r = second.value := by
    intro wire r hr
    obtain ⟨d, hd, hwire, rfl⟩ := hvalues wire r hr
    have hcases : d = first ∨ d = second := by simpa [acts, Deposit.Act.deposit?] using hd
    rcases hcases with rfl | rfl
    · exact .inl ⟨hwire.symm.trans hfirst, rfl⟩
    · exact .inr ⟨hwire.symm.trans hsecond, rfl⟩
  have hthere : ∀ d ∈ [first, second], ∃ r, kept.get? (d.wire c.tenant) = some r :=
    fun d hd => Option.isSome_iff_exists.1 ((hkeys _).2 ⟨d, hd, rfl⟩)
  have hgot : kept.get? "fleet:a" = some first.value := by
    obtain ⟨r, hr⟩ := hthere first (by simp)
    rw [hfirst] at hr
    rcases hkept _ r hr with ⟨-, rfl⟩ | ⟨h, -⟩
    · exact hr
    · exact absurd h (by decide)
  have hgot' : kept.get? "fleet:b" = some second.value := by
    obtain ⟨r, hr⟩ := hthere second (by simp)
    rw [hsecond] at hr
    rcases hkept _ r hr with ⟨h, -⟩ | ⟨-, rfl⟩
    · exact absurd h (by decide)
    · exact hr
  obtain ⟨pages, hscan⟩ := hback.scanned true (by
    intro wire r hr _
    rcases hkept wire r hr with ⟨-, rfl⟩ | ⟨-, rfl⟩ <;> decide)
  refine ⟨pages, fun calls hcalls => ?_⟩
  obtain ⟨found, hresult, hfound⟩ := hscan calls hcalls
  have hlisted := hlists hname first (by simp [acts, Deposit.Act.deposit?])
  have hlisted' := hlists hname second (by simp [acts, Deposit.Act.deposit?])
  rw [hfirst] at hlisted
  rw [hsecond] at hlisted'
  obtain ⟨y, hy⟩ := (hfound "fleet:a" "s").2 ⟨hlisted, _, hgot⟩
  obtain ⟨z, hz⟩ := (hfound "fleet:b" "t").2 ⟨hlisted', _, hgot'⟩
  exact ⟨found, y, z, hresult, hy, hz⟩

/-- A value that is no number is taken, and from then on no scan of the cache comes to an end. -/
theorem not_a_number_spoils_scan :
    ¬ ∀ (config : Config) (c : Cache) (acts : List (Deposit.Act Reading)),
      Cache.build true config = .ok c →
      let x := (({ cache := c, store := {} } : Facade Memory).run
        (acts.map (Deposit.Act.onFacade Reading.codec))).step .flush
      (∀ a ∈ x.answers, Succeeded a) → (∀ t ∈ x.settled, t.completion.isOk = true) →
        (∃ pages, ∀ calls, pages ≤ calls → ∃ found,
          (x.cache.scanByPattern Reading.codec calls "*" true
            (⟨x.store, []⟩ : Observed Memory)).result = .ok (some found)) ∧
        ∀ d ∈ acts.filterMap Deposit.Act.deposit?, ∃ r,
          (x.cache.getEntity Reading.codec { key := some d.key, namespaced := d.namespaced }
            x.store).result = .ok (some r) := by
  intro hall
  let reading : Reading := ⟨"s", Binary64.nan false⟩
  let acts : List (Deposit.Act Reading) := [.put { key := "k", value := reading }]
  obtain ⟨c, hbuild⟩ : ∃ c, Cache.build true {} = .ok c := ⟨_, rfl⟩
  have htenant : c.tenant = ⟨""⟩ := by
    cases hbuild
    decide
  obtain ⟨id, kept, hend, hback⟩ := givesBack_flushed hbuild (by decide) acts (by decide)
  obtain ⟨⟨pages, hscan⟩, -⟩ := hall {} c acts hbuild hend.answers hend.settled
  obtain ⟨r, hr⟩ := Option.isSome_iff_exists.1 ((hend.isSome_iff "k").2
    ⟨{ key := "k", value := reading }, List.mem_cons_self, by rw [htenant]; decide⟩)
  obtain ⟨d, hd, -, rfl⟩ := hend.keeps.deposited "k" r hr
  obtain rfl := List.mem_singleton.1 hd
  obtain ⟨pages', hfails⟩ := hback.spoiled true hr
    (by rw [hend.tenant, htenant]; exact Glob.accepts_any _) (by decide)
  obtain ⟨found, hok⟩ := hscan (max pages pages') (Nat.le_max_left _ _)
  obtain ⟨wire, r, e, herror, -⟩ := hfails (max pages pages') (Nat.le_max_right _ _)
  cases hok.symm.trans herror

end BatchingCache
