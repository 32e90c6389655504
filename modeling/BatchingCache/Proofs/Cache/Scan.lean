import BatchingCache.Cache.Scan
import BatchingCache.Proofs.Cache.Namespaces
import BatchingCache.Proofs.Cache.Queries
import BatchingCache.Proofs.Store.Observed
import BatchingCache.Proofs.Store.Pages
/-!
# Scans of a store at rest

A scan whose store does not change reads the matching strings in ascending order of their keys, page
by page, until the last page or the first string that cannot be read.
-/

namespace BatchingCache.Cache

variable {α σ : Type} {codec : Codec α} {limit : UInt64} {pattern : String}

/-! ## Reading the values of a page -/

theorem readPairs_append (ps qs : List (String × Bytes)) (found : KeyMap α) :
    readPairs codec (ps ++ qs) found = (readPairs codec ps found).bind (readPairs codec qs) := by
  induction ps generalizing found with
  | nil => rfl
  | cons p ps ih =>
    obtain ⟨key, bs⟩ := p
    rw [List.cons_append, readPairs, readPairs]
    cases codec.decode bs with
    | ok x => exact ih (found.insert key x)
    | error e => rfl

def Readable (codec : Codec α) (ps : List (String × Bytes)) : Prop :=
  ∀ p ∈ ps, ∃ x, codec.decode p.2 = .ok x

theorem readPairs_cases (codec : Codec α) (ps : List (String × Bytes)) (found : KeyMap α) :
    (Readable codec ps ∧ ∃ found', readPairs codec ps found = .ok found') ∨
      ∃ before key bs after e, ps = before ++ (key, bs) :: after ∧ Readable codec before ∧
        codec.decode bs = .error e ∧ readPairs codec ps found = .error (.decode key e) := by
  induction ps generalizing found with
  | nil => exact .inl ⟨nofun, found, rfl⟩
  | cons p ps ih =>
    obtain ⟨k, bs⟩ := p
    rw [readPairs]
    cases hbs : codec.decode bs with
    | error e => exact .inr ⟨[], k, bs, ps, e, rfl, nofun, hbs, rfl⟩
    | ok x =>
      rcases ih (found.insert k x) with
        ⟨hps, hread⟩ | ⟨before, key, bs', after, e, rfl, hbefore, he, hread⟩
      · exact .inl ⟨List.forall_mem_cons.2 ⟨⟨x, hbs⟩, hps⟩, hread⟩
      · exact .inr ⟨(k, bs) :: before, key, bs', after, e, rfl,
          List.forall_mem_cons.2 ⟨⟨x, hbs⟩, hbefore⟩, he, hread⟩

theorem get?_of_readPairs {ps : List (String × Bytes)} {found found' : KeyMap α}
    (h : readPairs codec ps found = .ok found') (key : String) :
    (found'.get? key).map Except.ok =
      ((ps.reverse.lookup key).map codec.decode).or ((found.get? key).map Except.ok) := by
  induction ps generalizing found with
  | nil =>
    cases h
    rfl
  | cons p ps ih =>
    obtain ⟨k, bs⟩ := p
    rw [readPairs] at h
    cases hbs : codec.decode bs with
    | error e =>
      rw [hbs] at h
      cases h
    | ok x =>
      rw [hbs] at h
      rw [ih h, List.reverse_cons, List.lookup_append, Option.map_or, Option.or_assoc]
      congr 1
      by_cases hk : k = key
      · subst hk
        simp [hbs]
      · simp [KeyMap.get?_insert_of_ne _ _ hk, List.lookup_cons, beq_false_of_ne (Ne.symm hk)]

def LastUnder (key : String) (bs : Bytes) (ps : List (String × Bytes)) : Prop :=
  ∃ before after, ps = before ++ (key, bs) :: after ∧ ∀ p ∈ after, p.1 ≠ key

theorem lookup_reverse_eq_some_iff {key : String} {bs : Bytes} {ps : List (String × Bytes)} :
    ps.reverse.lookup key = some bs ↔ LastUnder key bs ps := by
  rw [List.lookup_eq_some_iff]
  constructor
  · rintro ⟨after, before, hsplit, hafter⟩
    refine ⟨before.reverse, after.reverse, ?_, ?_⟩
    · have hps := congrArg List.reverse hsplit
      simpa using hps
    · intro p hp heq
      have hne := hafter p (List.mem_reverse.1 hp)
      simp [heq] at hne
  · rintro ⟨before, after, rfl, hafter⟩
    refine ⟨after.reverse, before.reverse, by simp, ?_⟩
    intro p hp
    exact bne_iff_ne.2 (hafter p (List.mem_reverse.1 hp)).symm

/-- What is found under a key is its last value. -/
theorem get?_of_readPairs_iff {ps : List (String × Bytes)} {found : KeyMap α}
    (h : readPairs codec ps ∅ = .ok found) {key : String} {x : α} :
    found.get? key = some x ↔ ∃ bs, LastUnder key bs ps ∧ codec.decode bs = .ok x := by
  have hok : Function.Injective (Except.ok : α → Except CodecError α) := fun _ _ => Except.ok.inj
  have hget := get?_of_readPairs h key
  rw [KeyMap.get?_empty, Option.map_none, Option.or_none] at hget
  rw [← (Option.map_injective hok).eq_iff, hget, Option.map_some, Option.map_eq_some_iff]
  simp only [lookup_reverse_eq_some_iff]

/-! ### Strings in ascending order of their keys -/

theorem lastUnder_iff_mem {ps : List (String × Bytes)} (hps : ps.Pairwise fun a b => a.1 < b.1)
    {key : String} {bs : Bytes} : LastUnder key bs ps ↔ (key, bs) ∈ ps := by
  constructor
  · rintro ⟨before, after, rfl, -⟩
    simp
  · intro hmem
    obtain ⟨before, after, rfl⟩ := List.append_of_mem hmem
    obtain ⟨-, hafter, -⟩ := List.pairwise_append.1 hps
    refine ⟨before, after, rfl, fun p hp heq => ?_⟩
    exact String.lt_irrefl key (heq ▸ (List.pairwise_cons.1 hafter).1 p hp)

theorem readPairs_ok {ps : List (String × Bytes)} (hps : ps.Pairwise fun a b => a.1 < b.1)
    (h : Readable codec ps) :
    ∃ found, readPairs codec ps ∅ = .ok found ∧ ∀ key x, found.get? key = some x ↔
      ∃ bs, (key, bs) ∈ ps ∧ codec.decode bs = .ok x := by
  rcases readPairs_cases codec ps ∅ with
    ⟨-, found, hread⟩ | ⟨before, key, bs, after, e, rfl, -, he, -⟩
  · refine ⟨found, hread, fun key x => ?_⟩
    simp only [get?_of_readPairs_iff hread, lastUnder_iff_mem hps]
  · obtain ⟨x, hx⟩ := h (key, bs) (by simp)
    rw [show codec.decode bs = .ok x from hx] at he
    cases he

/-- The first string that cannot be read ends it. -/
theorem readPairs_error {ps : List (String × Bytes)} (hps : ps.Pairwise fun a b => a.1 < b.1)
    (h : ¬ Readable codec ps) :
    ∃ key bs e, readPairs codec ps ∅ = .error (.decode key e) ∧ (key, bs) ∈ ps ∧
      codec.decode bs = .error e ∧
      ∀ p ∈ ps, ∀ e', codec.decode p.2 = .error e' → key ≤ p.1 := by
  rcases readPairs_cases codec ps ∅ with
    ⟨hreadable, -⟩ | ⟨before, key, bs, after, e, rfl, hbefore, he, hread⟩
  · exact absurd hreadable h
  · refine ⟨key, bs, e, hread, by simp, he, fun p hp e' he' => ?_⟩
    rcases List.mem_append.1 hp with hp | hp
    · obtain ⟨x, hx⟩ := hbefore p hp
      rw [hx] at he'
      cases he'
    · rcases List.mem_cons.1 hp with rfl | hp
      · exact String.le_refl _
      · obtain ⟨-, hafter, -⟩ := List.pairwise_append.1 hps
        have hlt : key < p.1 := (List.pairwise_cons.1 hafter).1 p hp
        exact String.not_lt.1 fun hgt => String.lt_irrefl key (String.lt_trans hlt hgt)

/-! ## Reading all strings that match -/

section Matching

variable {now : Nat} {pattern : Bytes} {d : Content}

theorem readMatches_ok
    (h : ∀ key value, d.Matches now pattern key value → ∃ x, codec.decode value = .ok x) :
    ∃ found, readPairs codec (Content.matchesOf now pattern d.toList) ∅ = .ok found ∧
      ∀ key x, found.get? key = some x ↔
        ∃ value, d.Matches now pattern key value ∧ codec.decode value = .ok x := by
  obtain ⟨found, hread, hfound⟩ := readPairs_ok Content.pairwise_matchesOf
    fun p hp => h p.1 p.2 (Content.mem_matchesOf_iff.1 hp)
  refine ⟨found, hread, fun key x => ?_⟩
  simp only [hfound, Content.mem_matchesOf_iff]

/-- The key that the failure names is the least one, by its bytes, of those that cannot be read. -/
theorem readMatches_error
    (h : ∃ key value e, d.Matches now pattern key value ∧ codec.decode value = .error e) :
    ∃ key value e,
      readPairs codec (Content.matchesOf now pattern d.toList) ∅ = .error (.decode key e) ∧
        d.Matches now pattern key value ∧ codec.decode value = .error e ∧
        ∀ key' value' e', d.Matches now pattern key' value' → codec.decode value' = .error e' →
          Utf8.encode key ≤ Utf8.encode key' := by
  have hunreadable : ¬ Readable codec (Content.matchesOf now pattern d.toList) := by
    obtain ⟨key, value, e, hmatching, he⟩ := h
    intro hreadable
    obtain ⟨x, hx⟩ := hreadable (key, value) (Content.mem_matchesOf_iff.2 hmatching)
    rw [show codec.decode value = .ok x from hx] at he
    cases he
  obtain ⟨key, value, e, hread, hmem, he, hleast⟩ :=
    readPairs_error Content.pairwise_matchesOf hunreadable
  refine ⟨key, value, e, hread, Content.mem_matchesOf_iff.1 hmem, he, ?_⟩
  intro key' value' e' hmatching' he'
  rw [Utf8.encode_le_encode_iff]
  exact hleast (key', value') (Content.mem_matchesOf_iff.2 hmatching') e' he'

end Matching

/-! ## One page after the other -/

theorem followCursor_succ [Store σ] (calls : Nat) (cursor : UInt64) (seen : Scanned α) (s : σ) :
    (followCursor codec limit pattern (calls + 1) cursor seen).run.run s =
      match Store.call (.scan cursor limit pattern) s with
      | (.error e, s) => (.error (.store e), s)
      | (.ok none, s) => (.ok (some seen), s)
      | (.ok (some page), s) =>
        match readPairs codec page.pairs seen.found with
        | .error e => (.error e, s)
        | .ok found =>
          if page.cursor = 0 then (.ok (some ⟨seen.pages + 1, found⟩), s)
          else (followCursor codec limit pattern calls page.cursor
            ⟨seen.pages + 1, found⟩).run.run s := by
  rw [followCursor, run_perform_bind]
  rcases Store.call (.scan cursor limit pattern) s with ⟨e | _ | page, s'⟩
  · rfl
  · rfl
  · refine (run_liftM_bind _ _).trans ?_
    dsimp only
    cases readPairs codec page.pairs seen.found with
    | error e => rfl
    | ok found =>
      by_cases hcursor : page.cursor = 0
      · simp only [hcursor, if_true]
        rfl
      · simp only [hcursor, if_false]
        rfl

section Resting

variable {now : Nat} {d : Content} {start : Nat}

def pagesFrom (d : Content) (limit : UInt64) (start : Nat) : Nat :=
  (d.size - start + (limit.toNat - 1)) / limit.toNat

theorem pagesFrom_of_last (hstart : start < d.size) (hlast : d.size ≤ start + limit.toNat) :
    pagesFrom d limit start = 1 := by
  rw [pagesFrom]
  exact Nat.div_eq_of_lt_le (by omega) (by omega)

theorem pagesFrom_of_more (hlimit : 0 < limit.toNat) (hmore : start + limit.toNat < d.size) :
    pagesFrom d limit start = pagesFrom d limit (start + limit.toNat) + 1 := by
  have hsplit : d.size - start + (limit.toNat - 1) =
      d.size - (start + limit.toNat) + (limit.toNat - 1) + limit.toNat := by omega
  rw [pagesFrom, hsplit, Nat.add_div_right _ hlimit, pagesFrom]

def pageCalls (d : Content) (limit : UInt64) (pattern : String) (start : Nat) : List Call :=
  (List.range (pagesFrom d limit start)).map fun i =>
    .scan (UInt64.ofNat (start + i * limit.toNat)) limit pattern

theorem pageCalls_of_last (hstart : start < d.size) (hlast : d.size ≤ start + limit.toNat) :
    pageCalls d limit pattern start = [.scan (UInt64.ofNat start) limit pattern] := by
  rw [pageCalls, pagesFrom_of_last hstart hlast]
  simp

theorem pageCalls_of_more (hlimit : 0 < limit.toNat) (hmore : start + limit.toNat < d.size) :
    pageCalls d limit pattern start =
      .scan (UInt64.ofNat start) limit pattern ::
        pageCalls d limit pattern (start + limit.toNat) := by
  rw [pageCalls, pagesFrom_of_more hlimit hmore, List.range_succ_eq_map, List.map_cons, List.map_map,
    pageCalls]
  congr 1
  · simp
  · apply List.map_congr_left
    intro i _
    simp only [Function.comp_apply]
    congr 2
    rw [Nat.succ_mul]
    omega

structure Rests (now : Nat) (d : Content) (s : Observed Memory) : Prop where
  content : s.store.content = d
  now : s.store.now = now
  failing : s.store.failing = false

theorem Rests.call_scan {s : Observed Memory} (h : Rests now d s) (cursor limit : UInt64)
    (pattern : String) :
    ∃ s', Store.call (.scan cursor limit pattern) s = (d.scan now cursor limit pattern, s') ∧
      Rests now d s' ∧ s'.calls = s.calls ++ [.scan cursor limit pattern] := by
  obtain ⟨rfl, rfl, hs⟩ := h
  refine ⟨⟨(s.store.call (.scan cursor limit pattern)).2, _⟩, Prod.ext ?_ rfl, ⟨?_, ?_, ?_⟩, rfl⟩
  · exact Memory.fst_call hs _
  · exact Memory.content_call hs _
  · exact Memory.now_call _
  · exact (Memory.failing_call _).trans hs

variable (codec pattern) in
/-- From a page on, a scan reads all strings that are left, unless one of them cannot be read. -/
theorem run_followCursor (hlimit : 0 < limit.toNat) (hsize : 2 * d.size ≤ UInt64.size) (calls : Nat)
    (seen : Scanned α) {s : Observed Memory} (hs : Rests now d s) (hstart : start < d.size)
    (hpage : start = 0 ∨ limit.toNat ≤ start) (hcalls : pagesFrom d limit start ≤ calls) :
    let r := (followCursor codec limit pattern calls (UInt64.ofNat start) seen).run.run s
    r.1 = (readPairs codec
        (Content.matchesOf now (Utf8.encode pattern) (d.toList.drop start)) seen.found).map
          (fun found => some ⟨seen.pages + pagesFrom d limit start, found⟩) ∧
      (r.1.isOk → r.2.calls = s.calls ++ pageCalls d limit pattern start) := by
  induction calls generalizing start seen s with
  | zero =>
    have hpages : 0 < pagesFrom d limit start := by
      by_cases hlast : d.size ≤ start + limit.toNat
      · rw [pagesFrom_of_last hstart hlast]
        exact Nat.one_pos
      · rw [pagesFrom_of_more hlimit (by omega)]
        exact Nat.succ_pos _
    omega
  | succ calls ih =>
    have hfits : start + limit.toNat < UInt64.size := by
      have := limit.toNat_lt_size
      omega
    obtain ⟨s', hcall, hs', hlog⟩ := hs.call_scan (UInt64.ofNat start) limit pattern
    rw [Content.scan_of_lt hstart hlimit hfits] at hcall
    rw [followCursor_succ, hcall]
    simp only [Content.pairs_page]
    by_cases hlast : d.size ≤ start + limit.toNat
    · have hall : (d.toList.drop start).take limit.toNat = d.toList.drop start := by
        apply List.take_of_length_le
        rw [List.length_drop]
        show d.size - start ≤ limit.toNat
        omega
      rw [hall, pagesFrom_of_last hstart hlast, pageCalls_of_last hstart hlast]
      cases readPairs codec _ seen.found with
      | error e => exact ⟨rfl, nofun⟩
      | ok found =>
        simp only [if_pos hlast, if_true]
        exact ⟨rfl, fun _ => hlog⟩
    · have hmore : start + limit.toNat < d.size := Nat.lt_of_not_le hlast
      have hnext : UInt64.ofNat (start + limit.toNat) ≠ 0 := by
        intro h
        have hzero := congrArg UInt64.toNat h
        rw [UInt64.toNat_ofNat_of_lt' hfits] at hzero
        have : start + limit.toNat = 0 := hzero
        omega
      rw [Content.matchesOf_drop _ start limit.toNat, readPairs_append,
        pagesFrom_of_more hlimit hmore, pageCalls_of_more hlimit hmore]
      rw [pagesFrom_of_more hlimit hmore] at hcalls
      cases readPairs codec _ seen.found with
      | error e => exact ⟨rfl, nofun⟩
      | ok found =>
        obtain ⟨hresult, hmade⟩ :=
          ih ⟨seen.pages + 1, found⟩ hs' hmore (.inr (Nat.le_add_left _ _)) (by omega)
        simp only [if_neg hlast, if_neg hnext]
        refine ⟨hresult.trans ?_, fun hok => ?_⟩
        · have hcount : seen.pages + (pagesFrom d limit (start + limit.toNat) + 1) =
              seen.pages + 1 + pagesFrom d limit (start + limit.toNat) := by omega
          rw [hcount]
          rfl
        · rw [hmade hok, hlog, List.append_assoc]
          rfl

variable (codec pattern) in
theorem run_followCursor_zero (hlimit : 0 < limit.toNat) (hsize : 2 * d.size ≤ UInt64.size)
    {calls pages : Nat} (hpages : pages = max 1 ((d.size + limit.toNat - 1) / limit.toNat))
    (hcalls : pages ≤ calls) {s : Observed Memory} (hs : Rests now d s) :
    let r := (followCursor codec limit pattern calls 0 {}).run.run s
    (∃ read, r.1 = (readPairs codec (Content.matchesOf now (Utf8.encode pattern) d.toList) ∅).map
        fun found => some ⟨read, found⟩) ∧
      (r.1.isOk → r.2.calls = s.calls ++ (List.range pages).map fun i =>
        .scan (UInt64.ofNat (i * limit.toNat)) limit pattern) := by
  by_cases hempty : d.size = 0
  · have hone : pages = 1 := by
      rw [hpages, hempty, Nat.zero_add, Nat.div_eq_of_lt (Nat.sub_lt hlimit Nat.one_pos)]
      rfl
    obtain ⟨calls, rfl⟩ : ∃ n, calls = n + 1 := ⟨calls - 1, by omega⟩
    have hnil : d.toList = [] := List.length_eq_zero_iff.1 hempty
    obtain ⟨s', hcall, -, hlog⟩ := hs.call_scan 0 limit pattern
    rw [Content.scan_of_isEmpty hempty] at hcall
    rw [followCursor_succ, hcall, hnil, hone]
    refine ⟨⟨0, rfl⟩, fun _ => hlog.trans ?_⟩
    simp
  · have hcount : pagesFrom d limit 0 = pages := by
      have hone : 1 ≤ (d.size + limit.toNat - 1) / limit.toNat :=
        (Nat.le_div_iff_mul_le hlimit).2 (by omega)
      have hsum : d.size - 0 + (limit.toNat - 1) = d.size + limit.toNat - 1 := by omega
      rw [hpages, pagesFrom, hsum]
      omega
    obtain ⟨hresult, hmade⟩ := run_followCursor codec pattern hlimit hsize calls {} hs
      (Nat.pos_of_ne_zero hempty) (.inl rfl) (hcount ▸ hcalls)
    refine ⟨⟨_, hresult⟩, fun hok => (hmade hok).trans ?_⟩
    rw [pageCalls, hcount]
    simp

variable (codec pattern) in
/-- What comes of a scan, and the calls that it makes if it goes well. -/
theorem scanByPattern_at_rest {c : Cache} (hlimit : 0 < c.scanLimit.toNat)
    (hsize : 2 * d.size ≤ UInt64.size) {calls pages : Nat}
    (hpages : pages = max 1 ((d.size + c.scanLimit.toNat - 1) / c.scanLimit.toNat))
    (hcalls : pages ≤ calls) (namespaced : Bool) {s : Observed Memory} (hs : Rests now d s) :
    let wire := c.tenant.wireKey pattern namespaced
    let o := c.scanByPattern codec calls pattern namespaced s
    o.result = (readPairs codec (Content.matchesOf now (Utf8.encode wire) d.toList) ∅).map some ∧
      (o.result.isOk → o.store.calls = s.calls ++ (List.range pages).map fun i =>
        .scan (UInt64.ofNat (i * c.scanLimit.toNat)) c.scanLimit wire) := by
  intro wire o
  obtain ⟨⟨read, hresult⟩, hmade⟩ := run_followCursor_zero codec wire hlimit hsize hpages hcalls hs
  have ho : o.result = Except.map (Option.map Scanned.found) ((readPairs codec
      (Content.matchesOf now (Utf8.encode wire) d.toList) ∅).map fun found => some ⟨read, found⟩) :=
    congrArg (Except.map (Option.map Scanned.found)) hresult
  rw [hresult] at hmade
  rw [ho]
  cases hread : readPairs codec (Content.matchesOf now (Utf8.encode wire) d.toList) ∅ with
  | error e => exact ⟨rfl, nofun⟩
  | ok found =>
    rw [hread] at hmade
    exact ⟨rfl, hmade⟩

end Resting

/-! ## Whole scans -/

/-- A scan of a store at rest finds just the live strings that match, with their values, or fails at
the least key whose value cannot be read.  No store holds more keys than half of the 64-bit numbers,
so no page ends past them. -/
theorem scan_at_rest {hasExecutor : Bool} {config : Config} {c : Cache}
    (hbuild : build hasExecutor config = .ok c) (hlimit : config.scanLimit < UInt64.size)
    {s : Memory} (hs : s.failing = false) (hsize : 2 * s.content.size ≤ UInt64.size)
    (codec : Codec α) (pattern : String) (namespaced : Bool) :
    let wire := c.tenant.wireKey pattern namespaced
    let limit := config.effectiveScanLimit
    let pages := max 1 ((s.content.size + limit - 1) / limit)
    let Matching := s.content.Matches s.now (Utf8.encode wire)
    ∀ calls, pages ≤ calls →
      let o := c.scanByPattern codec calls pattern namespaced (⟨s, []⟩ : Observed Memory)
      ((∀ key value, Matching key value → ∃ x, codec.decode value = .ok x) →
        ∃ found, o.result = .ok (some found) ∧
          (∀ key x, found.get? key = some x ↔
            ∃ value, Matching key value ∧ codec.decode value = .ok x) ∧
          o.store.calls = (List.range pages).map fun i =>
            .scan (UInt64.ofNat (i * limit)) (UInt64.ofNat limit) wire) ∧
      ((∃ key value e, Matching key value ∧ codec.decode value = .error e) →
        ∃ key value e, o.result = .error (.decode key e) ∧ Matching key value ∧
          codec.decode value = .error e ∧
          ∀ key' value' e', Matching key' value' → codec.decode value' = .error e' →
            Utf8.encode key ≤ Utf8.encode key') := by
  obtain ⟨-, hc⟩ := build_eq hbuild
  intro wire limit pages Matching calls hcalls o
  have hfits : limit < UInt64.size := by
    show max config.scanLimit Config.minScanLimit < UInt64.size
    have : Config.minScanLimit < UInt64.size := by decide
    omega
  have hnat : c.scanLimit.toNat = limit := by rw [hc, UInt64.toNat_ofNat_of_lt' hfits]
  have hpos : 0 < c.scanLimit.toNat := by
    rw [hnat]
    exact Nat.lt_of_lt_of_le (by decide : 0 < Config.minScanLimit) (Nat.le_max_right _ _)
  have hpages : pages = max 1 ((s.content.size + c.scanLimit.toNat - 1) / c.scanLimit.toNat) := by
    rw [hnat]
  have hrests : Rests s.now s.content (⟨s, []⟩ : Observed Memory) := ⟨rfl, rfl, hs⟩
  obtain ⟨ho, hmade⟩ :=
    scanByPattern_at_rest codec pattern hpos hsize hpages hcalls namespaced hrests
  constructor
  · intro hreadable
    obtain ⟨found, hread, hfound⟩ := readMatches_ok hreadable
    rw [hread] at ho
    have hok : o.result.isOk := by
      rw [ho]
      rfl
    refine ⟨found, ho, hfound, (hmade hok).trans ?_⟩
    rw [hnat, hc]
    exact List.nil_append _
  · intro hunreadable
    obtain ⟨key, value, e, hread, hmatching, he, hleast⟩ := readMatches_error hunreadable
    rw [hread] at ho
    exact ⟨key, value, e, ho, hmatching, he, hleast⟩

theorem scan_at_rest_finds_live_string :
    let s : Memory :=
      { content := .ofList [("a", .string [0x31] none), ("b", .string [0x32] (some 5))], now := 5 }
    let config : Config := { scanLimit := 3 }
    ∃ c, build true config = .ok c ∧ config.scanLimit < UInt64.size ∧ s.failing = false ∧
      2 * s.content.size ≤ UInt64.size ∧ ∃ found,
        (c.scanByPattern ⟨.ok, .ok⟩ 1 "*" true (⟨s, []⟩ : Observed Memory)).result =
          .ok (some found) ∧
        found.get? "a" = some [0x31] ∧ found.get? "b" = none := by
  intro s config
  have hbuild : build true config = .ok
      { tenant := ⟨""⟩
        scanLimit := 10
        healthMonitorEnabled := false
        needsRestartOnFailure := false
        pipeline := Pipeline.install { batchSize := 1000, maxAttempts := 5 } } := rfl
  have hsize : 2 * s.content.size ≤ UInt64.size := by decide
  refine ⟨_, hbuild, by decide, rfl, hsize, ?_⟩
  obtain ⟨hreads, -⟩ := scan_at_rest hbuild (by decide) (rfl : s.failing = false) hsize
    (⟨.ok, .ok⟩ : Codec Bytes) "*" true 1 (by decide)
  obtain ⟨found, hresult, hfound, -⟩ := hreads fun _ value _ => ⟨value, rfl⟩
  refine ⟨found, hresult, (hfound _ _).2 ⟨_, ⟨⟨none, by decide⟩, by decide⟩, rfl⟩, ?_⟩
  rw [Option.eq_none_iff_forall_ne_some]
  intro x hx
  obtain ⟨value, ⟨⟨expiresAt, hlive⟩, -⟩, -⟩ := (hfound _ _).1 hx
  have hexpired : s.content.live s.now "b" = none := by decide
  rw [hexpired] at hlive
  cases hlive

end BatchingCache.Cache
