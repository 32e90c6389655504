import BatchingCache.Proofs.Cache.Scan
import BatchingCache.Proofs.Store.Glob
/-!
# Scans and namespaces

The pattern of a scan is put behind the name of the namespace as a key is, but the name becomes a part
of the pattern.  So a scan stays in its namespace just if the name has no special characters.
-/

namespace BatchingCache.Cache

variable {α : Type} {codec : Codec α} {limit cursor : UInt64} {pattern : String} {c : Cache}

/-! ## Nothing but what matches -/

theorem accepts_of_scan {s s' : Memory} {page : Page}
    (h : Store.call (.scan cursor limit pattern) s = (.ok (some page), s')) :
    ∀ p ∈ page.pairs, Glob.accepts (Utf8.encode pattern) (Utf8.encode p.1) := by
  have hresult : (s.call (.scan cursor limit pattern)).1 = .ok (some page) := congrArg Prod.fst h
  cases hs : s.failing with
  | true =>
    rw [Memory.call_of_failing hs] at hresult
    cases hresult
  | false =>
    rw [Memory.fst_call hs] at hresult
    exact Content.accepts_of_scan hresult

theorem readPairs_within {Q : String → Prop} {ps : List (String × Bytes)} {found found' : KeyMap α}
    (hread : readPairs codec ps found = .ok found') (hps : ∀ p ∈ ps, Q p.1)
    (hfound : ∀ key x, found.get? key = some x → Q key) :
    ∀ key x, found'.get? key = some x → Q key := by
  intro key x hx
  have hget := get?_of_readPairs hread key
  rw [hx] at hget
  cases hlookup : ps.reverse.lookup key with
  | some bs =>
    obtain ⟨before, after, rfl, -⟩ := lookup_reverse_eq_some_iff.1 hlookup
    exact hps (key, bs) (by simp)
  | none =>
    rw [hlookup, Option.map_none, Option.none_or] at hget
    obtain ⟨y, hy, -⟩ := Option.map_eq_some_iff.1 hget.symm
    exact hfound key y hy

/-- Whatever a store holds and whether it fails, a scan finds nothing but keys that match. -/
theorem followCursor_within (calls : Nat) {seen seen' : Scanned α} {s : Memory}
    (hseen : ∀ key x, seen.found.get? key = some x →
      Glob.accepts (Utf8.encode pattern) (Utf8.encode key))
    (h : ((followCursor codec limit pattern calls cursor seen).run.run s).1 = .ok (some seen')) :
    ∀ key x, seen'.found.get? key = some x →
      Glob.accepts (Utf8.encode pattern) (Utf8.encode key) := by
  induction calls generalizing cursor seen s with
  | zero => cases h
  | succ calls ih =>
    rw [followCursor_succ] at h
    rcases hcall : Store.call (.scan cursor limit pattern) s with ⟨e | _ | page, s'⟩
    · rw [hcall] at h
      cases h
    · rw [hcall] at h
      cases h
      exact hseen
    · rw [hcall] at h
      dsimp only at h
      cases hread : readPairs codec page.pairs seen.found with
      | error e =>
        rw [hread] at h
        cases h
      | ok found =>
        rw [hread] at h
        dsimp only at h
        have hfound := readPairs_within hread (accepts_of_scan hcall) hseen
        split at h
        · cases h
          exact hfound
        · exact ih hfound h

theorem accepts_of_found {calls : Nat} {namespaced : Bool} {s : Memory} {found : KeyMap α}
    (h : (c.scanByPattern codec calls pattern namespaced s).result = .ok (some found)) :
    ∀ key x, found.get? key = some x →
      Glob.accepts (Utf8.encode (c.tenant.wireKey pattern namespaced)) (Utf8.encode key) := by
  have hmap : Except.map (Option.map Scanned.found)
      ((followCursor codec c.scanLimit (c.tenant.wireKey pattern namespaced) calls 0 {}).run.run s).1 =
        .ok (some found) := h
  rcases hrun : ((followCursor codec c.scanLimit (c.tenant.wireKey pattern namespaced) calls 0
      {}).run.run s).1 with e | _ | seen
  · rw [hrun] at hmap
    cases hmap
  · rw [hrun] at hmap
    cases hmap
  · rw [hrun] at hmap
    cases hmap
    refine followCursor_within calls (fun key x hx => ?_) hrun
    rw [KeyMap.get?_empty] at hx
    cases hx

/-! ## Everything that matches -/

def oneString (key : String) (value : Bytes) : Memory :=
  { content := (∅ : Content).insert key (.string value none) }

theorem scan_oneString {key : String} {value : Bytes} {x : α} (hx : codec.decode value = .ok x)
    (h : Glob.accepts (Utf8.encode (c.tenant.wireKey pattern true)) (Utf8.encode key)) :
    ∃ found, (c.scanByPattern codec 1 pattern true (oneString key value)).result = .ok (some found) ∧
      found.get? key = some x := by
  let s := oneString key value
  let wire := c.tenant.wireKey pattern true
  let matching := Content.matchesOf 0 (Utf8.encode wire) s.content.toList
  have hlive : s.content.live 0 key = some (.string value none) := Content.live_insert_self rfl
  have hmem : (key, value) ∈ matching := Content.mem_matchesOf_iff.2 ⟨⟨none, hlive⟩, h⟩
  have hreadable : ∀ p ∈ matching, ∃ x, codec.decode p.2 = .ok x := by
    intro p hp
    obtain ⟨e, hentry, hmatch⟩ := List.mem_filterMap.1 hp
    obtain ⟨expiresAt, rfl, -, -⟩ := Content.match?_eq_some_iff.1 hmatch
    have hsame : (p.1, Entry.string p.2 expiresAt) = (key, .string value none) :=
      List.mem_singleton.1 hentry
    injection hsame with _ hentry
    injection hentry with hvalue _
    exact ⟨x, hvalue ▸ hx⟩
  obtain ⟨found, hread, hfound⟩ := readPairs_ok Content.pairwise_matchesOf hreadable
  have hpage : s.content.scan 0 0 c.scanLimit wire = .ok (some ⟨0, _⟩) :=
    Content.scan_of_single rfl c.scanLimit wire
  have hcall : Store.call (.scan 0 c.scanLimit wire) s =
      (.ok (some ⟨0, _⟩), (s.call (.scan 0 c.scanLimit wire)).2) :=
    Memory.call_of_answer rfl hpage
  have hrun : ((followCursor codec c.scanLimit wire 1 0 {}).run.run s).1 = .ok (some ⟨1, found⟩) := by
    rw [followCursor_succ, hcall]
    dsimp only
    rw [Content.pairs_page, hread]
    rfl
  refine ⟨found, congrArg (Except.map (Option.map Scanned.found)) hrun, ?_⟩
  exact (hfound key x).2 ⟨value, hmem, hx⟩

/-! ## Staying in the namespace -/

/-- Scans find nothing but keys of the namespace just if its name has no special characters. -/
theorem scans_stay_in_namespace_iff {executor : Bool} {config : Config} {name : String}
    (hname : config.namespaceName = some name) (hbuild : build executor config = .ok c) :
    (∀ (α : Type) (codec : Codec α) (calls : Nat) (pattern : String) (s : Memory) (found : KeyMap α),
      (c.scanByPattern codec calls pattern true s).result = .ok (some found) →
        ∀ key x, found.get? key = some x → ∃ rest, key = name ++ ":" ++ rest) ↔
      ∀ ch ∈ name.toList, ch ∉ Glob.specials := by
  obtain ⟨hns, hne⟩ := Config.ofName_namespaceName hname
  have htenant : c.tenant = ⟨name⟩ := (build_eq hbuild).1.trans hns
  have hwire : ∀ pattern, c.tenant.wireKey pattern true = name ++ ":" ++ pattern := by
    intro pattern
    simp [htenant, Namespace.wireKey, hne, Namespace.delimiter]
  constructor
  · intro hstays
    -- The name as a pattern is matched by a text that the scan finds, in the namespace or not.
    let key := String.ofList (Glob.sample (name ++ ":").toList)
    have haccepts : Glob.accepts (Utf8.encode (c.tenant.wireKey "" true)) (Utf8.encode key) := by
      rw [hwire, String.append_empty, Utf8.encode, Utf8.encode, String.toList_ofList]
      exact Glob.accepts_sample _
    let codec : Codec Bytes := ⟨.ok, .ok⟩
    have hdecode : codec.decode [] = .ok [] := rfl
    obtain ⟨found, hresult, hkey⟩ := scan_oneString hdecode haccepts
    obtain ⟨rest, hrest⟩ := hstays Bytes codec 1 "" (oneString key []) found hresult key [] hkey
    have hbegins := congrArg String.toList hrest
    rw [String.toList_ofList] at hbegins
    simp only [String.toList_append] at hbegins
    exact Glob.not_mem_specials_of_sample hbegins
  · intro hplain α codec calls pattern s found hresult key x hkey
    have haccepts := accepts_of_found hresult key x hkey
    rw [hwire] at haccepts
    apply Glob.begins_of_accepts _ haccepts
    intro ch hch
    rw [String.toList_append, List.mem_append] at hch
    rcases hch with hch | hch
    · exact hplain ch hch
    · have hcolon : ch = ':' := by simpa using hch
      rw [hcolon]
      decide

theorem scans_stay_in_fleet :
    let config : Config := { keyNamespace := some " fleet" }
    config.namespaceName = some "fleet" ∧ ∃ c, build true config = .ok c ∧
      ∀ (pattern : String) (s : Memory) (found : KeyMap Bytes),
        (c.scanByPattern ⟨.ok, .ok⟩ 9 pattern true s).result = .ok (some found) →
          ∀ key x, found.get? key = some x → ∃ rest, key = "fleet" ++ ":" ++ rest := by
  intro config
  have hname : config.namespaceName = some "fleet" := by decide
  obtain ⟨c, hbuild⟩ : ∃ c, build true config = .ok c := ⟨_, rfl⟩
  have hstays := (scans_stay_in_namespace_iff hname hbuild).2 (by simp [Glob.specials])
  exact ⟨hname, c, hbuild, hstays Bytes ⟨.ok, .ok⟩ 9⟩

/-- A star in the name of a namespace lets its scans read the keys of other tenants. -/
theorem scan_of_starred_namespace_leaves_it :
    let config : Config := { keyNamespace := some "team*" }
    config.namespaceName = some "team*" ∧ ∃ c, build true config = .ok c ∧ ∃ found : KeyMap Bytes,
      (c.scanByPattern ⟨.ok, .ok⟩ 1 "secret" true (oneString "team2:secret" [0x31])).result =
          .ok (some found) ∧
        found.get? "team2:secret" = some [0x31] ∧
          ¬ ∃ rest, "team2:secret" = "team*" ++ ":" ++ rest := by
  intro config
  have hname : config.namespaceName = some "team*" := by decide
  obtain ⟨c, hbuild⟩ : ∃ c, build true config = .ok c := ⟨_, rfl⟩
  have htenant : c.tenant = ⟨"team*"⟩ :=
    (build_eq hbuild).1.trans (Config.ofName_namespaceName hname).1
  have haccepts : Glob.accepts (Utf8.encode (c.tenant.wireKey "secret" true))
      (Utf8.encode "team2:secret") := by
    rw [htenant]
    decide
  have hdecode : (⟨.ok, .ok⟩ : Codec Bytes).decode [0x31] = .ok [0x31] := rfl
  obtain ⟨found, hresult, hkey⟩ := scan_oneString hdecode haccepts
  refine ⟨hname, c, hbuild, found, hresult, hkey, ?_⟩
  rintro ⟨rest, hrest⟩
  have hfifth := congrArg (fun s : String => s.toList[4]?) hrest
  simp at hfifth

end BatchingCache.Cache
