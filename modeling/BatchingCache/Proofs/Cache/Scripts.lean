import BatchingCache.Proofs.Cache.Scan
import BatchingCache.Store.Rehearsal
/-!
# Scans of any store

All that a scan learns from a store are the answers to its calls.  It asks for one page after the other,
each time from where the page before ended, and comes to its end with the first answer after which no
page is to come, or with the first value that cannot be read.
-/

namespace BatchingCache

abbrev PageAnswer := Except StoreError (Option Page)

/-- No page is to come: the call failed, there was nothing, or the page is the last one. -/
def PageAnswer.IsFinal (a : PageAnswer) : Prop := ∀ page, a = .ok (some page) → page.cursor = 0

namespace Cache

variable {α σ : Type} {codec : Codec α} {limit : UInt64} {pattern : String}

section Steps

variable [Store σ]

/-- A store answers by a script when it is asked for the page at a cursor, and then for each page at the
cursor of the one before. -/
def AnswersBy (limit : UInt64) (pattern : String) : List PageAnswer → UInt64 → σ → Prop
  | [], _, _ => True
  | a :: script, cursor, s =>
    (Store.call (.scan cursor limit pattern) s).1 = a ∧ ∀ page, a = .ok (some page) →
      AnswersBy limit pattern script page.cursor (Store.call (.scan cursor limit pattern) s).2

def Stops (codec : Codec α) (a : PageAnswer) : Prop :=
  a.IsFinal ∨ ∃ page, a = .ok (some page) ∧ ¬ Readable codec page.pairs

def conclude (codec : Codec α) (seen : Scanned α) :
    PageAnswer → Except CacheError (Option (Scanned α))
  | .error e => .error (.store e)
  | .ok none => .ok (some seen)
  | .ok (some page) =>
    (readPairs codec page.pairs seen.found).map fun found => some ⟨seen.pages + 1, found⟩

/-- A scan ends with the answer to its call, or goes on from the page that it got. -/
theorem followCursor_step (codec : Codec α) (calls : Nat) (cursor : UInt64) (seen : Scanned α)
    {s s' : σ} {a : PageAnswer} (h : Store.call (.scan cursor limit pattern) s = (a, s')) :
    Stops codec a ∧
        (followCursor codec limit pattern (calls + 1) cursor seen).run.run s =
          (conclude codec seen a, s') ∨
      ∃ page found, a = .ok (some page) ∧ page.cursor ≠ 0 ∧ Readable codec page.pairs ∧
        readPairs codec page.pairs seen.found = .ok found ∧
        (followCursor codec limit pattern (calls + 1) cursor seen).run.run s =
          (followCursor codec limit pattern calls page.cursor ⟨seen.pages + 1, found⟩).run.run s' := by
  rw [followCursor_succ, h]
  match a with
  | .error e => exact .inl ⟨.inl nofun, rfl⟩
  | .ok none => exact .inl ⟨.inl nofun, rfl⟩
  | .ok (some page) =>
    rcases readPairs_cases codec page.pairs seen.found with
      ⟨hreadable, found, hread⟩ | ⟨before, key, bs, after, e, hsplit, -, he, hread⟩
    · by_cases hcursor : page.cursor = 0
      · refine .inl ⟨.inl ?_, ?_⟩
        · rintro _ ⟨⟩
          exact hcursor
        · simp only [hread, if_pos hcursor, conclude]
          rfl
      · refine .inr ⟨page, found, rfl, hcursor, hreadable, hread, ?_⟩
        simp only [hread, if_neg hcursor]
    · refine .inl ⟨.inr ⟨page, rfl, fun hreadable => ?_⟩, ?_⟩
      · obtain ⟨x, hx⟩ := hreadable (key, bs) (by simp [hsplit])
        rw [show codec.decode bs = .ok x from hx] at he
        cases he
      · simp only [hread, conclude]
        rfl

/-- A script that comes to an end is followed up to the first answer that ends the scan. -/
theorem run_followCursor_script {script : List PageAnswer} {calls : Nat} {cursor : UInt64}
    {s : Observed σ} (hanswers : AnswersBy limit pattern script cursor s.store)
    (hfinal : ∃ a ∈ script, a.IsFinal) (hcalls : script.length ≤ calls) (seen : Scanned α) :
    let r := (followCursor codec limit pattern calls cursor seen).run.run s
    ∃ (pages : List Page) (last : PageAnswer) (rest : List PageAnswer) (found : KeyMap α),
      script = (pages.map fun page => .ok (some page)) ++ last :: rest ∧
      (∀ page ∈ pages, page.cursor ≠ 0 ∧ Readable codec page.pairs) ∧ Stops codec last ∧
      readPairs codec (pages.flatMap Page.pairs) seen.found = .ok found ∧
      r.1 = conclude codec ⟨seen.pages + pages.length, found⟩ last ∧
      r.2.calls = s.calls ++
        (cursor :: pages.map Page.cursor).map fun cursor => .scan cursor limit pattern := by
  induction script generalizing calls cursor s seen with
  | nil =>
    obtain ⟨a, ha, -⟩ := hfinal
    cases ha
  | cons a script ih =>
    obtain ⟨calls, rfl⟩ : ∃ n, calls = n + 1 := by
      cases calls with
      | zero => cases hcalls
      | succ n => exact ⟨n, rfl⟩
    obtain ⟨hcall, hrest⟩ := hanswers
    let s' : Observed σ :=
      ⟨(Store.call (.scan cursor limit pattern) s.store).2, s.calls ++ [.scan cursor limit pattern]⟩
    have hstep : Store.call (.scan cursor limit pattern) s = (a, s') := Prod.ext hcall rfl
    rcases followCursor_step codec calls cursor seen hstep with
      ⟨hstops, hrun⟩ | ⟨page, found, rfl, hcursor, hreadable, hread, hrun⟩
    · refine ⟨[], a, script, seen.found, rfl, nofun, hstops, rfl, ?_, ?_⟩
      · rw [hrun]
        rfl
      · rw [hrun]
        rfl
    · have hlater : ∃ a ∈ script, a.IsFinal := by
        obtain ⟨a, ha, hend⟩ := hfinal
        rcases List.mem_cons.1 ha with rfl | ha
        · exact absurd (hend page rfl) hcursor
        · exact ⟨a, ha, hend⟩
      obtain ⟨pages, last, rest, found', hsplit, hpages, hlast, hread', hresult, hmade⟩ :=
        ih (s := s') (hrest page rfl) hlater (Nat.le_of_succ_le_succ hcalls) ⟨seen.pages + 1, found⟩
      refine ⟨page :: pages, last, rest, found', ?_, ?_, hlast, ?_, ?_, ?_⟩
      · rw [hsplit]
        rfl
      · exact List.forall_mem_cons.2 ⟨⟨hcursor, hreadable⟩, hpages⟩
      · rw [List.flatMap_cons, readPairs_append, hread]
        exact hread'
      · rw [hrun, hresult, List.length_cons, Nat.add_assoc, Nat.add_comm 1]
      · rw [hrun, hmade, List.append_assoc]
        rfl

end Steps

/-! ## What comes of a scan -/

/-- The entities of the strings of some pages.  Of two strings under one key the later counts. -/
def Finds (codec : Codec α) (pages : List Page) (found : KeyMap α) : Prop :=
  ∀ key x, found.get? key = some x ↔
    ∃ bs, LastUnder key bs (pages.flatMap Page.pairs) ∧ codec.decode bs = .ok x

inductive Ends (codec : Codec α) (pages : List Page) :
    PageAnswer → Except CacheError (Option (KeyMap α)) → List Metric → Prop
  | failure (e : StoreError) :
    Ends codec pages (.error e) (.error (.store e))
      [.operation "scan_by_pattern" "error", .latency "scan_by_pattern"]
  | unreadable {page : Page} {before after : List (String × Bytes)} {key : String} {bs : Bytes}
    {e : CodecError} (hsplit : page.pairs = before ++ (key, bs) :: after)
    (hbefore : Readable codec before) (he : codec.decode bs = .error e) :
    Ends codec pages (.ok (some page)) (.error (.decode key e))
      [.operation "scan_by_pattern" "error", .latency "scan_by_pattern"]
  | nothing {found : KeyMap α} (hfound : Finds codec pages found) :
    Ends codec pages (.ok none) (.ok (some found))
      [.scan pages.length found.size, .operation "scan_by_pattern" "success",
        .latency "scan_by_pattern"]
  | lastPage {page : Page} {found : KeyMap α} (hcursor : page.cursor = 0)
    (hreadable : Readable codec page.pairs) (hfound : Finds codec (pages ++ [page]) found) :
    Ends codec pages (.ok (some page)) (.ok (some found))
      [.scan (pages.length + 1) found.size, .operation "scan_by_pattern" "success",
        .latency "scan_by_pattern"]

theorem ends_conclude {pages : List Page} {last : PageAnswer} {found : KeyMap α}
    (hread : readPairs codec (pages.flatMap Page.pairs) ∅ = .ok found) (hlast : Stops codec last) :
    let r := conclude codec ⟨pages.length, found⟩ last
    Ends codec pages last (r.map (Option.map Scanned.found))
      (extentMetrics r ++ (resultMetrics "scan_by_pattern" r ++ [.latency "scan_by_pattern"])) := by
  match last with
  | .error e => exact .failure e
  | .ok none => exact .nothing fun key x => get?_of_readPairs_iff hread
  | .ok (some page) =>
    intro r
    have hr : r = (readPairs codec page.pairs found).map fun found => some ⟨pages.length + 1, found⟩ :=
      rfl
    rcases readPairs_cases codec page.pairs found with
      ⟨hreadable, found', hpage⟩ | ⟨before, key, bs, after, e, hsplit, hbefore, he, hpage⟩
    · have hcursor : page.cursor = 0 := by
        rcases hlast with hfinal | ⟨page', heq, hunreadable⟩
        · exact hfinal page rfl
        · cases heq
          exact absurd hreadable hunreadable
      have hboth : readPairs codec ((pages ++ [page]).flatMap Page.pairs) ∅ = .ok found' := by
        rw [List.flatMap_append, readPairs_append, hread, List.flatMap_singleton]
        exact hpage
      rw [hr, hpage]
      exact .lastPage hcursor hreadable fun key x => get?_of_readPairs_iff hboth
    · rw [hr, hpage]
      exact .unreadable hsplit hbefore he

/-- A scan of any store asks for its pages one after the other, each with the cursor of the page before
and the first one with zero, and for no more after the first answer that ends it: a failure of the store,
no page, the page with cursor zero, or a page with a value that cannot be read. -/
theorem scan_follows_cursor [Store σ] (codec : Codec α) {c : Cache} {namespaced : Bool}
    {script : List PageAnswer} {s : σ}
    (hanswers : AnswersBy c.scanLimit (c.tenant.wireKey pattern namespaced) script 0 s)
    (hfinal : ∃ a ∈ script, a.IsFinal) {calls : Nat} (hcalls : script.length ≤ calls) :
    let o := c.scanByPattern codec calls pattern namespaced (⟨s, []⟩ : Observed σ)
    ∃ (pages : List Page) (last : PageAnswer) (rest : List PageAnswer),
      script = (pages.map fun page => .ok (some page)) ++ last :: rest ∧
      (∀ page ∈ pages, page.cursor ≠ 0 ∧ Readable codec page.pairs) ∧
      (o.store.calls = (0 :: pages.map Page.cursor).map fun cursor =>
        .scan cursor c.scanLimit (c.tenant.wireKey pattern namespaced)) ∧
      Ends codec pages last o.result o.metrics := by
  intro o
  have hanswers' : AnswersBy c.scanLimit (c.tenant.wireKey pattern namespaced) script 0
      (⟨s, []⟩ : Observed σ).store := hanswers
  obtain ⟨pages, last, rest, found, hsplit, hpages, hlast, hread, hresult, hmade⟩ :=
    run_followCursor_script hanswers' hfinal hcalls ({} : Scanned α)
  have hends := ends_conclude hread hlast
  rw [Nat.zero_add] at hresult
  rw [← hresult] at hends
  exact ⟨pages, last, rest, hsplit, hpages, hmade, hends⟩

theorem answersBy_rehearsal (s : Rehearsal) (limit : UInt64) (pattern : String) (cursor : UInt64) :
    AnswersBy limit pattern s.scanAnswers cursor s := by
  obtain ⟨memory, log, batchAnswers, script, poison⟩ := s
  induction script generalizing log cursor with
  | nil => trivial
  | cons a script ih => exact ⟨rfl, fun page _ => ih page.cursor _⟩

theorem scan_of_two_pages :
    let last : Page := ⟨0, [[0x61], [0x31], [0x61], [0x32], [0x62]]⟩
    let script : List PageAnswer := [.ok (some ⟨7, []⟩), .ok (some last), .error .connectionReset]
    let s : Rehearsal := { scanAnswers := script }
    ∃ c, build true {} = .ok c ∧
      let wire := c.tenant.wireKey "*" true
      let o := c.scanByPattern ⟨.ok, .ok⟩ 3 "*" true (⟨s, []⟩ : Observed Rehearsal)
      AnswersBy c.scanLimit wire script 0 s ∧ (∃ a ∈ script, a.IsFinal) ∧ script.length ≤ 3 ∧
        (∃ found, o.result = .ok (some found) ∧ found.get? "a" = some [0x32]) ∧
        o.store.calls = [.scan 0 c.scanLimit wire, .scan 7 c.scanLimit wire] := by
  intro last script s
  obtain ⟨c, hbuild⟩ : ∃ c, build true {} = .ok c := ⟨_, rfl⟩
  have hanswers : AnswersBy c.scanLimit (c.tenant.wireKey "*" true) script 0 s :=
    answersBy_rehearsal s _ _ 0
  have hfinal : ∃ a ∈ script, a.IsFinal := by
    refine ⟨.ok (some last), by simp [script], ?_⟩
    rintro _ ⟨⟩
    rfl
  have hlength : script.length ≤ 3 := by decide
  refine ⟨c, hbuild, hanswers, hfinal, hlength, ?_⟩
  obtain ⟨pages, a, rest, hsplit, hpages, hmade, hends⟩ :=
    scan_follows_cursor ⟨.ok, .ok⟩ hanswers hfinal hlength
  have hpage : ∀ {page r ms}, Ends (⟨.ok, .ok⟩ : Codec Bytes) pages (.ok (some page)) r ms →
      page.cursor = 0 ∧
        ∃ found, r = .ok (some found) ∧ Finds ⟨.ok, .ok⟩ (pages ++ [page]) found := by
    intro page r ms h
    cases h with
    | unreadable _ _ he => cases he
    | lastPage hcursor _ hfound => exact ⟨hcursor, _, rfl, hfound⟩
  -- Their cursors tell that the first page is not the last one, and that the second one is.
  match pages with
  | [] =>
    injection hsplit with hfirst _
    rw [← hfirst] at hends
    cases (hpage hends).1
  | _ :: page :: pages =>
    injection hsplit with _ hsplit
    injection hsplit with hsecond _
    cases hsecond
    exact absurd rfl (hpages last (by simp)).1
  | [_] =>
    injection hsplit with hfirst hsplit
    injection hsplit with hsecond _
    cases hfirst
    rw [← hsecond] at hends
    obtain ⟨-, found, hresult, hfound⟩ := hpage hends
    have hkey : Utf8.decodeLossy [0x61] = "a" := Utf8.decodeLossy_encode "a"
    refine ⟨⟨found, hresult, (hfound _ _).2 ⟨[0x32], ?_, rfl⟩⟩, hmade⟩
    exact ⟨[("a", [0x31])], [], by simp [last, Page.pairs, pairUp, hkey], nofun⟩

end Cache

end BatchingCache
