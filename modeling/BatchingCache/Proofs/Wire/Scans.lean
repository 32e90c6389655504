import BatchingCache.Proofs.Cache.Scripts
import BatchingCache.Proofs.KeyMap
import BatchingCache.Proofs.Text.Utf8
import BatchingCache.Proofs.Wire.Exchange
/-!
# Scans behind a link

Servers give keys as bytes, and a scan files the values under texts.  Keys that are read as the same text
share one entry, so keys that are no UTF-8 can get lost.
-/

namespace BatchingCache

/-- The keys of a page, as the bytes that they came in.  A last one without a value does not count. -/
def Page.keyBytes (p : Page) : List Bytes := (pairUp p.entries).map Prod.fst

theorem Page.map_fst_pairs (p : Page) : p.pairs.map Prod.fst = p.keyBytes.map Utf8.decodeLossy := by
  unfold pairs keyBytes
  rw [List.map_map, List.map_map]
  rfl

namespace Wire

variable {α : Type} {codec : Codec α} {limit : UInt64} {pattern : String}

/-! ## Pages on the wire -/

def Value.Shows (v : Value) (p : Page) : Prop :=
  ∃ head, Conversion.number .uint64 head = .ok p.cursor ∧ v = .array (head :: p.entries.map .bulk)

theorem firstFaultIn?_map_bulk (entries : List Bytes) :
    Value.firstFaultIn? (entries.map .bulk) = none := by
  induction entries with
  | nil => rfl
  | cons bs entries ih => exact ih

theorem mapM_bytes (entries : List Bytes) :
    (entries.map Value.bulk).mapM Conversion.bytes = .ok entries := by
  rw [List.mapM_map]
  exact mapM_except_ok entries

theorem receive_of_shows {v : Value} {p : Page} (h : v.Shows p) :
    ∃ reply, receive (.list .raw) v = .ok reply ∧ pageOf reply = .ok (some p) := by
  obtain ⟨head, hhead, rfl⟩ := h
  refine ⟨head :: p.entries.map .bulk, ?_, ?_⟩
  · have hfaults : (Value.array (head :: p.entries.map .bulk)).firstFault? = none := by
      rw [Value.firstFault?, Value.firstFaultIn?, firstFault?_of_number hhead]
      exact firstFaultIn?_map_bulk p.entries
    unfold receive
    rw [hfaults]
    exact mapM_except_ok _
  · rw [pageOf, hhead, mapM_bytes]
    rfl

theorem call_scan_of_shows {v : Value} {p : Page} (h : v.Shows p) (cursor limit : UInt64)
    (pattern : String) (replies : List Value) (sent : List Command) :
    ∃ c, Store.call (.scan cursor limit pattern) (⟨v :: replies, sent⟩ : Link) =
      (.ok (some p), ⟨replies, sent ++ [c]⟩) := by
  obtain ⟨reply, hreply, hpage⟩ := receive_of_shows h
  let args := words [Decimal.natText cursor.toNat, Decimal.natText limit.toNat, pattern]
  let call := Script.scan.callCommand [] args
  have hscript : (queryScript .scan [] args (.list .raw)).run.run (⟨v :: replies, sent⟩ : Link) =
      (.ok reply, ⟨replies, sent ++ [call]⟩) := by
    have hreceive : receive (.list .raw) ((⟨v :: replies, sent⟩ : Link).send call).1 = .ok reply := hreply
    rw [run_queryScript]
    simp only [hreceive, call]
    rfl
  refine ⟨call, ?_⟩
  show (queryScript .scan [] args (.list .raw) >>= fun reply => liftM (pageOf reply) :
    Exchange (Option Page)).run.run (⟨v :: replies, sent⟩ : Link) = _
  rw [run_bind, hscript]
  simp only [hpage]
  rfl

theorem answersBy_of_shows {vs : List Value} {pages : List Page}
    (h : List.Forall₂ Value.Shows vs pages) (cursor : UInt64) (replies : List Value)
    (sent : List Command) :
    Cache.AnswersBy limit pattern (pages.map fun p => .ok (some p)) cursor
      (⟨vs ++ replies, sent⟩ : Link) := by
  induction h generalizing cursor sent with
  | nil => trivial
  | @cons v page vs pages hshows hrest ih =>
    obtain ⟨c, hcall⟩ := call_scan_of_shows hshows cursor limit pattern (vs ++ replies) sent
    refine ⟨congrArg Prod.fst hcall, ?_⟩
    rintro page ⟨⟩
    rw [List.cons_append, hcall]
    exact ih page.cursor (sent ++ [c])

end Wire

namespace Cache

variable {α σ : Type} {codec : Codec α} {limit : UInt64} {pattern : String}

/-! ## Scans of readable pages -/

theorem exists_readPairs {ps : List (String × Bytes)} (h : Readable codec ps) (found : KeyMap α) :
    ∃ found', readPairs codec ps found = .ok found' := by
  rcases readPairs_cases codec ps found with ⟨-, hread⟩ | ⟨before, key, bs, after, e, rfl, -, he, -⟩
  · exact hread
  · obtain ⟨x, hx⟩ := h (key, bs) (by simp)
    cases hx.symm.trans he

/-- A scan reads all pages up to the one with cursor zero. -/
theorem run_followCursor_pages [Store σ] {pages : List Page} {last : Page}
    (hnext : ∀ page ∈ pages, page.cursor ≠ 0) (hlast : last.cursor = 0) {cursor : UInt64} {s : σ}
    (hanswers : AnswersBy limit pattern ((pages ++ [last]).map fun p => .ok (some p)) cursor s)
    {calls : Nat} (hcalls : pages.length < calls) {seen : Scanned α} {found : KeyMap α}
    (hread : readPairs codec ((pages ++ [last]).flatMap Page.pairs) seen.found = .ok found) :
    ((followCursor codec limit pattern calls cursor seen).run.run s).1 =
      .ok (some ⟨seen.pages + (pages.length + 1), found⟩) := by
  induction pages generalizing cursor s calls seen with
  | nil =>
    obtain ⟨calls, rfl⟩ := Nat.exists_eq_add_one_of_ne_zero (Nat.ne_zero_of_lt hcalls)
    obtain ⟨hcall, -⟩ := hanswers
    rw [List.nil_append, List.flatMap_singleton] at hread
    have hstep : Store.call (.scan cursor limit pattern) s = (.ok (some last), _) := Prod.ext hcall rfl
    rw [followCursor_succ, hstep]
    simp only [hread, if_pos hlast]
    rfl
  | cons page pages ih =>
    obtain ⟨calls, rfl⟩ := Nat.exists_eq_add_one_of_ne_zero (Nat.ne_zero_of_lt hcalls)
    obtain ⟨hcall, hrest⟩ := hanswers
    obtain ⟨hpage, hpages⟩ := List.forall_mem_cons.1 hnext
    rw [List.cons_append, List.flatMap_cons, readPairs_append] at hread
    have hstep : Store.call (.scan cursor limit pattern) s = (.ok (some page), _) := Prod.ext hcall rfl
    rw [followCursor_succ, hstep]
    cases hfirst : readPairs codec page.pairs seen.found with
    | error e =>
      rw [hfirst] at hread
      cases hread
    | ok found' =>
      rw [hfirst] at hread
      have hlater : ((followCursor codec limit pattern calls page.cursor
          ⟨seen.pages + 1, found'⟩).run.run _).1 = _ :=
        ih hpages (hrest page rfl) (Nat.lt_of_succ_lt_succ hcalls) hread
      simp only [hfirst, if_neg hpage]
      rw [hlater, List.length_cons, Nat.add_assoc, Nat.add_comm 1]

theorem result_scanByPattern_pages [Store σ] {c : Cache} {namespaced : Bool} {pages : List Page}
    {last : Page} (hnext : ∀ page ∈ pages, page.cursor ≠ 0) (hlast : last.cursor = 0) {s : σ}
    (hanswers : AnswersBy c.scanLimit (c.tenant.wireKey pattern namespaced)
      ((pages ++ [last]).map fun p => .ok (some p)) 0 s) {calls : Nat} (hcalls : pages.length < calls)
    {found : KeyMap α} (hread : readPairs codec ((pages ++ [last]).flatMap Page.pairs) ∅ = .ok found) :
    (c.scanByPattern codec calls pattern namespaced s).result = .ok (some found) := by
  have hrun : ((followCursor codec c.scanLimit (c.tenant.wireKey pattern namespaced) calls 0
      {}).run.run s).1 = _ := run_followCursor_pages hnext hlast hanswers hcalls hread
  show Except.map _ ((followCursor codec c.scanLimit _ calls 0 {}).run.run s).1 = _
  rw [hrun]
  rfl

/-! ## Keys that share an entry -/

theorem contains_of_readPairs {ps : List (String × Bytes)} {found : KeyMap α}
    (h : readPairs codec ps ∅ = .ok found) (text : String) :
    found.contains text ↔ text ∈ ps.map Prod.fst := by
  have hget := congrArg Option.isSome (get?_of_readPairs h text)
  rw [KeyMap.get?_empty, Option.map_none, Option.or_none, Option.isSome_map, Option.isSome_map] at hget
  rw [KeyMap.contains, hget, List.lookup_isSome_iff]
  simp

theorem map_fst_pairs_flatMap (pages : List Page) :
    (pages.flatMap Page.pairs).map Prod.fst = (pages.flatMap Page.keyBytes).map Utf8.decodeLossy := by
  rw [List.map_flatMap, List.map_flatMap]
  simp only [Page.map_fst_pairs]

/-- A scan of a server that shows readable pages files them under the texts of their keys, the last string
of each.  So it has an entry for each key exactly if no two keys are read as the same text, as is the case
if all of them are UTF-8. -/
theorem scan_keeps_keys_apart_iff (codec : Codec α) (c : Cache) (pattern : String) (namespaced : Bool)
    {pages : List Page} {last : Page} (hnext : ∀ page ∈ pages, page.cursor ≠ 0)
    (hlast : last.cursor = 0) {vs : List Wire.Value}
    (hshown : List.Forall₂ Wire.Value.Shows vs (pages ++ [last]))
    (hreadable : Readable codec ((pages ++ [last]).flatMap Page.pairs)) {calls : Nat}
    (hcalls : pages.length < calls) (replies : List Wire.Value) (sent : List Wire.Command) :
    let keys := ((pages ++ [last]).flatMap Page.keyBytes).toFinset
    ∃ found, (c.scanByPattern codec calls pattern namespaced
        (⟨vs ++ replies, sent⟩ : Wire.Link)).result = .ok (some found) ∧
      Finds codec (pages ++ [last]) found ∧
      (∀ text, found.contains text ↔ text ∈ keys.image Utf8.decodeLossy) ∧
      (found.size = keys.card ↔ Set.InjOn Utf8.decodeLossy keys) ∧
      ((∀ key ∈ keys, ∃ text, Utf8.encode text = key) → found.size = keys.card) := by
  intro keys
  obtain ⟨found, hread⟩ := exists_readPairs hreadable ∅
  have hcontains : ∀ text, found.contains text ↔ text ∈ keys.image Utf8.decodeLossy := by
    intro text
    rw [contains_of_readPairs hread, map_fst_pairs_flatMap, List.mem_map, Finset.mem_image]
    simp only [keys, List.mem_toFinset]
  have hinjective : found.size = keys.card ↔ Set.InjOn Utf8.decodeLossy keys := by
    rw [KeyMap.size_eq_card hcontains, Finset.card_image_iff]
  refine ⟨found, ?_, fun key x => get?_of_readPairs_iff hread, hcontains, hinjective, fun htexts => ?_⟩
  · exact result_scanByPattern_pages hnext hlast (Wire.answersBy_of_shows hshown 0 replies sent) hcalls
      hread
  · rw [hinjective]
    intro key hkey key' hkey' heq
    obtain ⟨text, rfl⟩ := htexts key hkey
    obtain ⟨text', rfl⟩ := htexts key' hkey'
    rw [Utf8.decodeLossy_encode, Utf8.decodeLossy_encode] at heq
    rw [heq]

theorem scan_of_three_keys :
    let page : Page := ⟨7, [[0x61], [0x31], [0xC3, 0xA4], [0x32]]⟩
    let last : Page := ⟨0, [[0x61], [0x33], [0xFF], [0x34], [0x62]]⟩
    let vs : List Wire.Value := [.array (.bulk [0x37] :: page.entries.map .bulk),
      .array (.int 0 :: last.entries.map .bulk)]
    let keys := ([page, last].flatMap Page.keyBytes).toFinset
    ∃ c, build true {} = .ok c ∧ page.cursor ≠ 0 ∧ last.cursor = 0 ∧
      List.Forall₂ Wire.Value.Shows vs [page, last] ∧
      Readable (⟨.ok, .ok⟩ : Codec Bytes) ([page, last].flatMap Page.pairs) ∧
      ∃ found : KeyMap Bytes, (c.scanByPattern ⟨.ok, .ok⟩ 2 "*" true
          (⟨vs, []⟩ : Wire.Link)).result = .ok (some found) ∧ keys.card = 3 ∧ found.size = 3 := by
  intro page last vs keys
  obtain ⟨c, hbuild⟩ : ∃ c, build true {} = .ok c := ⟨_, rfl⟩
  have hnext : page.cursor ≠ 0 := by decide
  have htext : Utf8.encode "7" = [0x37] := by decide +kernel
  have hcursor : Wire.Conversion.NumberType.uint64.read "7" = some page.cursor := by decide +kernel
  have hshown : List.Forall₂ Wire.Value.Shows vs [page, last] :=
    .cons ⟨.bulk [0x37], htext ▸ Wire.number_bulk_encode hcursor, rfl⟩ (.cons ⟨.int 0, rfl, rfl⟩ .nil)
  have hreadable : Readable (⟨.ok, .ok⟩ : Codec Bytes) ([page, last].flatMap Page.pairs) :=
    fun p _ => ⟨p.2, rfl⟩
  have hcard : keys.card = 3 := by decide
  have hinjective : ∀ k ∈ keys, ∀ k' ∈ keys, Utf8.decodeLossy k = Utf8.decodeLossy k' → k = k' := by
    decide +kernel
  obtain ⟨found, hresult, -, -, hsize, -⟩ := scan_keeps_keys_apart_iff ⟨.ok, .ok⟩ c "*" true
    (List.forall_mem_singleton.2 hnext) (rfl : last.cursor = 0) hshown hreadable Nat.one_lt_two [] []
  refine ⟨c, hbuild, hnext, rfl, hshown, hreadable, found, hresult, hcard, ?_⟩
  exact (hsize.2 fun k hk k' hk' => hinjective k hk k' hk').trans hcard

/-- Two keys of one byte each, neither of them UTF-8, come to one entry. -/
theorem scan_merges_keys_of_no_text :
    let page : Page := ⟨0, [[0xFF], [0x31], [0xFE], [0x32]]⟩
    let v : Wire.Value := .array (.bulk [0x30] :: page.entries.map .bulk)
    ∃ c, build true {} = .ok c ∧ v.Shows page ∧ page.keyBytes.toFinset.card = 2 ∧
      ∃ found : KeyMap Bytes, (c.scanByPattern ⟨.ok, .ok⟩ 1 "*" true
        (⟨[v], []⟩ : Wire.Link)).result = .ok (some found) ∧ found.size = 1 ∧
          found.get? "\uFFFD" = some [0x32] := by
  intro page v
  have htext : Utf8.encode "0" = [0x30] := by decide +kernel
  have hcursor : Wire.Conversion.NumberType.uint64.read "0" = some page.cursor := by decide +kernel
  have hshows : v.Shows page := ⟨.bulk [0x30], htext ▸ Wire.number_bulk_encode hcursor, rfl⟩
  refine ⟨_, rfl, hshows, by decide, KeyMap.ofList [("\uFFFD", [0x32])], ?_, by decide, by decide⟩
  decide +kernel

end Cache

end BatchingCache
