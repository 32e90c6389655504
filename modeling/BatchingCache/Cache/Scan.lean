import BatchingCache.Cache.Basic
/-!
# Scans

A scan follows the cursor of the store from page to page, from zero until it is zero again or a
page stays out.  The first value that cannot be read ends it without a result.
-/

namespace BatchingCache.Cache

variable {σ α : Type} [Store σ]

structure Scanned (α : Type) where
  pages : Nat := 0
  found : KeyMap α := ∅

/-- Reads the values of a page.  Of two values under one key the later stays. -/
def readPairs (codec : Codec α) :
    List (String × Bytes) → KeyMap α → Except CacheError (KeyMap α)
  | [], found => .ok found
  | (key, bs) :: rest, found =>
    match codec.decode bs with
    | .ok x => readPairs codec rest (found.insert key x)
    | .error e => .error (.decode key e)

/-- Follows the cursor through the store in at most this many calls.  There is no result if the
last of them does not end the scan. -/
def followCursor (codec : Codec α) (limit : UInt64) (pattern : String) :
    Nat → UInt64 → Scanned α → Query σ (Option (Scanned α))
  | 0, _, _ => pure none
  | calls + 1, cursor, seen => do
    match ← perform (.scan cursor limit pattern) with
    | none => pure (some seen)
    | some page =>
      let found ← readPairs codec page.pairs seen.found
      let seen := ⟨seen.pages + 1, found⟩
      if page.cursor = 0 then pure (some seen)
      else followCursor codec limit pattern calls page.cursor seen

def extentMetrics : Except CacheError (Option (Scanned α)) → List Metric
  | .ok (some seen) => [.scan seen.pages seen.found.size]
  | _ => []

/-- Reads the values of all strings whose keys match a pattern, in at most this many calls.
Patterns go into the namespace as keys do. -/
def scanByPattern (codec : Codec α) (calls : Nat) (c : Cache) (pattern : String)
    (namespaced : Bool) (s : σ) : Outcome σ (Option (KeyMap α)) :=
  let name := "scan_by_pattern"
  let o := direct name (s := s)
    (followCursor codec c.scanLimit (c.tenant.wireKey pattern namespaced) calls 0 {})
  { result := o.result.map fun seen => seen.map Scanned.found
    store := o.store
    metrics := extentMetrics o.result ++ o.metrics }

end BatchingCache.Cache
