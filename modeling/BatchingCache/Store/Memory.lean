import BatchingCache.Store.Call
import BatchingCache.Store.Glob
import BatchingCache.Store.IndexRange
import BatchingCache.Store.ScoredSet
/-!
# A store in memory

Strings of bytes that may expire, scored sets and maps under their keys.  An expired string stays
until a read, a compare-and-set or a write comes across it.  The store counts its calls, records the
sizes of its batches, and can be set to fail.  Its clock comes to an end, and a call that would have a
string expire after that is abandoned.
-/

namespace BatchingCache

inductive Entry where
  /-- A string of bytes, and when it expires. -/
  | string (value : Bytes) (expiresAt : Option Nat)
  | scored (set : ScoredSet)
  | map (fields : KeyMap Bytes)
  deriving DecidableEq, Repr

def Entry.isExpired (now : Nat) : Entry → Bool
  | string _ (some instant) => instant ≤ now
  | _ => false

abbrev Content := KeyMap Entry

namespace Content

def live (now : Nat) (key : String) (d : Content) : Option Entry :=
  (d.get? key).filter fun e => !e.isExpired now

/-- Drops what a key holds if it has expired. -/
def dropExpired (now : Nat) (key : String) (d : Content) : Content :=
  match d.get? key with
  | some e => if e.isExpired now then d.erase key else d
  | none => d

def read (now : Nat) (key : String) (d : Content) : Except StoreError (Option Bytes) × Content :=
  let d := d.dropExpired now key
  match d.get? key with
  | none => (.ok none, d)
  | some (.string value _) => (.ok (some value), d)
  | some _ => (.error .wrongType, d)

/-- Writes a string over whatever the key holds.  `Call.isOverdue` tells whether the clock comes to the
instant at which it is to expire. -/
def write (now : Nat) (key : String) (value : Bytes) (ttl : Option Duration) (d : Content) :
    Content :=
  d.insert key (.string value (ttl.map fun ttl => now + ttl.nanos))

def compareAndSet (now : Nat) (key : String) (expected value : Bytes) (d : Content) :
    Except StoreError Bool × Content :=
  let d := d.dropExpired now key
  match d.get? key with
  | none => (.ok false, d)
  | some (.string current _) =>
    if current = expected then (.ok true, d.insert key (.string value none)) else (.ok false, d)
  | some _ => (.error .wrongType, d)

def remove (key : String) (d : Content) : Bool × Content :=
  (d.contains key, d.erase key)

/-- Adds a member to a scored set.  Tells whether it is new; its score is the new one anyway. -/
def addScored (key : String) (score : Binary64) (member : Bytes) (d : Content) :
    Except StoreError Bool × Content :=
  match d.get? key with
  | none => (.ok true, d.insert key (.scored (ScoredSet.insert ⟨score, member⟩ ∅)))
  | some (.scored set) =>
    (.ok (!set.contains member), d.insert key (.scored (set.insert ⟨score, member⟩)))
  | some _ => (.error .wrongType, d)

def range (key : String) (start stop : Int64) (reversed : Bool) (d : Content) :
    Except StoreError (List Bytes) :=
  match d.get? key with
  | none => .ok []
  | some (.scored set) =>
    let names := set.members.map Scored.member
    .ok (IndexRange.slice (if reversed then names.reverse else names) start stop)
  | some _ => .error .wrongType

def putFields (key : String) (fields : List (String × Bytes)) (d : Content) :
    Except StoreError Unit × Content :=
  match d.get? key with
  | none => (.ok (), d.insert key (.map (KeyMap.ofList fields)))
  | some (.map m) => (.ok (), d.insert key (.map (m.insertAll fields)))
  | some _ => (.error .wrongType, d)

def fields (key : String) (d : Content) : Except StoreError (KeyMap Bytes) :=
  match d.get? key with
  | none => .ok ∅
  | some (.map m) => .ok m
  | some _ => .error .wrongType

def eraseFields (names : List String) (m : KeyMap Bytes) : KeyMap Bytes × Nat :=
  names.foldl (fun (m, n) name => if m.contains name then (m.erase name, n + 1) else (m, n))
    (m, 0)

def deleteFields (key : String) (names : List String) (d : Content) :
    Except StoreError UInt64 × Content :=
  match d.get? key with
  | none => (.ok 0, d)
  | some (.map m) =>
    let (left, n) := eraseFields names m
    (.ok (UInt64.ofNat n), if left.isEmpty then d.erase key else d.insert key (.map left))
  | some _ => (.error .wrongType, d)

/-- Where a page that starts at `cursor` begins and ends among `len` keys.  There is no page
if its end does not fit into 64 bits. -/
def pageBounds (len : Nat) (cursor count : UInt64) : Option (Nat × Nat) :=
  let start := min cursor.toNat len
  let stop := start + max count.toNat 1
  if stop < UInt64.size then some (start, min stop len) else none

def scanEntry (now : Nat) (pattern : Bytes) (key : String) (e : Entry) : List Bytes :=
  match e with
  | .string value _ =>
    if !e.isExpired now && Glob.accepts pattern (Utf8.encode key) then [Utf8.encode key, value]
    else []
  | _ => []

/-- One page of the strings whose keys match a pattern, or nothing from a store without keys.
Pages are cut from all keys in ascending order. -/
def scan (now : Nat) (cursor count : UInt64) (pattern : String) (d : Content) :
    Except StoreError (Option Page) :=
  if d.isEmpty then .ok none
  else
    match pageBounds d.size cursor count with
    | none => .error .pageOverflow
    | some (start, stop) =>
      let page := (d.toList.drop start).take (stop - start)
      .ok (some
        { cursor := if d.size ≤ stop then 0 else UInt64.ofNat stop
          entries := page.flatMap fun (key, e) => scanEntry now (Utf8.encode pattern) key e })

/-- Executes one mutation of a batch.  One that fails counts as not applied. -/
def mutate (now : Nat) (m : Mutation) (d : Content) : Reply × Content :=
  match m with
  | .set key value ttl => (.done, d.write now key value ttl)
  | .compareAndSet key expected value =>
    let (r, d) := d.compareAndSet now key expected value
    (.applied (r.toOption.getD false), d)
  | .delete key =>
    let (existed, d) := d.remove key
    (.applied existed, d)
  | .scoredAdd key score member =>
    let (r, d) := d.addScored key score member
    (.applied (r.toOption.getD false), d)

def mutateAll (now : Nat) : List Mutation → Content → List Reply × Content
  | [], d => ([], d)
  | m :: ms, d =>
    let (r, d) := d.mutate now m
    let (rs, d) := mutateAll now ms d
    (r :: rs, d)

def answer (now : Nat) (c : Call) (d : Content) : Except StoreError c.Answer × Content :=
  match c with
  | .get key => d.read now key
  | .set key value ttl => (.ok (), d.write now key value ttl)
  | .compareAndSet key expected value => d.compareAndSet now key expected value
  | .delete key =>
    let (existed, d) := d.remove key
    (.ok existed, d)
  | .scoredAdd key score member => d.addScored key score member
  | .scoredRange key start stop reversed => (d.range key start stop reversed, d)
  | .mapPut key fields => d.putFields key fields
  | .mapGet key => (d.fields key, d)
  | .mapGetFields key names =>
    ((d.fields key).map fun m => m.filter fun name _ => names.contains name, d)
  | .mapDeleteFields key names => d.deleteFields key names
  | .scan cursor count pattern => (d.scan now cursor count pattern, d)
  | .batch ms =>
    let (replies, d) := d.mutateAll now ms
    (.ok replies, d)

end Content

/-! ## The clock -/

/-- The first instant that is too late for a clock, which counts its seconds in 63 bits. -/
def clockEnd : Nat := (1 <<< 63) * 1000000000

/-- Whether a mutation writes a string that is to expire after the end of the clock. -/
def Mutation.isOverdue (now : Nat) : Mutation → Bool
  | set _ _ (some ttl) => clockEnd ≤ now + ttl.nanos
  | _ => false

def Call.isOverdue (now : Nat) : Call → Bool
  | set key value ttl => (Mutation.set key value ttl).isOverdue now
  | batch ms => ms.any (Mutation.isOverdue now)
  | _ => false

/-! ## The store -/

structure Memory where
  content : Content := ∅
  /-- The reading of the clock in nanoseconds. -/
  now : Nat := 0
  calls : Nat := 0
  batches : List Nat := []
  failing : Bool := false
  /-- Whether a call was abandoned because a string was to expire after the end of the clock.  A
  program does not go on from there, so what the store holds counts only while none was. -/
  abandoned : Bool := false

namespace Memory

/-- Answers a call, or fails while the store is set to fail.  The call counts either way. -/
def call (c : Call) (s : Memory) : Except StoreError c.Answer × Memory :=
  let s := { s with calls := s.calls + 1 }
  if s.failing then (.error .injected, s)
  else
    let (r, content) := s.content.answer s.now c
    let batches := match c with
      | .batch ms => s.batches ++ [ms.length]
      | _ => s.batches
    (r, { s with content, batches, abandoned := c.isOverdue s.now || s.abandoned })

instance : Store Memory := ⟨call⟩

def remaining (key : String) (s : Memory) : Option Nat :=
  match s.content.get? key with
  | some (.string _ (some instant)) => some (instant - s.now)
  | _ => none

def remainingSeconds (key : String) (s : Memory) : Option Nat :=
  (s.remaining key).map fun ns => (ns + 999999999) / 1000000000

end Memory

end BatchingCache
