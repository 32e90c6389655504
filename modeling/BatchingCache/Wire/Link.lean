import BatchingCache.Store.Call
import BatchingCache.Wire.Command
import BatchingCache.Wire.Conversion
/-!
# A store behind a link

A link carries commands to a server and its replies back.  Here the replies are laid down
beforehand, one for each command.  The store behind a link sends the commands of a call and
reads their replies.
-/

namespace BatchingCache.Wire

structure Link where
  replies : List Value := []
  sent : List Command := []

def unprepared : Value := .fault ⟨"ERR", some "no scripted reply"⟩

def Link.send (c : Command) (l : Link) : Value × Link :=
  (l.replies.headD unprepared, ⟨l.replies.tail, l.sent ++ [c]⟩)

def Link.sendAll : List Command → Link → List Value × Link
  | [], l => ([], l)
  | c :: cs, l =>
    let (v, l) := l.send c
    let (vs, l) := l.sendAll cs
    (v :: vs, l)

abbrev Exchange (α : Type) := ExceptT StoreError (StateM Link) α

def backendError (f : Failure) : StoreError := .backend f.message

def receive {α : Type} (convert : Conversion α) (v : Value) : Except Failure α :=
  match v.firstFault? with
  | some f => .error (.signalled f)
  | none => convert v

def query {α : Type} (c : Command) (convert : Conversion α) : Exchange α := do
  let v ← modifyGet (Link.send c)
  (receive convert v).mapError backendError

/-- Runs a script by its digest.  A server that does not know it is told the script first. -/
def queryScript {α : Type} (script : Script) (keys : List String) (args : List Bytes)
    (convert : Conversion α) : Exchange α := do
  let c := script.callCommand keys args
  let v ← modifyGet (Link.send c)
  match receive convert v with
  | .ok x => pure x
  | .error (.signalled f) =>
    if f.code = "NOSCRIPT" then
      query script.loadCommand .ignore
      query c convert
    else throw (backendError (.signalled f))
  | .error f => throw (backendError f)

/-! ## Replies -/

def presentFields (names : List String) (values : List (Option Bytes)) : KeyMap Bytes :=
  KeyMap.ofList ((names.zip values).filterMap fun (name, value) => value.map (name, ·))

def pageOf : List Value → Except StoreError (Option Page)
  | [] => .ok none
  | head :: rest => do
    let cursor ← (Conversion.number .uint64 head).mapError fun f =>
      .unexpectedReply ("scan cursor: " ++ f.message)
    let entries ← (rest.mapM Conversion.bytes).mapError fun f =>
      .unexpectedReply ("scan entry: " ++ f.message)
    pure (some ⟨cursor, entries⟩)

def replyOf (m : Mutation) (v : Value) : Except StoreError Reply :=
  if m.requiresAck then
    match Conversion.number .int64 v with
    | .ok n => .ok (.applied (0 < n))
    | .error f => .error (.unexpectedReply (m.kind ++ ": " ++ f.message))
  else .ok .done

def repliesOf (ms : List Mutation) (vs : List Value) : Except StoreError (List Reply) :=
  if vs.length ≠ ms.length then
    .error (.unexpectedReply ("pipeline returned " ++ Decimal.natText vs.length ++
      " replies for " ++ Decimal.natText ms.length ++ " operations"))
  else (ms.zip vs).mapM fun (m, v) => replyOf m v

/-- The replies to the mutations of a batch, by the values that came back for it. -/
def batchReplies (ms : List Mutation) (vs : List Value) : Except StoreError (List Reply) := do
  let vs ← (receive (.list .raw) (.array vs)).mapError backendError
  repliesOf ms vs

/-! ## Calls -/

/-- Sends the commands of a call and reads their replies.  Where there is nothing to ask for,
nothing is sent. -/
def exchange (c : Call) : Exchange c.Answer :=
  match c with
  | .get key => query (.get key) (.optional .bytes)
  | .set key value ttl => query (.set key value ttl) .ignore
  | .compareAndSet key expected value => do
    let n ← queryScript .compareAndSet [key] [expected, value] (.number .int64)
    pure (n == 1)
  | .delete key => do
    let n ← query (.delete key) (.number .int64)
    pure (decide (0 < n))
  | .scoredAdd key score member => do
    let n ← query (.scoredAdd key score member) (.number .int64)
    pure (decide (0 < n))
  | .scoredRange key start stop reversed =>
    query (.scoredRange key start stop reversed) (.list .bytes)
  | .mapPut key fields =>
    if fields.isEmpty then pure () else query (.mapPut key fields) .ignore
  | .mapGet key => query (.mapGet key) .map
  | .mapGetFields key names =>
    if names.isEmpty then pure ∅
    else do
      let values ← query (.mapGetFields key names) (.list (.optional .bytes))
      pure (presentFields names values)
  | .mapDeleteFields key names =>
    if names.isEmpty then pure 0 else query (.mapDeleteFields key names) (.number .uint64)
  | .scan cursor count pattern => do
    let args := words [Decimal.natText cursor.toNat, Decimal.natText count.toNat, pattern]
    let reply ← queryScript .scan [] args (.list .raw)
    pageOf reply
  | .batch ms =>
    if ms.isEmpty then pure []
    else do
      let values ← modifyGet (Link.sendAll (ms.map commandOf))
      batchReplies ms values

instance : Store Link := ⟨fun c l => (exchange c).run.run l⟩

end BatchingCache.Wire
