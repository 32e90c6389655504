import BatchingCache.Proofs.Store.Batches
import BatchingCache.Proofs.Wire.Exchange
/-!
# Batches behind a link

A batch sends for each of its mutations what the call of the mutation sends, and tells of each what its
call is answered with when the server says the same to it.
-/

namespace BatchingCache.Wire

variable {ms : List Mutation} {vs : List Value} {m : Mutation} {v : Value} {n : Int64} {l : Link}

/-! ## What is sent -/

/-- The batch sends for a mutation what its call sends.  A comparison is the text of its script in a
batch.  In a call it is the digest of this script, and a server that does not know it is told the text; key
and arguments stand in the same places after either. -/
def SentAlike : Mutation → Prop
  | .compareAndSet key expected value =>
    let operands := words ["1", key] ++ [expected, value]
    let call := words ["EVALSHA", Script.compareAndSet.digest] ++ operands
    let load := words ["SCRIPT", "LOAD", Script.compareAndSet.text]
    commandOf (.compareAndSet key expected value) =
        words ["EVAL", Script.compareAndSet.text] ++ operands ∧
      ∀ l : Link, ∃ cs ∈ [[call], [call, load], [call, load, call]],
        (Store.call (.compareAndSet key expected value) l).2.sent = l.sent ++ cs
  | m => ∀ l : Link, (Store.call m.call l).2.sent = l.sent ++ [commandOf m]

theorem call_compareAndSet (key : String) (expected value : Bytes) (l : Link) :
    Store.call (.compareAndSet key expected value) l =
      let r := (queryScript .compareAndSet [key] [expected, value] (.number .int64)).run.run l
      (r.1.map (· == 1), r.2) :=
  run_bind_pure _ _ l

theorem call_scoredAdd (key : String) (score : Binary64) (member : Bytes) (l : Link) :
    Store.call (.scoredAdd key score member) l =
      let r := (query (.scoredAdd key score member) (.number .int64)).run.run l
      (r.1.map fun n => decide (0 < n), r.2) :=
  run_bind_pure _ _ l

theorem call_delete (key : String) (l : Link) :
    Store.call (.delete key) l =
      let r := (query (.delete key) (.number .int64)).run.run l
      (r.1.map fun n => decide (0 < n), r.2) :=
  run_bind_pure _ _ l

theorem operands_singleton (key : String) (args : List Bytes) :
    Script.operands [key] args = words ["1", key] ++ args := by
  have hone : Decimal.natText 1 = "1" := by decide +kernel
  rw [Script.operands, List.length_singleton, hone]

theorem sentAlike (m : Mutation) : SentAlike m := by
  cases m with
  | set key value ttl =>
    intro l
    cases ttl with
    | none => rfl
    | some ttl => rfl
  | delete key =>
    intro l
    rw [Mutation.call, call_delete]
    rfl
  | scoredAdd key score member =>
    intro l
    rw [Mutation.call, call_scoredAdd]
    rfl
  | compareAndSet key expected value =>
    refine ⟨rfl, fun l => ?_⟩
    rw [call_compareAndSet, ← operands_singleton]
    exact sent_queryScript .compareAndSet [key] [expected, value] (.number .int64) l

/-! ## What comes back -/

theorem receive_list_raw (vs : List Value) :
    receive (.list .raw) (.array vs) =
      match Value.firstFaultIn? vs with
      | some f => .error (.signalled f)
      | none => .ok vs := by
  unfold receive
  rw [Value.firstFault?]
  cases Value.firstFaultIn? vs with
  | some f => rfl
  | none => exact mapM_except_ok vs

theorem call_batch (ms : List Mutation) (l : Link) :
    Store.call (.batch ms) l =
      (batchReplies ms (l.sendAll (ms.map commandOf)).1, (l.sendAll (ms.map commandOf)).2) := by
  cases ms with
  | nil =>
    have hnone : batchReplies [] [] = .ok [] := by
      unfold batchReplies
      rw [receive_list_raw]
      rfl
    show (.ok [], l) = (batchReplies [] [], l)
    rw [hnone]
  | cons m ms => rfl

theorem batchReplies_of_fault {f : Fault} (h : Value.firstFaultIn? vs = some f) :
    batchReplies ms vs = .error (.backend f.message) := by
  unfold batchReplies
  rw [receive_list_raw, h]
  rfl

theorem batchReplies_of_no_fault (h : Value.firstFaultIn? vs = none) :
    batchReplies ms vs = repliesOf ms vs := by
  unfold batchReplies
  rw [receive_list_raw, h]
  rfl

/-! ## Replies -/

def illegible (p : Mutation × Value) : Bool :=
  p.1.requiresAck && !(Conversion.number .int64 p.2).isOk

/-- What servers say to a mutation that waits for an acknowledgement: a number, which is zero or one for
a comparison. -/
def Conforms : Mutation → Value → Prop
  | .compareAndSet .., v =>
    Conversion.number .int64 v = .ok 0 ∨ Conversion.number .int64 v = .ok 1
  | .scoredAdd .., v => ∃ n, Conversion.number .int64 v = .ok n
  | _, _ => True

/-- The batch tells of a mutation that it is done or, if it waits for an acknowledgement, what its call is
answered with when the server says the same to it. -/
def RepliedAlike (v : Value) : Mutation → Reply → Prop
  | .compareAndSet key expected value, r => ∃ b, r = .applied b ∧ ∀ replies sent,
    (Store.call (.compareAndSet key expected value) (⟨v :: replies, sent⟩ : Link)).1 = .ok b
  | .scoredAdd key score member, r => ∃ b, r = .applied b ∧ ∀ replies sent,
    (Store.call (.scoredAdd key score member) (⟨v :: replies, sent⟩ : Link)).1 = .ok b
  | _, r => r = .done

theorem receive_number (h : Conversion.number .int64 v = .ok n) :
    receive (.number .int64) v = .ok n := by
  unfold receive
  rw [firstFault?_of_number h]
  exact h

theorem answer_compareAndSet (h : Conversion.number .int64 v = .ok n) (key : String)
    (expected value : Bytes) (replies : List Value) (sent : List Command) :
    (Store.call (.compareAndSet key expected value) (⟨v :: replies, sent⟩ : Link)).1 =
      .ok (n == 1) := by
  have hreceive : receive (.number .int64)
      ((⟨v :: replies, sent⟩ : Link).send (Script.compareAndSet.callCommand [key] [expected, value])).1 =
        .ok n := receive_number h
  rw [call_compareAndSet, run_queryScript]
  simp only [hreceive]
  rfl

theorem answer_scoredAdd (h : Conversion.number .int64 v = .ok n) (key : String)
    (score : Binary64) (member : Bytes) (replies : List Value) (sent : List Command) :
    (Store.call (.scoredAdd key score member) (⟨v :: replies, sent⟩ : Link)).1 =
      .ok (decide (0 < n)) := by
  have hreceive : receive (.number .int64)
      ((⟨v :: replies, sent⟩ : Link).send (.scoredAdd key score member)).1 = .ok n := receive_number h
  rw [call_scoredAdd, run_query, hreceive]
  rfl

theorem replyOf_of_number (hm : m.requiresAck = true) (h : Conversion.number .int64 v = .ok n) :
    replyOf m v = .ok (.applied (0 < n)) := by
  rw [replyOf, if_pos hm, h]

theorem decide_pos_eq_iff (n : Int64) : decide (0 < n) = (n == 1) ↔ n ≤ 1 := by
  rw [Bool.eq_iff_iff, decide_eq_true_iff, beq_iff_eq, Int64.lt_iff_toInt_lt, Int64.le_iff_toInt_le,
    ← Int64.toInt_inj]
  show (0 < n.toInt ↔ n.toInt = 1) ↔ n.toInt ≤ 1
  omega

/-- A batch takes any positive number for the success of a comparison, and the call takes one alone.  They
agree on the numbers up to one. -/
theorem compareAndSet_replied_alike_iff (h : Conversion.number .int64 v = .ok n) (key : String)
    (expected value : Bytes) :
    (∃ r, replyOf (.compareAndSet key expected value) v = .ok r ∧
      RepliedAlike v (.compareAndSet key expected value) r) ↔ n ≤ 1 := by
  have hreply : replyOf (.compareAndSet key expected value) v = .ok (.applied (0 < n)) :=
    replyOf_of_number rfl h
  have hcall := answer_compareAndSet h key expected value
  rw [← decide_pos_eq_iff]
  constructor
  · rintro ⟨_, hr, b, rfl, hb⟩
    have hpositive : Reply.applied (0 < n) = .applied b := Except.ok.inj (hreply.symm.trans hr)
    have hone : (n == 1) = b := Except.ok.inj ((hcall [] []).symm.trans (hb [] []))
    rw [hone]
    exact Reply.applied.inj hpositive
  · intro heq
    exact ⟨_, hreply, _, rfl, heq ▸ hcall⟩

theorem replyOf_of_conforms (h : Conforms m v) : ∃ r, replyOf m v = .ok r ∧ RepliedAlike v m r := by
  cases m with
  | set key value ttl => exact ⟨.done, rfl, rfl⟩
  | delete key => exact ⟨.done, rfl, rfl⟩
  | scoredAdd key score member =>
    obtain ⟨n, hn⟩ := h
    exact ⟨.applied (0 < n), replyOf_of_number rfl hn, _, rfl, answer_scoredAdd hn key score member⟩
  | compareAndSet key expected value =>
    rcases h with hzero | hone
    · exact (compareAndSet_replied_alike_iff hzero key expected value).2 (by decide)
    · exact (compareAndSet_replied_alike_iff hone key expected value).2 (by decide)

theorem replyOf_of_legible (h : illegible (m, v) = false) : ∃ r, replyOf m v = .ok r := by
  cases hm : m.requiresAck with
  | false => exact ⟨.done, by simp [replyOf, hm]⟩
  | true =>
    cases hn : Conversion.number .int64 v with
    | ok n => exact ⟨_, replyOf_of_number hm hn⟩
    | error f => simp [illegible, hm, hn, Except.isOk, Except.toBool] at h

theorem replyOf_of_illegible (h : illegible (m, v) = true) :
    ∃ f, Conversion.number .int64 v = .error f ∧
      replyOf m v = .error (.unexpectedReply (m.kind ++ ": " ++ f.message)) := by
  obtain ⟨hm, hn⟩ : m.requiresAck = true ∧ _ := Bool.and_eq_true_iff.1 h
  cases hnumber : Conversion.number .int64 v with
  | ok n => simp [hnumber, Except.isOk, Except.toBool] at hn
  | error f =>
    refine ⟨f, rfl, ?_⟩
    rw [replyOf, if_pos hm, hnumber]

theorem repliesOf_of_length (h : vs.length = ms.length) :
    repliesOf ms vs = (ms.zip vs).mapM fun (m, v) => replyOf m v :=
  if_neg (not_not.2 h)

theorem repliesOf_of_conforms (hlength : vs.length = ms.length)
    (h : ∀ p ∈ ms.zip vs, Conforms p.1 p.2) :
    ∃ rs, repliesOf ms vs = .ok rs ∧
      List.Forall₂ (fun p r => RepliedAlike p.2 p.1 r) (ms.zip vs) rs := by
  obtain ⟨rs, hrs, hall⟩ := mapM_ok fun p hp => replyOf_of_conforms (h p hp)
  exact ⟨rs, (repliesOf_of_length hlength).trans hrs, hall⟩

theorem repliesOf_of_illegible (hlength : vs.length = ms.length)
    (h : (ms.zip vs).find? illegible = some (m, v)) :
    ∃ f, Conversion.number .int64 v = .error f ∧
      repliesOf ms vs = .error (.unexpectedReply (m.kind ++ ": " ++ f.message)) := by
  obtain ⟨hbad, before, after, hsplit, hbefore⟩ := List.find?_eq_some_iff_append.1 h
  obtain ⟨f, hf, hreply⟩ := replyOf_of_illegible hbad
  refine ⟨f, hf, ?_⟩
  rw [repliesOf_of_length hlength, hsplit]
  -- All values before the first illegible one give replies, which are dropped with the batch.
  refine mapM_error (fun p hp => ?_) hreply
  exact replyOf_of_legible (by simpa using hbefore p hp)

/-! ## Batches -/

/-- A batch sends one command for each of its mutations, in their order, and each is what the call of the
mutation sends.  With the wrong number of values it fails as a whole.  With one for each that is what
servers say, it has one reply for each, which tells what the call of the mutation is answered with to the
same value.  The first value that should be a number and is none fails the batch, as does a fault. -/
theorem batch_agrees_with_calls (ms : List Mutation) :
    (∀ l : Link, (Store.call (.batch ms) l).2.sent = l.sent ++ ms.map commandOf) ∧
    (∀ m ∈ ms, SentAlike m) ∧
    (∀ (vs replies : List Value) (sent : List Command), vs.length = ms.length →
      (Store.call (.batch ms) (⟨vs ++ replies, sent⟩ : Link)).1 = batchReplies ms vs) ∧
    (∀ vs f, Value.firstFaultIn? vs = some f → batchReplies ms vs = .error (.backend f.message)) ∧
    ∀ vs, Value.firstFaultIn? vs = none →
      (vs.length ≠ ms.length → batchReplies ms vs =
        .error (.unexpectedReply ("pipeline returned " ++ Decimal.natText vs.length ++
          " replies for " ++ Decimal.natText ms.length ++ " operations"))) ∧
      (vs.length = ms.length → (∀ p ∈ ms.zip vs, Conforms p.1 p.2) →
        ∃ rs, batchReplies ms vs = .ok rs ∧
          List.Forall₂ (fun p r => RepliedAlike p.2 p.1 r) (ms.zip vs) rs) ∧
      (vs.length = ms.length → ∀ m v, (ms.zip vs).find? illegible = some (m, v) →
        ∃ f, Conversion.number .int64 v = .error f ∧
          batchReplies ms vs = .error (.unexpectedReply (m.kind ++ ": " ++ f.message))) := by
  refine ⟨fun l => ?_, fun m _ => sentAlike m, fun vs replies sent hlength => ?_,
    fun vs f => batchReplies_of_fault, fun vs hfaults => ?_⟩
  · rw [call_batch]
    exact sent_sendAll (ms.map commandOf) l
  · have hcommands : vs.length = (ms.map commandOf).length := by rw [hlength, List.length_map]
    rw [call_batch, sendAll_of_replies hcommands]
  · rw [batchReplies_of_no_fault hfaults]
    exact ⟨fun hlength => if_pos hlength, repliesOf_of_conforms,
      fun hlength m v => repliesOf_of_illegible hlength⟩

theorem mixed_batch_replied :
    let ms : List Mutation := [.set "a" [0x31] (some (.ofMillis 5)), .compareAndSet "a" [0x31] [0x32],
      .delete "a", .scoredAdd "z" .zero [0x33], .scoredAdd "z" .zero [0x33]]
    let vs : List Value := [.okay, .int 1, .int 0, .bulk [0x31], .int 0]
    let rs : List Reply := [.done, .applied true, .done, .applied true, .applied false]
    Value.firstFaultIn? vs = none ∧ vs.length = ms.length ∧ (∀ p ∈ ms.zip vs, Conforms p.1 p.2) ∧
      (Store.call (.batch ms) (⟨vs, []⟩ : Link)).1 = .ok rs ∧
      List.Forall₂ (fun p r => RepliedAlike p.2 p.1 r) (ms.zip vs) rs := by
  intro ms vs rs
  have htext : Utf8.encode "1" = [0x31] := by decide +kernel
  have hread : Conversion.NumberType.int64.read "1" = some 1 := by decide +kernel
  have hone : Conversion.number .int64 (.bulk [0x31]) = .ok 1 := htext ▸ number_bulk_encode hread
  have hconforms : ∀ p ∈ ms.zip vs, Conforms p.1 p.2 := by
    simp only [ms, vs, List.zip_cons_cons, List.zip_nil_right, List.forall_mem_cons]
    exact ⟨trivial, .inr rfl, trivial, ⟨1, hone⟩, ⟨0, rfl⟩, nofun⟩
  have hvalue : batchReplies ms vs = .ok rs := by decide +kernel
  obtain ⟨-, -, hanswer, -, hjudged⟩ := batch_agrees_with_calls ms
  obtain ⟨-, hgood, -⟩ := hjudged vs rfl
  obtain ⟨rs', hrs, hall⟩ := hgood rfl hconforms
  obtain rfl : rs = rs' := Except.ok.inj (hvalue.symm.trans hrs)
  exact ⟨rfl, rfl, hconforms, (hanswer vs [] [] rfl).trans hrs, hall⟩

end BatchingCache.Wire
