import BatchingCache.Proofs.Text.Utf8
import BatchingCache.Wire.Link
import Mathlib.Data.List.Forall2
/-!
# Commands and their replies

What a link has sent after a command, a script or a series of commands, and what is made of the values
that came back.
-/

namespace BatchingCache.Wire

variable {α β : Type} {v : Value}

/-! ## Single commands -/

theorem run_bind (q : Exchange α) (k : α → Exchange β) (l : Link) :
    (q >>= k).run.run l =
      match q.run.run l with
      | (.ok x, l') => (k x).run.run l'
      | (.error e, l') => (.error e, l') := by
  show (ExceptT.bindCont k (q.run.run l).1).run (q.run.run l).2 = _
  rcases q.run.run l with ⟨e | x, l'⟩
  · rfl
  · rfl

theorem run_bind_pure (q : Exchange α) (f : α → β) (l : Link) :
    (q >>= fun x => pure (f x)).run.run l = ((q.run.run l).1.map f, (q.run.run l).2) := by
  rw [run_bind]
  rcases q.run.run l with ⟨e | x, l'⟩
  · rfl
  · rfl

theorem run_query (c : Command) (convert : Conversion α) (l : Link) :
    (query c convert).run.run l =
      ((receive convert (l.send c).1).mapError backendError, (l.send c).2) := rfl

@[simp] theorem sent_send (c : Command) (l : Link) : (l.send c).2.sent = l.sent ++ [c] := rfl

/-! ## Scripts -/

def Failure.isUnknownScript : Failure → Bool
  | signalled f => f.code = "NOSCRIPT"
  | _ => false

section

variable (script : Script) (keys : List String) (args : List Bytes) (convert : Conversion α) (l : Link)

theorem run_queryScript :
    let call := script.callCommand keys args
    (queryScript script keys args convert).run.run l =
      match receive convert (l.send call).1 with
      | .ok x => (.ok x, (l.send call).2)
      | .error f =>
        if f.isUnknownScript then
          (query script.loadCommand .ignore >>= fun _ => query call convert).run.run (l.send call).2
        else (.error (backendError f), (l.send call).2) := by
  intro call
  unfold queryScript
  rw [run_bind]
  have hsend : ((modifyGet (Link.send call) : Exchange Value).run.run l) =
    (.ok (l.send call).1, (l.send call).2) := rfl
  simp only [hsend, call]
  cases receive convert (l.send call).1 with
  | ok x => rfl
  | error f =>
    cases f with
    | signalled fault =>
      by_cases hcode : fault.code = "NOSCRIPT"
      · simp [Failure.isUnknownScript, hcode]
      · simp only [Failure.isUnknownScript, hcode, decide_false, if_false]
        rfl
    | _ => rfl

/-- A script is run by its digest.  A server that does not know it is told it and runs it then, unless
telling it fails. -/
theorem sent_queryScript :
    let call := script.callCommand keys args
    ∃ cs ∈ [[call], [call, script.loadCommand], [call, script.loadCommand, call]],
      ((queryScript script keys args convert).run.run l).2.sent = l.sent ++ cs := by
  intro call
  rw [run_queryScript]
  cases receive convert (l.send call).1 with
  | ok x => exact ⟨[call], by simp, rfl⟩
  | error f =>
    dsimp only
    split
    · rw [run_bind, run_query]
      cases receive .ignore ((l.send call).2.send script.loadCommand).1 with
      | ok x =>
        refine ⟨[call, script.loadCommand, call], by simp, ?_⟩
        simp [Except.mapError, run_query, call]
      | error f =>
        refine ⟨[call, script.loadCommand], by simp, ?_⟩
        simp [Except.mapError, call]
    · exact ⟨[call], by simp, rfl⟩

end

/-! ## Series of commands -/

theorem sent_sendAll (cs : List Command) (l : Link) : (l.sendAll cs).2.sent = l.sent ++ cs := by
  induction cs generalizing l with
  | nil => exact (List.append_nil l.sent).symm
  | cons c cs ih =>
    refine (ih (l.send c).2).trans ?_
    rw [sent_send, List.append_assoc, List.singleton_append]

theorem sendAll_of_replies {cs : List Command} {vs : List Value} (h : vs.length = cs.length)
    (replies : List Value) (sent : List Command) :
    Link.sendAll cs ⟨vs ++ replies, sent⟩ = (vs, ⟨replies, sent ++ cs⟩) := by
  induction cs generalizing vs sent with
  | nil =>
    cases List.length_eq_zero_iff.1 h
    rw [List.append_nil]
    rfl
  | cons c cs ih =>
    cases vs with
    | nil => cases h
    | cons v vs =>
      have hrest := ih (Nat.succ.inj h) (sent ++ [c])
      rw [List.append_assoc, List.singleton_append] at hrest
      show (v :: (Link.sendAll cs ⟨vs ++ replies, sent ++ [c]⟩).1,
        (Link.sendAll cs ⟨vs ++ replies, sent ++ [c]⟩).2) = _
      rw [hrest]

/-! ## Values -/

theorem firstFault?_of_number {type : Conversion.NumberType α} {n : α}
    (h : Conversion.number type v = .ok n) : v.firstFault? = none := by
  cases v with
  | array items => cases h
  | fault f => cases h
  | _ => rfl

/-- Numbers can come as texts. -/
theorem number_bulk_encode {type : Conversion.NumberType α} {s : String} {n : α}
    (h : type.read s = some n) : Conversion.number type (.bulk (Utf8.encode s)) = .ok n := by
  rw [Conversion.number, Utf8.decode_encode]
  simp only [Conversion.parsed, h]

/-! ## Lists of values -/

section

variable {ε : Type} {f : α → Except ε β}

theorem mapM_except_ok (xs : List α) : xs.mapM (Except.ok : α → Except ε α) = .ok xs := by
  have hpure : xs.mapM (Except.ok : α → Except ε α) = pure (xs.map id) := List.mapM_pure
  rw [hpure, List.map_id]
  rfl

theorem mapM_ok {P : α → β → Prop} {xs : List α} (h : ∀ x ∈ xs, ∃ y, f x = .ok y ∧ P x y) :
    ∃ ys, xs.mapM f = .ok ys ∧ List.Forall₂ P xs ys := by
  induction xs with
  | nil => exact ⟨[], rfl, .nil⟩
  | cons x xs ih =>
    obtain ⟨⟨y, hy, hxy⟩, hrest⟩ := List.forall_mem_cons.1 h
    obtain ⟨ys, hys, hall⟩ := ih hrest
    refine ⟨y :: ys, ?_, .cons hxy hall⟩
    rw [List.mapM_cons, hy, hys]
    rfl

theorem mapM_error {before after : List α} {x : α} {e : ε} (hbefore : ∀ y ∈ before, ∃ z, f y = .ok z)
    (hx : f x = .error e) : (before ++ x :: after).mapM f = .error e := by
  induction before with
  | nil =>
    rw [List.nil_append, List.mapM_cons, hx]
    rfl
  | cons y before ih =>
    obtain ⟨⟨z, hz⟩, hrest⟩ := List.forall_mem_cons.1 hbefore
    rw [List.cons_append, List.mapM_cons, hz, ih hrest]
    rfl

end

end BatchingCache.Wire
