import BatchingCache.Store.Memory
import Mathlib.Data.List.Basic
/-!
# Batches against a store in memory

A batch is its mutations carried out one after the other, and every mutation is a call of its own:
the same content results, and a mutation that waits for an acknowledgement is applied exactly if
its call is answered with `true`.
-/

namespace BatchingCache

namespace Content

variable {now : Nat} {d : Content}

theorem mutateAll_cons (m : Mutation) (ms : List Mutation) :
    d.mutateAll now (m :: ms) =
      ((d.mutate now m).1 :: ((d.mutate now m).2.mutateAll now ms).1,
        ((d.mutate now m).2.mutateAll now ms).2) := rfl

theorem mutateAll_append (ms ms' : List Mutation) :
    d.mutateAll now (ms ++ ms') =
      ((d.mutateAll now ms).1 ++ ((d.mutateAll now ms).2.mutateAll now ms').1,
        ((d.mutateAll now ms).2.mutateAll now ms').2) := by
  induction ms generalizing d with
  | nil => rfl
  | cons m ms ih => rw [List.cons_append, mutateAll_cons, ih, mutateAll_cons, List.cons_append]

theorem getElem?_mutateAll (ms : List Mutation) (i : Nat) :
    (d.mutateAll now ms).1[i]? =
      (ms[i]?).map fun m => ((d.mutateAll now (ms.take i)).2.mutate now m).1 := by
  induction ms generalizing d i with
  | nil => rfl
  | cons m ms ih =>
    rw [mutateAll_cons]
    cases i with
    | zero => rfl
    | succ i => rw [List.getElem?_cons_succ, List.getElem?_cons_succ, ih]; rfl

end Content

theorem isApplied_toOption_iff {r : Except StoreError Bool} :
    (Reply.applied (r.toOption.getD false)).isApplied ↔ r = .ok true := by
  cases r with
  | error e => simp [Except.toOption, Reply.isApplied]
  | ok b => simp [Except.toOption, Reply.isApplied]

/-! ## Calls -/

def Mutation.call : Mutation → Call
  | set key value ttl => .set key value ttl
  | compareAndSet key expected value => .compareAndSet key expected value
  | delete key => .delete key
  | scoredAdd key score member => .scoredAdd key score member

theorem Mutation.call_injective : Function.Injective Mutation.call := by
  intro m m' h
  cases m <;> cases m' <;> cases h <;> rfl

/-- Whether the call of a mutation that waits for an acknowledgement is answered with `true`. -/
def Mutation.Acknowledged (s : Memory) : Mutation → Prop
  | compareAndSet key expected value => (s.call (.compareAndSet key expected value)).1 = .ok true
  | scoredAdd key score member => (s.call (.scoredAdd key score member)).1 = .ok true
  | _ => True

instance (s : Memory) (m : Mutation) : Decidable (m.Acknowledged s) :=
  match m with
  | .compareAndSet .. => inferInstanceAs (Decidable (_ = _))
  | .scoredAdd .. => inferInstanceAs (Decidable (_ = _))
  | .set .. => inferInstanceAs (Decidable True)
  | .delete _ => inferInstanceAs (Decidable True)

namespace Memory

variable {s : Memory}

@[simp] theorem now_call (c : Call) : (s.call c).2.now = s.now := by
  cases hs : s.failing <;> simp [call, hs]

@[simp] theorem failing_call (c : Call) : (s.call c).2.failing = s.failing := by
  cases hs : s.failing <;> simp [call, hs]

theorem abandoned_call (hs : s.failing = false) (c : Call) :
    (s.call c).2.abandoned = (c.isOverdue s.now || s.abandoned) := by
  simp [call, hs]

theorem call_of_failing (hs : s.failing = true) (c : Call) :
    s.call c = (.error .injected, { s with calls := s.calls + 1 }) := by
  simp [call, hs]

theorem fst_call (hs : s.failing = false) (c : Call) :
    (s.call c).1 = (s.content.answer s.now c).1 := by
  simp [call, hs]

theorem content_call (hs : s.failing = false) (c : Call) :
    (s.call c).2.content = (s.content.answer s.now c).2 := by
  simp [call, hs]

theorem call_of_answer (hs : s.failing = false) {c : Call} {r : Except StoreError c.Answer}
    (h : (s.content.answer s.now c).1 = r) : Store.call c s = (r, (s.call c).2) :=
  Prod.ext ((fst_call hs c).trans h) rfl

theorem snd_call (hs : s.failing = false) (c : Call) (hc : ∀ ms, c ≠ .batch ms)
    (htimely : c.isOverdue s.now = false) :
    (s.call c).2 = { s with content := (s.content.answer s.now c).2, calls := s.calls + 1 } := by
  cases c with
  | batch ms => exact absurd rfl (hc ms)
  | _ => simp [call, hs, htimely]

theorem fst_call_batch (hs : s.failing = false) (ms : List Mutation) :
    (s.call (.batch ms)).1 = .ok (s.content.mutateAll s.now ms).1 :=
  fst_call hs _

theorem content_call_batch (hs : s.failing = false) (ms : List Mutation) :
    (s.call (.batch ms)).2.content = (s.content.mutateAll s.now ms).2 :=
  content_call hs _

/-- A mutation does to the content what its call does. -/
theorem content_call_mutation (hs : s.failing = false) (m : Mutation) :
    (s.call m.call).2.content = (s.content.mutate s.now m).2 := by
  rw [content_call hs]
  cases m <;> rfl

theorem abandoned_call_mutation (hs : s.failing = false) (m : Mutation) :
    (s.call m.call).2.abandoned = (m.isOverdue s.now || s.abandoned) := by
  rw [abandoned_call hs]
  cases m <;> rfl

/-- A mutation that waits for an acknowledgement is applied exactly if its call is answered with
`true`. -/
theorem isApplied_mutate_iff (hs : s.failing = false) {m : Mutation} (hm : m.requiresAck) :
    (s.content.mutate s.now m).1.isApplied ↔ m.Acknowledged s := by
  cases m with
  | set key value ttl => simp [Mutation.requiresAck] at hm
  | delete key => simp [Mutation.requiresAck] at hm
  | compareAndSet key expected value =>
    rw [Mutation.Acknowledged, fst_call hs]
    exact isApplied_toOption_iff
  | scoredAdd key score member =>
    rw [Mutation.Acknowledged, fst_call hs]
    exact isApplied_toOption_iff

end Memory

end BatchingCache
