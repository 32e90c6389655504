import BatchingCache.Batch
import BatchingCache.Proofs.Store.Batches
/-!
# Settlements

What the mutations of a batch come to on a store in memory that does not fail: each is settled by
the reply that it gets after the mutations before it.  So it does not matter how a list of mutations
is cut into batches.
-/

namespace BatchingCache.Batch

theorem run_cons {σ : Type} [Store σ] (id : Nat) (op : PendingOp) (ops : List PendingOp) (s : σ) :
    run id (op :: ops) s =
      let r := Store.call (.batch ((op :: ops).map PendingOp.mutation)) s
      let settled := settle id (op :: ops) r.1
      ⟨tally settled, r.2, settled, [.batchExecuted (tally settled).total (tally settled).failed]⟩ :=
  rfl

variable {now : Nat} {d : Content}

def settleInOrder (now : Nat) : List PendingOp → Content → List Settlement
  | [], _ => []
  | op :: ops, d =>
    let (reply, d) := d.mutate now op.mutation
    ⟨op.token, complete op reply⟩ :: settleInOrder now ops d

def contentAfter (now : Nat) (ops : List PendingOp) (d : Content) : Content :=
  (d.mutateAll now (ops.map PendingOp.mutation)).2

def overdue (now : Nat) (ops : List PendingOp) : Bool :=
  ops.any fun op => op.mutation.isOverdue now

theorem overdue_append (ops ops' : List PendingOp) :
    overdue now (ops ++ ops') = (overdue now ops || overdue now ops') := List.any_append

theorem contentAfter_append (ops ops' : List PendingOp) :
    contentAfter now (ops ++ ops') d = contentAfter now ops' (contentAfter now ops d) := by
  rw [contentAfter, List.map_append, Content.mutateAll_append]
  rfl

theorem settleInOrder_cons (op : PendingOp) (ops : List PendingOp) :
    settleInOrder now (op :: ops) d =
      ⟨op.token, complete op (d.mutate now op.mutation).1⟩ ::
        settleInOrder now ops (d.mutate now op.mutation).2 := rfl

theorem settleInOrder_append (ops ops' : List PendingOp) :
    settleInOrder now (ops ++ ops') d =
      settleInOrder now ops d ++ settleInOrder now ops' (contentAfter now ops d) := by
  induction ops generalizing d with
  | nil => rfl
  | cons op ops ih => rw [List.cons_append, settleInOrder_cons, ih]; rfl

theorem getElem?_settleInOrder (ops : List PendingOp) (i : Nat) :
    (settleInOrder now ops d)[i]? =
      (ops[i]?).map fun op =>
        ⟨op.token, complete op ((contentAfter now (ops.take i) d).mutate now op.mutation).1⟩ := by
  induction ops generalizing d i with
  | nil => rfl
  | cons op ops ih =>
    rw [settleInOrder_cons]
    cases i with
    | zero => rfl
    | succ i => rw [List.getElem?_cons_succ, List.getElem?_cons_succ, ih]; rfl

theorem filter_settleInOrder_eq_nil {token : Token} {ops : List PendingOp}
    (h : ∀ op ∈ ops, op.token ≠ token) :
    (settleInOrder now ops d).filter (fun x => x.token = token) = [] := by
  induction ops generalizing d with
  | nil => rfl
  | cons op ops ih =>
    have hop : op.token ≠ token := h op List.mem_cons_self
    rw [settleInOrder_cons, List.filter_cons_of_neg (by simpa using hop)]
    exact ih fun op' hop' => h op' (List.mem_cons_of_mem _ hop')

/-- A batch is settled as if its mutations were carried out one after the other. -/
theorem settle_mutateAll (id : Nat) (ops : List PendingOp) :
    settle id ops (.ok (d.mutateAll now (ops.map PendingOp.mutation)).1) =
      settleInOrder now ops d := by
  apply List.ext_getElem?
  intro i
  rw [settle, List.getElem?_mapIdx, getElem?_settleInOrder]
  cases hop : ops[i]? with
  | none => rfl
  | some op =>
    have hreply : (d.mutateAll now (ops.map PendingOp.mutation)).1[i]? =
        some ((contentAfter now (ops.take i) d).mutate now op.mutation).1 := by
      rw [Content.getElem?_mutateAll, List.getElem?_map, hop, contentAfter, List.map_take]
      rfl
    rw [Option.map_some, Option.map_some, completeAt, hreply]

/-! ## Batches one after the other -/

section Succession

variable {σ : Type} [Store σ]

def storeAfter : List Batch → σ → σ
  | [], s => s
  | b :: bs, s => storeAfter bs (run b.id b.pending s).store

def settledBy : List Batch → σ → List Settlement
  | [], _ => []
  | b :: bs, s => (run b.id b.pending s).settled ++ settledBy bs (run b.id b.pending s).store

theorem storeAfter_append (bs bs' : List Batch) (s : σ) :
    storeAfter (bs ++ bs') s = storeAfter bs' (storeAfter bs s) := by
  induction bs generalizing s with
  | nil => rfl
  | cons b bs ih => rw [List.cons_append, storeAfter, ih, storeAfter]

theorem settledBy_append (bs bs' : List Batch) (s : σ) :
    settledBy (bs ++ bs') s = settledBy bs s ++ settledBy bs' (storeAfter bs s) := by
  induction bs generalizing s with
  | nil => rfl
  | cons b bs ih =>
    rw [List.cons_append, settledBy, ih, settledBy, storeAfter, List.append_assoc]

theorem length_settle (id : Nat) (ops : List PendingOp)
    (answer : Except StoreError (List Reply)) : (settle id ops answer).length = ops.length := by
  cases answer with
  | ok replies => rw [settle, List.length_mapIdx]
  | error e => rw [settle, List.length_map]

theorem map_token_settle (id : Nat) (ops : List PendingOp)
    (answer : Except StoreError (List Reply)) :
    (settle id ops answer).map Settlement.token = ops.map PendingOp.token := by
  cases answer with
  | ok replies =>
    apply List.ext_getElem?
    intro i
    rw [settle, List.getElem?_map, List.getElem?_mapIdx, List.getElem?_map, Option.map_map]
    rfl
  | error e => rw [settle, List.map_map]; rfl

/-- Every mutation of a batch is settled, whatever the store answers. -/
theorem map_token_run (id : Nat) (ops : List PendingOp) (s : σ) :
    (run id ops s).settled.map Settlement.token = ops.map PendingOp.token := by
  cases ops with
  | nil => rfl
  | cons op ops =>
    rw [run_cons]
    exact map_token_settle id (op :: ops) _

theorem total_run (id : Nat) (ops : List PendingOp) (s : σ) :
    (run id ops s).result.total = ops.length := by
  cases ops with
  | nil => rfl
  | cons op ops =>
    rw [run_cons]
    exact length_settle id (op :: ops) _

end Succession

/-! ## Execution on a store in memory -/

variable {s : Memory}

/-- A mutation comes to its mark exactly if its own call would be acknowledged, where it needs that. -/
theorem complete_mutate (hs : s.failing = false) (op : PendingOp) :
    (op.mutation.Acknowledged s →
        complete op (s.content.mutate s.now op.mutation).1 = .ok op.mutationId) ∧
      (¬ op.mutation.Acknowledged s →
        complete op (s.content.mutate s.now op.mutation).1 =
          .error (.batchProcessing .notApplied)) := by
  cases hack : op.mutation.requiresAck with
  | true =>
    have hiff := Memory.isApplied_mutate_iff hs hack
    constructor
    · intro h
      rw [complete, hack, hiff.2 h]
      rfl
    · intro h
      have hreply : (s.content.mutate s.now op.mutation).1.isApplied = false := by
        rw [← Bool.not_eq_true, hiff]
        exact h
      rw [complete, hack, hreply]
      rfl
  | false =>
    have hgranted : op.mutation.Acknowledged s := by
      revert hack
      cases op.mutation with
      | set key value ttl => exact fun _ => trivial
      | delete key => exact fun _ => trivial
      | compareAndSet key expected value => nofun
      | scoredAdd key score member => nofun
    refine ⟨fun _ => ?_, fun h => absurd hgranted h⟩
    rw [complete, hack]
    rfl

theorem settled_run (hs : s.failing = false) (id : Nat) (ops : List PendingOp) :
    (run id ops s).settled = settleInOrder s.now ops s.content := by
  cases ops with
  | nil => rfl
  | cons op ops =>
    rw [run_cons]
    show settle id (op :: ops) (s.call (.batch ((op :: ops).map PendingOp.mutation))).1 = _
    rw [Memory.fst_call_batch hs]
    exact settle_mutateAll id (op :: ops)

theorem content_run (hs : s.failing = false) (id : Nat) (ops : List PendingOp) :
    (run id ops s).store.content = contentAfter s.now ops s.content := by
  cases ops with
  | nil => rfl
  | cons op ops => exact Memory.content_call_batch hs ((op :: ops).map PendingOp.mutation)

theorem abandoned_run (hs : s.failing = false) (id : Nat) (ops : List PendingOp) :
    (run id ops s).store.abandoned = (overdue s.now ops || s.abandoned) := by
  cases ops with
  | nil => rfl
  | cons op ops =>
    have hcall := Memory.abandoned_call hs (.batch ((op :: ops).map PendingOp.mutation))
    rw [Call.isOverdue, List.any_map] at hcall
    exact hcall

@[simp] theorem now_run (id : Nat) (ops : List PendingOp) : (run id ops s).store.now = s.now := by
  cases ops with
  | nil => rfl
  | cons op ops => exact Memory.now_call (.batch ((op :: ops).map PendingOp.mutation))

@[simp] theorem failing_run (id : Nat) (ops : List PendingOp) :
    (run id ops s).store.failing = s.failing := by
  cases ops with
  | nil => rfl
  | cons op ops => exact Memory.failing_call (.batch ((op :: ops).map PendingOp.mutation))

@[simp] theorem now_storeAfter (bs : List Batch) : (storeAfter bs s).now = s.now := by
  induction bs generalizing s with
  | nil => rfl
  | cons b bs ih => rw [storeAfter, ih, now_run]

@[simp] theorem failing_storeAfter (bs : List Batch) :
    (storeAfter bs s).failing = s.failing := by
  induction bs generalizing s with
  | nil => rfl
  | cons b bs ih => rw [storeAfter, ih, failing_run]

/-- It does not matter how mutations are cut into batches: for the content. -/
theorem content_storeAfter (hs : s.failing = false) (bs : List Batch) :
    (storeAfter bs s).content = contentAfter s.now (bs.flatMap pending) s.content := by
  induction bs generalizing s with
  | nil => rfl
  | cons b bs ih =>
    have hfailing : (run b.id b.pending s).store.failing = false := by rw [failing_run, hs]
    rw [storeAfter, ih hfailing, now_run, content_run hs, List.flatMap_cons, contentAfter_append]

theorem abandoned_storeAfter (hs : s.failing = false) (bs : List Batch) :
    (storeAfter bs s).abandoned = (overdue s.now (bs.flatMap pending) || s.abandoned) := by
  induction bs generalizing s with
  | nil => rfl
  | cons b bs ih =>
    have hfailing : (run b.id b.pending s).store.failing = false := by rw [failing_run, hs]
    rw [storeAfter, ih hfailing, now_run, abandoned_run hs, List.flatMap_cons, overdue_append,
      Bool.or_left_comm, Bool.or_assoc]

/-- It does not matter how mutations are cut into batches: for what they come to. -/
theorem settledBy_eq (hs : s.failing = false) (bs : List Batch) :
    settledBy bs s = settleInOrder s.now (bs.flatMap pending) s.content := by
  induction bs generalizing s with
  | nil => rfl
  | cons b bs ih =>
    have hfailing : (run b.id b.pending s).store.failing = false := by rw [failing_run, hs]
    rw [settledBy, ih hfailing, now_run, content_run hs, settled_run hs, List.flatMap_cons,
      settleInOrder_append]

end BatchingCache.Batch
