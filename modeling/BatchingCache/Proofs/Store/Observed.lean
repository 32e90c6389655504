import BatchingCache.Proofs.Batch.Settlement
/-!
# Observed stores

A store that is watched: it answers as before, and the calls that it is sent are written down.
-/

namespace BatchingCache

structure Observed (σ : Type) where
  store : σ
  calls : List Call := []

variable {σ : Type} [Store σ]

instance : Store (Observed σ) where
  call c s := ((Store.call c s.store).1, ⟨(Store.call c s.store).2, s.calls ++ [c]⟩)

def Batch.sent (ops : List PendingOp) : Call := .batch (ops.map PendingOp.mutation)

namespace Observed

variable {s : Observed σ}

theorem calls_run (id : Nat) (ops : List PendingOp) :
    (Batch.run id ops s).store.calls =
      s.calls ++ ([ops].filter fun ops => !ops.isEmpty).map Batch.sent := by
  cases ops with
  | nil => exact (List.append_nil s.calls).symm
  | cons op ops => rfl

/-- Every batch is sent in a call of its own, and one without mutations is not sent. -/
theorem calls_storeAfter (bs : List Batch) :
    (Batch.storeAfter bs s).calls =
      s.calls ++ ((bs.map Batch.pending).filter fun ops => !ops.isEmpty).map Batch.sent := by
  induction bs generalizing s with
  | nil => exact (List.append_nil s.calls).symm
  | cons b bs ih =>
    have hcut : (b :: bs).map Batch.pending = [b.pending] ++ bs.map Batch.pending := rfl
    rw [Batch.storeAfter, ih, calls_run, hcut, List.filter_append, List.map_append,
      List.append_assoc]

end Observed

end BatchingCache
