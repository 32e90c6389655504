import BatchingCache.Cache.Basic
/-!
# Queries

A query goes on with the answer to its call, or ends with the failure of the call.
-/

namespace BatchingCache

variable {σ α β : Type} {s : σ}

def resume (k : α → Query σ β) : Except CacheError α → σ → Except CacheError β × σ
  | .ok x, s => (k x).run.run s
  | .error e, s => (.error e, s)

theorem run_bind (q : Query σ α) (k : α → Query σ β) :
    (q >>= k).run.run s = resume k (q.run.run s).1 (q.run.run s).2 := by
  show (ExceptT.bindCont k (q.run.run s).1).run (q.run.run s).2 = _
  rcases q.run.run s with ⟨e | x, s'⟩
  · rfl
  · rfl

theorem run_liftM_bind (x : Except CacheError α) (k : α → Query σ β) :
    ((liftM x : Query σ α) >>= k).run.run s = resume k x s := by
  rw [run_bind]
  cases x with
  | ok x => rfl
  | error e => rfl

theorem run_perform [Store σ] (c : Call) :
    (perform c).run.run s = ((Store.call c s).1.mapError CacheError.store, (Store.call c s).2) :=
  rfl

theorem run_perform_bind [Store σ] {c : Call} (k : c.Answer → Query σ β) :
    (perform c >>= k).run.run s =
      match Store.call c s with
      | (.ok x, s') => (k x).run.run s'
      | (.error e, s') => (.error (.store e), s') := by
  rw [run_bind, run_perform]
  rcases Store.call c s with ⟨e | x, s'⟩
  · rfl
  · rfl

/-- Whatever holds of computations that do nothing, and of two computations in a row, holds of one
computation after the other along a list. -/
theorem of_mapM {m : Type → Type} [Monad m] [LawfulMonad m] {P : {δ : Type} → m δ → Prop}
    (hpure : ∀ {δ : Type} (x : δ), P (pure x))
    (hbind : ∀ {δ ε : Type} {x : m δ} {k : δ → m ε}, P x → (∀ y, P (k y)) → P (x >>= k))
    {f : α → m β} (hf : ∀ x, P (f x)) (xs : List α) : P (xs.mapM f) := by
  induction xs with
  | nil =>
    rw [List.mapM_nil]
    exact hpure []
  | cons x xs ih =>
    rw [List.mapM_cons]
    exact hbind (hf x) fun y => hbind ih fun ys => hpure _

end BatchingCache
