import BatchingCache.Proofs.Batch.Lifecycle
import BatchingCache.Proofs.Cache.Queries
import BatchingCache.Store.Rehearsal
/-!
# Failed batches

When the call of a batch fails, all of its mutations fail, but not with the failure that the store gave
and that a direct operation passes on.  They fail with one of the backend whose text is what the store's
failure says, so its prefix comes twice or before that of another kind.
-/

namespace BatchingCache

namespace StoreError

def SameKind : StoreError → StoreError → Prop
  | backend _, backend _ => True
  | unexpectedReply _, unexpectedReply _ => True
  | pageOverflow, pageOverflow => True
  | _, _ => False

variable {e : StoreError}

theorem sameKind_backend_iff {text : String} :
    (backend text).SameKind e ↔ ∃ text', e = .backend text' := by
  cases e with
  | backend text' => exact iff_of_true trivial ⟨text', rfl⟩
  | unexpectedReply text' => exact iff_of_false id nofun
  | pageOverflow => exact iff_of_false id nofun

theorem message_backend_message_ne (e : StoreError) : (backend e.message).message ≠ e.message := by
  have hmessage : (backend e.message).message = "Storage backend error: " ++ e.message := rfl
  have hprefix : 0 < "Storage backend error: ".length := by decide
  intro h
  have hlength := congrArg String.length (hmessage.symm.trans h)
  rw [String.length_append] at hlength
  exact absurd hlength (Nat.ne_of_gt (Nat.lt_add_of_pos_left hprefix))

end StoreError

namespace Batch

variable {σ : Type} [Store σ]

/-- When the store fails to execute a batch, every caller is told of a failure of the backend, with what
the failure of the store says for its text.  It is of the same kind only if the backend failed, it never
says the same, and so it is never the failure that a direct operation passes on. -/
theorem failed_batch_rewords_failure {b : Batch} {s : σ} {e : StoreError}
    (hfailed : (Store.call (sent b.pending) s).1 = .error e) :
    (b.execute s).2.settled.map Settlement.token = b.pending.map PendingOp.token ∧
      ∀ x ∈ (b.execute s).2.settled, ∃ told : StoreError,
        x.completion = .error (.store told) ∧ told = .backend e.message ∧
          (told.SameKind e ↔ ∃ text, e = .backend text) ∧ told.message ≠ e.message ∧
          ∀ (c : Call) (t : σ), (Store.call c t).1 = .error e →
            ((perform c : Query σ c.Answer).run.run t).1 = .error (.store e) ∧ told ≠ e := by
  have hsettled : (b.execute s).2.settled =
      b.pending.map fun op => ⟨op.token, .error (.store (.backend e.message))⟩ :=
    (settled_run_eq_settle b.id b.pending s).trans (congrArg (settle b.id b.pending) hfailed)
  refine ⟨map_token_run b.id b.pending s, ?_⟩
  intro x hx
  rw [hsettled, List.mem_map] at hx
  obtain ⟨op, -, rfl⟩ := hx
  refine ⟨.backend e.message, rfl, rfl, StoreError.sameKind_backend_iff,
    e.message_backend_message_ne, ?_⟩
  intro c t hcall
  constructor
  · rw [run_perform, hcall]
    rfl
  · intro h
    exact e.message_backend_message_ne (congrArg StoreError.message h)

theorem unreadable_answer_reworded :
    let b : Batch :=
      ⟨1, .accumulating [⟨.set "a" [49] none, none, 0⟩, ⟨.delete "b", some "m", 1⟩]⟩
    let s : Rehearsal := { batchAnswers := [.error (.unexpectedReply "boom")] }
    (Store.call (sent b.pending) s).1 = .error (.unexpectedReply "boom") ∧
      (b.execute s).2.settled.map Settlement.token = [0, 1] ∧
      ∀ x ∈ (b.execute s).2.settled, ∃ told : StoreError, x.completion = .error (.store told) ∧
        told.message = "Storage backend error: Unexpected store reply: boom" := by
  intro b s
  have hfailed : (Store.call (sent b.pending) s).1 = .error (.unexpectedReply "boom") := rfl
  obtain ⟨htokens, htold⟩ := failed_batch_rewords_failure hfailed
  refine ⟨hfailed, htokens, ?_⟩
  intro x hx
  obtain ⟨_, hcompletion, rfl, -⟩ := htold x hx
  exact ⟨_, hcompletion, by decide⟩

theorem unreadable_answer_told_as_backend_failure :
    ¬ ∀ (b : Batch) (s : Rehearsal) (e : StoreError), b.pending ≠ [] →
      (Store.call (sent b.pending) s).1 = .error e →
      ∀ x ∈ (b.execute s).2.settled, ∃ told : StoreError,
        x.completion = .error (.store told) ∧ told.SameKind e ∧ told.message = e.message := by
  intro hall
  let b : Batch := ⟨1, .accumulating [⟨.set "a" [49] none, none, 0⟩]⟩
  let s : Rehearsal := { batchAnswers := [.error (.unexpectedReply "boom")] }
  have hmem : (⟨0, .error (.store (.backend "Unexpected store reply: boom"))⟩ : Settlement) ∈
      (b.execute s).2.settled := List.mem_singleton.2 rfl
  obtain ⟨_, hcompletion, hkind, -⟩ :=
    hall b s (.unexpectedReply "boom") (List.cons_ne_nil _ _) rfl _ hmem
  cases hcompletion
  exact hkind

end Batch

end BatchingCache
