import BatchingCache.Proofs.Store.Batches
import BatchingCache.Proofs.Store.Live
/-!
# Failed calls and rejected mutations

A call that fails leaves the store as it was, but for the count of the calls.  A batch does not fail for
one of its mutations: a mutation that finds another kind of value under its key is answered as not
applied, and the others fare as if it were not there.
-/

namespace BatchingCache

def Mutation.fits : Mutation → Entry → Bool
  | compareAndSet .., .string .. => true
  | compareAndSet .., _ => false
  | scoredAdd .., .scored _ => true
  | scoredAdd .., _ => false
  | _, _ => true

def Mutation.Misplaced (d : Content) (m : Mutation) : Prop :=
  ∃ e, d.get? m.key = some e ∧ m.fits e = false

namespace Content

variable {now : Nat} {key : String} {d : Content} {e : StoreError}

/-! ## Calls -/

/-- Reading a string fails on a value of another kind, and such a value does not expire. -/
theorem read_of_error (h : (d.read now key).1 = .error e) : (d.read now key).2 = d := by
  rw [snd_read]
  rw [fst_read] at h
  cases hlive : d.live now key with
  | none =>
    rw [hlive] at h
    cases h
  | some entry => exact dropExpired_of_live hlive

theorem compareAndSet_of_error {expected value : Bytes}
    (h : (d.compareAndSet now key expected value).1 = .error e) :
    (d.compareAndSet now key expected value).2 = d := by
  obtain ⟨-, happlied⟩ | ⟨-, hrefused⟩ := compareAndSet_cases now key expected value d
  · rw [happlied] at h
    cases h
  · rw [hrefused] at h ⊢
    rw [refusal, ← misfit_live now] at h
    cases hlive : d.live now key with
    | none =>
      rw [hlive] at h
      cases h
    | some entry => exact dropExpired_of_live hlive

theorem addScored_of_error {score : Binary64} {member : Bytes}
    (h : (d.addScored key score member).1 = .error e) :
    (d.addScored key score member).2 = d := by
  unfold addScored at h ⊢
  split at h
  · cases h
  · cases h
  · rfl

theorem putFields_of_error {fields : List (String × Bytes)}
    (h : (d.putFields key fields).1 = .error e) : (d.putFields key fields).2 = d := by
  unfold putFields at h ⊢
  split at h
  · cases h
  · cases h
  · rfl

theorem deleteFields_of_error {names : List String} (h : (d.deleteFields key names).1 = .error e) :
    (d.deleteFields key names).2 = d := by
  unfold deleteFields at h ⊢
  split at h
  · cases h
  · cases h
  · rfl

/-- A call that fails changes nothing, and a batch does not fail. -/
theorem answer_of_error {c : Call} (h : (d.answer now c).1 = .error e) :
    (d.answer now c).2 = d ∧ ∀ ms, c ≠ .batch ms := by
  cases c with
  | get key => exact ⟨read_of_error h, nofun⟩
  | set key value ttl => cases h
  | compareAndSet key expected value => exact ⟨compareAndSet_of_error h, nofun⟩
  | delete key => cases h
  | scoredAdd key score member => exact ⟨addScored_of_error h, nofun⟩
  | scoredRange key start stop reversed => exact ⟨rfl, nofun⟩
  | mapPut key fields => exact ⟨putFields_of_error h, nofun⟩
  | mapGet key => exact ⟨rfl, nofun⟩
  | mapGetFields key names => exact ⟨rfl, nofun⟩
  | mapDeleteFields key names => exact ⟨deleteFields_of_error h, nofun⟩
  | scan cursor count pattern => exact ⟨rfl, nofun⟩
  | batch ms => cases h

/-! ## Mutations of a batch -/

theorem compareAndSet_of_misplaced {expected value : Bytes}
    (h : (Mutation.compareAndSet key expected value).Misplaced d) :
    d.compareAndSet now key expected value = (.error .wrongType, d) := by
  obtain ⟨entry, hget, hfits⟩ := h
  have hget : d.get? key = some entry := hget
  cases entry with
  | string current expiresAt => cases hfits
  | scored set => simp [compareAndSet, dropExpired, hget, Entry.isExpired]
  | map fields => simp [compareAndSet, dropExpired, hget, Entry.isExpired]

theorem addScored_of_misplaced {score : Binary64} {member : Bytes}
    (h : (Mutation.scoredAdd key score member).Misplaced d) :
    d.addScored key score member = (.error .wrongType, d) := by
  obtain ⟨entry, hget, hfits⟩ := h
  have hget : d.get? key = some entry := hget
  cases entry with
  | string current expiresAt => simp [addScored, hget]
  | scored set => cases hfits
  | map fields => simp [addScored, hget]

/-- A misplaced mutation is not applied and changes nothing. -/
theorem mutate_of_misplaced {m : Mutation} (h : m.Misplaced d) :
    d.mutate now m = (.applied false, d) := by
  cases m with
  | compareAndSet key expected value => simp [mutate, compareAndSet_of_misplaced h, Except.toOption]
  | scoredAdd key score member => simp [mutate, addScored_of_misplaced h, Except.toOption]
  | set key value ttl =>
    obtain ⟨entry, -, hfits⟩ := h
    cases hfits
  | delete key =>
    obtain ⟨entry, -, hfits⟩ := h
    cases hfits

theorem answer_of_misplaced {m : Mutation} (h : m.Misplaced d) :
    (d.answer now m.call).1 = .error .wrongType := by
  cases m with
  | compareAndSet key expected value => exact congrArg Prod.fst (compareAndSet_of_misplaced h)
  | scoredAdd key score member => exact congrArg Prod.fst (addScored_of_misplaced h)
  | set key value ttl =>
    obtain ⟨entry, -, hfits⟩ := h
    cases hfits
  | delete key =>
    obtain ⟨entry, -, hfits⟩ := h
    cases hfits

/-- The mutations around a misplaced one are answered, and leave the content, as without it. -/
theorem mutateAll_of_misplaced (first rest : List Mutation) {m : Mutation}
    (h : m.Misplaced (d.mutateAll now first).2) :
    d.mutateAll now (first ++ m :: rest) =
        ((d.mutateAll now first).1 ++
            .applied false :: ((d.mutateAll now first).2.mutateAll now rest).1,
          (d.mutateAll now (first ++ rest)).2) := by
  rw [mutateAll_append, mutateAll_cons, mutate_of_misplaced h, mutateAll_append]

theorem length_mutateAll (ms : List Mutation) : (d.mutateAll now ms).1.length = ms.length := by
  induction ms generalizing d with
  | nil => rfl
  | cons m ms ih => rw [mutateAll_cons, List.length_cons, ih, List.length_cons]

end Content

namespace Memory

/-- A call that fails leaves nothing behind but its count.  A batch is not failed by a mutation that is
misplaced where its turn comes: that one is answered as not applied and changes nothing, and the others
are answered, and leave the content, as if it were not in the batch. -/
theorem failure_changes_nothing (s : Memory) :
    (∀ (c : Call) (e : StoreError), (s.call c).1 = .error e →
      (s.call c).2 = { s with calls := s.calls + 1 }) ∧
    ∀ (first rest : List Mutation) (m : Mutation), s.failing = false →
      let before := (s.call (.batch first)).2
      let within := s.call (.batch (first ++ m :: rest))
      let without := s.call (.batch (first ++ rest))
      m.Misplaced before.content →
        (before.call m.call).1 = .error .wrongType ∧
        (s.call (.batch (first ++ [m]))).2.content = before.content ∧
        within.2.content = without.2.content ∧
        ∃ replies replies', replies.length = first.length ∧
          without.1 = .ok (replies ++ replies') ∧
          within.1 = .ok (replies ++ .applied false :: replies') := by
  constructor
  · intro c e h
    cases hs : s.failing with
    | true => simp [call, hs]
    | false =>
      rw [fst_call hs] at h
      obtain ⟨hcontent, hbatch⟩ := Content.answer_of_error h
      cases c with
      | batch ms => exact absurd rfl (hbatch ms)
      | set key value ttl => cases h
      | _ => simp [call, hs, hcontent, Call.isOverdue]
  · intro first rest m hs before within without hm
    have hbefore : before.content = (s.content.mutateAll s.now first).2 := content_call_batch hs first
    have hfailing : before.failing = false := (failing_call _).trans hs
    rw [hbefore] at hm
    have hwithin := Content.mutateAll_of_misplaced first rest hm
    refine ⟨?_, ?_, ?_, (s.content.mutateAll s.now first).1,
      ((s.content.mutateAll s.now first).2.mutateAll s.now rest).1, Content.length_mutateAll first,
      ?_, ?_⟩
    · rw [fst_call hfailing, hbefore]
      exact Content.answer_of_misplaced hm
    · rw [content_call_batch hs, Content.mutateAll_of_misplaced first [] hm, List.append_nil, hbefore]
    · rw [content_call_batch hs, content_call_batch hs, hwithin]
    · rw [fst_call_batch hs, Content.mutateAll_append]
    · rw [fst_call_batch hs, hwithin]

theorem failure_changes_nothing_mixed :
    let s : Memory :=
      { content := KeyMap.ofList [("board", .scored (ScoredSet.insert ⟨.zero, [109]⟩ ∅)),
          ("plain", .string [120] none)] }
    let first : List Mutation := [.set "a" [49] none]
    let rest : List Mutation := [.scoredAdd "board" .zero [110], .delete "a"]
    let m : Mutation := .compareAndSet "board" [109] [121]
    (s.call (.scoredRange "plain" 0 (-1) false)).1 = .error .wrongType ∧
      (s.call (.scoredRange "plain" 0 (-1) false)).2 = { s with calls := 1 } ∧
      s.failing = false ∧ m.Misplaced (s.call (.batch first)).2.content ∧
      (s.call (.batch (first ++ m :: rest))).2.content =
        (s.call (.batch (first ++ rest))).2.content ∧
      (s.call (.batch (first ++ m :: rest))).1 =
        .ok [.done, .applied false, .applied true, .applied true] := by
  intro s first rest m
  obtain ⟨hcalls, hbatches⟩ := s.failure_changes_nothing
  have hrange : (s.call (.scoredRange "plain" 0 (-1) false)).1 = .error .wrongType := rfl
  have hm : m.Misplaced (s.call (.batch first)).2.content :=
    ⟨.scored (ScoredSet.insert ⟨.zero, [109]⟩ ∅), rfl, rfl⟩
  obtain ⟨-, -, hcontent, -⟩ := hbatches first rest m rfl hm
  exact ⟨hrange, hcalls _ _ hrange, rfl, hm, hcontent, rfl⟩

end Memory

end BatchingCache
