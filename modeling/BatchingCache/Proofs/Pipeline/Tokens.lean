import BatchingCache.Proofs.Pipeline.Ownership
/-!
# Tokens

A mutation gets a token that no other has when a caller begins to queue it, and keeps it.
-/

namespace BatchingCache.System

variable {σ : Type} {s s' : System σ} {caller id : Nat} {old new : Phase}

def carriers (s : System σ) (t : Token) : Nat :=
  s.phases.countP fun phase => phase.token? = some t

theorem carriers_add (t : Token) (hold : s.phases[caller]? = some old)
    (hphases : s'.phases = s.phases.set caller new) :
    s'.carriers t + (if old.token? = some t then 1 else 0) =
      s.carriers t + if new.token? = some t then 1 else 0 := by
  have hcount := countP_set_add (fun phase => phase.token? = some t) new hold
  simp only [decide_eq_true_eq] at hcount
  rw [carriers, carriers, hphases]
  exact hcount

/-- No two mutations that were pushed or are being queued have the same token. -/
structure Tokened (s : System σ) : Prop where
  count_le : ∀ t : Token, (s.pushed.map fun e => e.op.token).count t + s.carriers t ≤
    if t < s.nextToken then 1 else 0

theorem Tokened.nodup (h : s.Tokened) : (s.pushed.map fun e => e.op.token).Nodup := by
  rw [List.nodup_iff_count]
  intro t
  have hle := h.count_le t
  split at hle
  · omega
  · omega

theorem tokened_of_set (h : s.Tokened) (hold : s.phases[caller]? = some old)
    (hphases : s'.phases = s.phases.set caller new)
    (htoken : ∀ t, new.token? = some t → old.token? = some t)
    (hpushed : s'.pushed = s.pushed) (hnext : s'.nextToken = s.nextToken) : s'.Tokened := by
  constructor
  intro t
  have hle := h.count_le t
  have hcount := carriers_add t hold hphases
  rw [hpushed, hnext]
  by_cases hnew : new.token? = some t
  · rw [if_pos hnew, if_pos (htoken t hnew)] at hcount
    omega
  · rw [if_neg hnew] at hcount
    omega

theorem tokened_of_begin {op : PendingOp} {attempts : Nat} (h : s.Tokened)
    (hold : s.phases[caller]? = some .idle) (hop : op.token = s.nextToken)
    (hphases : s'.phases = s.phases.set caller (.reading op attempts))
    (hpushed : s'.pushed = s.pushed) (hnext : s'.nextToken = s.nextToken + 1) :
    s'.Tokened := by
  constructor
  intro t
  have hle := h.count_le t
  have hcount := carriers_add t hold hphases
  have hidle : Phase.idle.token? ≠ some t := nofun
  have hreading : (Phase.reading op attempts).token? = some t ↔ s.nextToken = t := by
    rw [← hop]
    exact Option.some_inj
  rw [if_neg hidle] at hcount
  simp only [hreading] at hcount
  rw [hpushed, hnext]
  by_cases ht : s.nextToken = t
  · -- The next token has not been given yet, so nobody carries it but the caller that begins.
    subst ht
    rw [if_neg (Nat.lt_irrefl _)] at hle
    rw [if_pos rfl] at hcount
    rw [if_pos (Nat.lt_succ_self _)]
    omega
  · have hsame : t < s.nextToken + 1 ↔ t < s.nextToken :=
      Nat.lt_succ_iff_lt_or_eq.trans (or_iff_left (Ne.symm ht))
    rw [if_neg ht] at hcount
    simp only [hsame]
    omega

theorem tokened_of_push {op : PendingOp} {attempts : Nat} (h : s.Tokened)
    (hold : s.phases[caller]? = some (.pushing op attempts id))
    (hnew : new.token? = none) (hphases : s'.phases = s.phases.set caller new)
    (hpushed : s'.pushed = s.pushed ++ [⟨caller, id, op⟩])
    (hnext : s'.nextToken = s.nextToken) : s'.Tokened := by
  constructor
  intro t
  have hle := h.count_le t
  have hcount := carriers_add t hold hphases
  have hpushing : (Phase.pushing op attempts id).token? = some t ↔ op.token = t :=
    Option.some_inj
  have hnone : new.token? ≠ some t := by
    rw [hnew]
    nofun
  rw [if_neg hnone] at hcount
  simp only [hpushing] at hcount
  rw [hpushed, hnext, List.map_append, List.count_append, List.map_singleton,
    List.count_singleton]
  simp only [beq_iff_eq]
  omega

variable [Store σ]

theorem tokened_move (h : s.Tokened) (hmove : s.Move s') : s'.Tokened := by
  cases hmove with
  | begin caller op attempts hold htoken => exact tokened_of_begin h hold htoken rfl rfl rfl
  | quiet caller old new stats inFlight hold hquiet =>
    exact tokened_of_set h hold rfl hquiet.token rfl rfl
  | push caller op attempts id ops hold hops =>
    refine tokened_of_push h hold ?_ rfl rfl rfl
    split
    · rfl
    · rfl
  | rotateFull caller id hold hslot => exact tokened_of_set h hold rfl nofun rfl rfl
  | rotate caller id hold hslot => exact tokened_of_set h hold rfl nofun rfl rfl
  | takeLast caller id hold hslot => exact tokened_of_set h hold rfl nofun rfl rfl
  | execute caller id hold => exact tokened_of_set h hold rfl nofun rfl rfl
  | background id hmem => exact ⟨h.count_le⟩

end BatchingCache.System
