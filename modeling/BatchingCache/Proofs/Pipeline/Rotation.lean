import BatchingCache.Proofs.Pipeline.Contents
/-!
# Rotation

Batches leave the slot one after the other, in the order of their numbers, and a fresh batch comes
after each of them unless the pipeline shuts down.  The push that fills a batch in the slot, and no
other, makes its caller rotate it.
-/

namespace BatchingCache.System

variable {σ : Type} {s s' : System σ} {caller id i : Nat} {old new : Phase}

theorem departures_leave {ops : List PendingOp} {p : Pipeline} (cause : Cause)
    (hslot : s.pipeline.slot = some id) (hp : p.slot ≠ some id)
    (hops : s.pipeline.waiting? id = some ops) :
    (s.leave cause p).departures = s.departures ++ [⟨id, ops.length, cause⟩] := by
  show (if p.slot = s.pipeline.slot then _ else _) = _
  rw [hslot, if_neg hp, Option.toList_some, List.map_singleton, hops]
  rfl

/-- Every batch that there has been left the slot once, except the one that is in it. -/
structure Rotated (s : System σ) : Prop where
  order : s.departures.map Departure.batch ++ s.pipeline.slot.toList =
    List.range' 1 (s.pipeline.nextId - 1)
  shutdowns : s.departures.countP (fun d => d.cause = .shutdown) =
    if s.pipeline.slot = none then 1 else 0
  size : ∀ d ∈ s.departures, d.size ≤ (s.pushedInto d.batch).length
  full : ∀ d ∈ s.departures, d.cause = .full → s.pipeline.batchSize ≤ d.size

theorem rotated_of_same (h : s.Rotated) (hslot : s'.pipeline.slot = s.pipeline.slot)
    (hnext : s'.pipeline.nextId = s.pipeline.nextId)
    (hsize : s'.pipeline.batchSize = s.pipeline.batchSize)
    (hdepartures : s'.departures = s.departures)
    (hinto : ∀ i, (s.pushedInto i).length ≤ (s'.pushedInto i).length) : s'.Rotated := by
  constructor
  · rw [hdepartures, hslot, hnext]
    exact h.order
  · rw [hdepartures, hslot]
    exact h.shutdowns
  · intro d hd
    rw [hdepartures] at hd
    exact Nat.le_trans (h.size d hd) (hinto d.batch)
  · intro d hd hcause
    rw [hdepartures] at hd
    rw [hsize]
    exact h.full d hd hcause

section Leaving

variable {ops : List PendingOp}

theorem length_of_departed {cause : Cause} (h : s.Rotated) (hpushed : s'.pushed = s.pushed)
    (hops : ops = s.pushedInto id)
    (hdepartures : s'.departures = s.departures ++ [⟨id, ops.length, cause⟩]) :
    ∀ d ∈ s'.departures, d.size ≤ (s'.pushedInto d.batch).length := by
  intro d hd
  rw [pushedInto_eq hpushed]
  rw [hdepartures] at hd
  rcases List.mem_append.1 hd with hd | hd
  · exact h.size d hd
  · cases List.mem_singleton.1 hd
    exact Nat.le_of_eq (congrArg List.length hops)

theorem full_of_departed {cause : Cause} (h : s.Rotated)
    (hsize : s'.pipeline.batchSize = s.pipeline.batchSize)
    (hfull : cause = .full → s.pipeline.batchSize ≤ ops.length)
    (hdepartures : s'.departures = s.departures ++ [⟨id, ops.length, cause⟩]) :
    ∀ d ∈ s'.departures, d.cause = .full → s'.pipeline.batchSize ≤ d.size := by
  intro d hd hcause
  rw [hsize]
  rw [hdepartures] at hd
  rcases List.mem_append.1 hd with hd | hd
  · exact h.full d hd hcause
  · rw [List.mem_singleton.1 hd] at hcause ⊢
    exact hfull hcause

theorem rotated_of_install (cause : Cause) (h : s.Rotated) (hslot : s.pipeline.slot = some id)
    (hpositive : 0 < s.pipeline.nextId) (hs' : s'.pipeline.slot = some s.pipeline.nextId)
    (hnext : s'.pipeline.nextId = s.pipeline.nextId + 1)
    (hsize : s'.pipeline.batchSize = s.pipeline.batchSize) (hpushed : s'.pushed = s.pushed)
    (hops : ops = s.pushedInto id)
    (hfull : cause = .full → s.pipeline.batchSize ≤ ops.length) (hcause : cause ≠ .shutdown)
    (hdepartures : s'.departures = s.departures ++ [⟨id, ops.length, cause⟩]) :
    s'.Rotated := by
  have horder := h.order
  have hshutdowns := h.shutdowns
  rw [hslot] at horder hshutdowns
  refine ⟨?_, ?_, length_of_departed h hpushed hops hdepartures,
    full_of_departed h hsize hfull hdepartures⟩
  · have hlast : 1 + (s.pipeline.nextId - 1) = s.pipeline.nextId := by omega
    have hcount : s'.pipeline.nextId - 1 = s.pipeline.nextId - 1 + 1 := by omega
    rw [hdepartures, List.map_append, List.map_singleton, hs', hcount, List.range'_1_concat, hlast,
      ← horder]
    rfl
  · rw [hdepartures, List.countP_append, hshutdowns, hs']
    simp [hcause]

theorem rotated_of_takeLast (h : s.Rotated) (hslot : s.pipeline.slot = some id)
    (hs' : s'.pipeline.slot = none) (hnext : s'.pipeline.nextId = s.pipeline.nextId)
    (hsize : s'.pipeline.batchSize = s.pipeline.batchSize) (hpushed : s'.pushed = s.pushed)
    (hops : ops = s.pushedInto id)
    (hdepartures : s'.departures = s.departures ++ [⟨id, ops.length, .shutdown⟩]) :
    s'.Rotated := by
  have horder := h.order
  have hshutdowns := h.shutdowns
  rw [hslot] at horder hshutdowns
  refine ⟨?_, ?_, length_of_departed h hpushed hops hdepartures,
    full_of_departed h hsize (fun heq => by cases heq) hdepartures⟩
  · rw [hdepartures, List.map_append, List.map_singleton, hs', hnext, ← horder]
    exact List.append_nil _
  · rw [hdepartures, List.countP_append, hshutdowns, hs']
    simp

end Leaving

/-! ## The trigger -/

/-- A caller is about to rotate the batch in the slot if that is full, and just one is. -/
structure Triggered (s : System σ) : Prop where
  nonempty : 0 < s.pipeline.batchSize
  once : ∀ id, s.phases.count (.rotating id) ≤ 1
  filled : ∀ id, .rotating id ∈ s.phases →
    s.pipeline.batchSize ≤ (s.pushedInto id).length ∧ id < s.pipeline.nextId
  slot : ∀ id, s.pipeline.slot = some id →
    s.phases.count (.rotating id) =
      if s.pipeline.batchSize ≤ (s.pushedInto id).length then 1 else 0

theorem Triggered.not_rotating_nextId (h : s.Triggered) :
    s.phases.count (.rotating s.pipeline.nextId) = 0 := by
  rw [List.count_eq_zero]
  intro hmem
  have hlt := (h.filled _ hmem).2
  omega

theorem Triggered.count_eq_zero (h : s.Triggered)
    (hbelow : (s.pushedInto id).length < s.pipeline.batchSize) :
    s.phases.count (.rotating id) = 0 := by
  rw [List.count_eq_zero]
  intro hmem
  have hle := (h.filled id hmem).1
  omega

theorem triggered_of_no_more (h : s.Triggered)
    (hsize : s'.pipeline.batchSize = s.pipeline.batchSize)
    (hnext : s.pipeline.nextId ≤ s'.pipeline.nextId) (hpushed : s'.pushed = s.pushed)
    (hphases : ∀ i, s'.phases.count (.rotating i) ≤ s.phases.count (.rotating i))
    (hslot : ∀ i, s'.pipeline.slot = some i →
      s'.phases.count (.rotating i) =
        if s.pipeline.batchSize ≤ (s.pushedInto i).length then 1 else 0) : s'.Triggered := by
  constructor
  · rw [hsize]
    exact h.nonempty
  · exact fun i => Nat.le_trans (hphases i) (h.once i)
  · intro i hi
    have hpos := Nat.lt_of_lt_of_le (List.count_pos_iff.2 hi) (hphases i)
    obtain ⟨hle, hlt⟩ := h.filled i (List.count_pos_iff.1 hpos)
    rw [hsize, pushedInto_eq hpushed]
    exact ⟨hle, by omega⟩
  · intro i hi
    rw [hsize, pushedInto_eq hpushed]
    exact hslot i hi

theorem count_rotating_le (hold : s.phases[caller]? = some old) (hnew : ∀ i, new ≠ .rotating i)
    (i : Nat) : (s.phases.set caller new).count (.rotating i) ≤ s.phases.count (.rotating i) := by
  have hcount := count_set_add new (.rotating i) hold
  rw [if_neg (hnew i)] at hcount
  omega

/-- A fresh batch is in the slot, which nobody is about to rotate. -/
theorem triggered_of_install (h : s.Triggered) (hfilled : s.Filled)
    (hold : s.phases[caller]? = some old) (hphases : s'.phases = s.phases.set caller new)
    (hnew : ∀ i, new ≠ .rotating i)
    (hs' : s'.pipeline.slot = some s.pipeline.nextId)
    (hnext : s'.pipeline.nextId = s.pipeline.nextId + 1)
    (hsize : s'.pipeline.batchSize = s.pipeline.batchSize) (hpushed : s'.pushed = s.pushed) :
    s'.Triggered := by
  refine triggered_of_no_more h hsize (by omega) hpushed ?_ fun i hi => ?_
  · rw [hphases]
    exact count_rotating_le hold hnew
  · rw [hs'] at hi
    cases hi
    have hzero := h.not_rotating_nextId
    have hcount := count_set_add new (.rotating s.pipeline.nextId) hold
    have hpositive := h.nonempty
    rw [if_neg (hnew _), hzero] at hcount
    have hempty : ¬ s.pipeline.batchSize ≤ ([] : List PendingOp).length := by
      rw [List.length_nil]
      omega
    rw [hfilled.pushedInto_nextId, if_neg hempty, hphases]
    omega

theorem triggered_of_quiet (h : s.Triggered) (hold : s.phases[caller]? = some old)
    (hphases : s'.phases = s.phases.set caller new) (hnew : ∀ i, new ≠ .rotating i)
    (hother : ∀ i, old = .rotating i → s.pipeline.slot ≠ some i)
    (hslot : s'.pipeline.slot = s.pipeline.slot)
    (hnext : s'.pipeline.nextId = s.pipeline.nextId)
    (hsize : s'.pipeline.batchSize = s.pipeline.batchSize) (hpushed : s'.pushed = s.pushed) :
    s'.Triggered := by
  refine triggered_of_no_more h hsize (by omega) hpushed ?_ fun i hi => ?_
  · rw [hphases]
    exact count_rotating_le hold hnew
  · rw [hslot] at hi
    rw [hphases, count_set_of_ne hold (fun heq => hother i heq hi) (hnew i)]
    exact h.slot i hi

theorem triggered_of_push {op : PendingOp} {attempts : Nat} {ops : List PendingOp}
    (h : s.Triggered) (hold : s.phases[caller]? = some (.pushing op attempts id))
    (hops : ops = s.pushedInto id) (hid : id < s.pipeline.nextId)
    (hphases : s'.phases = s.phases.set caller
      (if ops.length + 1 = s.pipeline.batchSize then .rotating id else .idle))
    (hslot : s'.pipeline.slot = s.pipeline.slot)
    (hnext : s'.pipeline.nextId = s.pipeline.nextId)
    (hsize : s'.pipeline.batchSize = s.pipeline.batchSize)
    (hinto : ∀ i, s'.pushedInto i = s.pushedInto i ++ if id = i then [op] else []) :
    s'.Triggered := by
  have hself : (s'.pushedInto id).length = ops.length + 1 := by
    rw [hinto, if_pos rfl, List.length_append, List.length_singleton, hops]
  have hothers : ∀ i, id ≠ i → s'.pushedInto i = s.pushedInto i := fun i hi => by
    rw [hinto, if_neg hi, List.append_nil]
  have hcount : ∀ i, s'.phases.count (.rotating i) =
      s.phases.count (.rotating i) +
        if id = i ∧ ops.length + 1 = s.pipeline.batchSize then 1 else 0 := fun i => by
    rw [hphases]
    by_cases hfull : ops.length + 1 = s.pipeline.batchSize
    · have hset := count_set_add (.rotating id) (.rotating i) hold
      simp only [Phase.rotating.injEq, reduceCtorEq, if_false] at hset
      simp only [hfull, if_true, and_true]
      exact hset
    · have hset : (s.phases.set caller .idle).count (.rotating i) =
          s.phases.count (.rotating i) := count_set_of_ne hold nofun nofun
      simp only [hfull, if_false, and_false]
      exact hset
  constructor
  · rw [hsize]
    exact h.nonempty
  · intro i
    rw [hcount]
    split
    · rename_i hfull
      obtain ⟨rfl, hfull⟩ := hfull
      have hbelow : (s.pushedInto id).length < s.pipeline.batchSize := by
        rw [← hops]
        omega
      exact Nat.le_of_eq (congrArg (· + 1) (h.count_eq_zero hbelow))
    · exact h.once i
  · intro i hi
    have hpos := List.count_pos_iff.2 hi
    rw [hcount] at hpos
    rw [hsize, hnext]
    by_cases hfull : id = i ∧ ops.length + 1 = s.pipeline.batchSize
    · obtain ⟨rfl, hfull⟩ := hfull
      rw [hself]
      exact ⟨by omega, hid⟩
    · rw [if_neg hfull] at hpos
      obtain ⟨hle, hlt⟩ := h.filled i (List.count_pos_iff.1 hpos)
      refine ⟨?_, hlt⟩
      rw [hinto, List.length_append]
      omega
  · intro i hi
    rw [hslot] at hi
    have hbefore := h.slot i hi
    rw [hcount, hbefore, hsize]
    by_cases heq : id = i
    · subst heq
      rw [hself, ← hops]
      simp only [true_and]
      -- Batches only grow, so the length is the batch size after one push and after no other.
      split
      · rename_i hreached
        have hnever : ops.length + 1 ≠ s.pipeline.batchSize := by omega
        have hstill : s.pipeline.batchSize ≤ ops.length + 1 := by omega
        rw [if_neg hnever, if_pos hstill]
      · rename_i hbelow
        have hexact : ops.length + 1 = s.pipeline.batchSize ↔
            s.pipeline.batchSize ≤ ops.length + 1 := by omega
        simp only [hexact, Nat.zero_add]
    · rw [hothers i heq]
      simp only [heq, false_and, if_false, Nat.add_zero]

/-! ## Moves -/

variable [Store σ]

theorem slot_execute (id : Nat) (s : System σ) :
    (s.execute id).pipeline.slot = s.pipeline.slot := by
  rw [pipeline_execute]
  rfl

theorem nextId_execute (id : Nat) (s : System σ) :
    (s.execute id).pipeline.nextId = s.pipeline.nextId := by
  rw [pipeline_execute]
  rfl

theorem batchSize_execute (id : Nat) (s : System σ) :
    (s.execute id).pipeline.batchSize = s.pipeline.batchSize := by
  rw [pipeline_execute]
  rfl

theorem rotated_move (howned : s.Owned) (hfilled : s.Filled) (htriggered : s.Triggered)
    (h : s.Rotated) (hmove : s.Move s') : s'.Rotated := by
  have hgrows : ∀ i, (s.pushedInto i).length ≤ (s.pushedInto i).length := fun i => Nat.le_refl _
  cases hmove with
  | begin caller op attempts hold htoken => exact rotated_of_same h rfl rfl rfl rfl hgrows
  | quiet caller old new stats inFlight hold hquiet => exact rotated_of_same h rfl rfl rfl rfl hgrows
  | push caller op attempts id ops hold hops =>
    refine rotated_of_same h rfl rfl rfl rfl fun i => ?_
    show _ ≤ ((s.accept ⟨caller, id, op⟩ s.pipeline).pushedInto i).length
    rw [pushedInto_accept, List.length_append]
    exact Nat.le_add_right _ _
  | rotateFull caller id hold hslot =>
    obtain ⟨inFlight, hrotated⟩ := Pipeline.rotateFull_of_slot hslot
    obtain ⟨ops, hops⟩ := Option.isSome_iff_exists.1 (howned.waiting?_of_slot hslot).1
    have hinto := hfilled.waiting id ops hops
    have hfull := (htriggered.filled id (List.mem_of_getElem? hold)).1
    rw [hrotated]
    refine rotated_of_install .full h hslot hfilled.positive rfl rfl rfl rfl hinto ?_ nofun
      (departures_leave .full hslot ?_ hops)
    · rw [hinto]
      exact fun _ => hfull
    · rw [← hslot]
      exact Ne.symm howned.not_waiting?_nextId.2.1
  | rotate caller id hold hslot =>
    obtain ⟨ops, hops⟩ := Option.isSome_iff_exists.1 (howned.waiting?_of_slot hslot).1
    refine rotated_of_install .flush h hslot hfilled.positive rfl rfl rfl rfl
      (hfilled.waiting id ops hops) nofun nofun (departures_leave .flush hslot ?_ hops)
    rw [← hslot]
    exact Ne.symm howned.not_waiting?_nextId.2.1
  | takeLast caller id hold hslot =>
    obtain ⟨ops, hops⟩ := Option.isSome_iff_exists.1 (howned.waiting?_of_slot hslot).1
    exact rotated_of_takeLast h hslot rfl rfl rfl rfl (hfilled.waiting id ops hops)
      (departures_leave .shutdown hslot nofun hops)
  | execute caller id hold =>
    exact rotated_of_same h (slot_execute id _) (nextId_execute id _) (batchSize_execute id _) rfl
      hgrows
  | background id hmem =>
    exact rotated_of_same h (slot_execute id _) (nextId_execute id _) (batchSize_execute id _) rfl
      hgrows

theorem triggered_move (howned : s.Owned) (hfilled : s.Filled) (h : s.Triggered)
    (hmove : s.Move s') : s'.Triggered := by
  cases hmove with
  | begin caller op attempts hold htoken =>
    exact triggered_of_quiet h hold rfl nofun nofun rfl rfl rfl rfl
  | quiet caller old new stats inFlight hold hquiet =>
    exact triggered_of_quiet h hold rfl (fun i => (hquiet.rotating i).1)
      (fun i => (hquiet.rotating i).2) rfl rfl rfl rfl
  | push caller op attempts id ops hold hops =>
    exact triggered_of_push h hold (hfilled.waiting id ops hops)
      (Pipeline.lt_nextId_of_waiting? howned.wellFormed hops) rfl rfl rfl rfl
      fun i => pushedInto_accept caller op s.pipeline
  | rotateFull caller id hold hslot =>
    obtain ⟨inFlight, hrotated⟩ := Pipeline.rotateFull_of_slot hslot
    rw [hrotated]
    exact triggered_of_install h hfilled hold rfl nofun rfl rfl rfl rfl
  | rotate caller id hold hslot =>
    exact triggered_of_install h hfilled hold rfl nofun rfl rfl rfl rfl
  | takeLast caller id hold hslot =>
    refine triggered_of_no_more h rfl (Nat.le_refl _) rfl ?_ nofun
    exact count_rotating_le hold nofun
  | execute caller id hold =>
    exact triggered_of_quiet h hold rfl nofun nofun (slot_execute id _) (nextId_execute id _)
      (batchSize_execute id _) rfl
  | background id hmem =>
    have hslot := slot_execute id (s.fetch id)
    have hnext := nextId_execute id (s.fetch id)
    refine triggered_of_no_more h (batchSize_execute id _) (Nat.le_of_eq hnext.symm) rfl
      (fun i => Nat.le_refl _) fun i hi => ?_
    rw [hslot] at hi
    exact h.slot i hi

end BatchingCache.System
