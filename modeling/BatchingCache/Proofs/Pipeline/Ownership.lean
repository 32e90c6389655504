import BatchingCache.Proofs.Pipeline.Interleaving
/-!
# Ownership of batches

A batch that has not been executed has one owner: it is in the slot, or it waits in the background,
or one caller is about to execute it.
-/

namespace BatchingCache.System

variable {σ : Type} {s s' : System σ} {caller id i : Nat} {old : Phase}

@[simp] theorem pipeline_setPhase (phase : Phase) :
    (s.setPhase caller phase).pipeline = s.pipeline := rfl

/-! ## Counting phases -/

section Counting

variable {phases : List Phase}

theorem countP_set_add (p : Phase → Bool) (new : Phase) (hold : phases[caller]? = some old) :
    (phases.set caller new).countP p + (if p old then 1 else 0) =
      phases.countP p + if p new then 1 else 0 := by
  obtain ⟨hlt, hget⟩ := List.getElem?_eq_some_iff.1 hold
  have hset := List.countP_set (p := p) (a := new) hlt
  have hle := List.boole_getElem_le_countP (p := p) hlt
  rw [hget] at hset hle
  omega

theorem count_set_add (new phase : Phase) (hold : phases[caller]? = some old) :
    (phases.set caller new).count phase + (if old = phase then 1 else 0) =
      phases.count phase + if new = phase then 1 else 0 := by
  have h := countP_set_add (· == phase) new hold
  rw [List.count_eq_countP, List.count_eq_countP]
  simpa only [beq_iff_eq] using h

theorem count_set_of_ne {new phase : Phase} (hold : phases[caller]? = some old)
    (ho : old ≠ phase) (hn : new ≠ phase) :
    (phases.set caller new).count phase = phases.count phase := by
  have h := count_set_add new phase hold
  rwa [if_neg ho, if_neg hn] at h

end Counting

/-! ## Owners -/

def executors (s : System σ) (id : Nat) : Nat :=
  s.pipeline.background.count id + s.phases.count (.executing id)

theorem executors_eq (hbackground : s'.pipeline.background = s.pipeline.background)
    (hphases : s'.phases.count (.executing i) = s.phases.count (.executing i)) :
    s'.executors i = s.executors i := by
  rw [executors, hbackground, hphases, executors]

/-- Batches that have not been executed have one owner, and the others have none. -/
structure Owned (s : System σ) : Prop where
  wellFormed : s.pipeline.WellFormed
  owners : ∀ id, (if s.pipeline.slot = some id then 1 else 0) + s.executors id =
    if (s.pipeline.waiting? id).isSome then 1 else 0

theorem Owned.waiting?_of_slot (h : s.Owned) (hslot : s.pipeline.slot = some id) :
    (s.pipeline.waiting? id).isSome ∧ s.executors id = 0 := by
  have howners := h.owners id
  rw [if_pos hslot] at howners
  split at howners
  · rename_i hsome
    exact ⟨hsome, by omega⟩
  · omega

theorem Owned.waiting?_of_executors (h : s.Owned) (hpos : 0 < s.executors id) :
    (s.pipeline.waiting? id).isSome ∧ s.pipeline.slot ≠ some id ∧ s.executors id = 1 := by
  have howners := h.owners id
  split at howners
  · split at howners
    · omega
    · omega
  · rename_i hslot
    split at howners
    · rename_i hsome
      exact ⟨hsome, hslot, by omega⟩
    · omega

theorem Owned.not_waiting?_nextId (h : s.Owned) :
    s.pipeline.waiting? s.pipeline.nextId = none ∧ s.pipeline.slot ≠ some s.pipeline.nextId ∧
      s.executors s.pipeline.nextId = 0 := by
  have hnone := Pipeline.waiting?_eq_none_of_le h.wellFormed (Nat.le_refl s.pipeline.nextId)
  have howners := h.owners s.pipeline.nextId
  rw [hnone, Option.isSome_none, if_neg Bool.false_ne_true] at howners
  split at howners
  · omega
  · rename_i hslot
    exact ⟨hnone, hslot, by omega⟩

theorem executors_pos_of_phase (hold : s.phases[caller]? = some (.executing id)) :
    0 < s.executors id := by
  have hmem := List.mem_of_getElem? hold
  have hcount := List.count_pos_iff.2 hmem
  unfold executors
  omega

theorem executors_pos_of_background (hmem : id ∈ s.pipeline.background) :
    0 < s.executors id := by
  have hcount := List.count_pos_iff.2 hmem
  unfold executors
  omega

theorem owned_of_same (h : s.Owned) (hslot : s'.pipeline.slot = s.pipeline.slot)
    (hwaiting : ∀ i, (s'.pipeline.waiting? i).isSome = (s.pipeline.waiting? i).isSome)
    (hwell : s'.pipeline.WellFormed) (hexecutors : ∀ i, s'.executors i = s.executors i) :
    s'.Owned := by
  refine ⟨hwell, fun i => ?_⟩
  rw [hslot, hwaiting, hexecutors]
  exact h.owners i

/-- A batch that leaves the slot for good passes to somebody who executes it. -/
theorem owned_of_takeLast (h : s.Owned) (hslot : s.pipeline.slot = some id)
    (hs' : s'.pipeline.slot = none) (hwaiting : ∀ i, s'.pipeline.waiting? i = s.pipeline.waiting? i)
    (hwell : s'.pipeline.WellFormed)
    (hexecutors : ∀ i, s'.executors i = s.executors i + if id = i then 1 else 0) : s'.Owned := by
  refine ⟨hwell, fun i => ?_⟩
  have howners := h.owners i
  simp only [hslot, Option.some.injEq] at howners
  rw [hs', if_neg nofun, hwaiting, hexecutors]
  omega

/-- A batch that leaves the slot for a fresh one passes to somebody who executes it. -/
theorem owned_of_install (h : s.Owned) (hslot : s.pipeline.slot = some id)
    (hs' : s'.pipeline.slot = some s.pipeline.nextId)
    (hwaiting : ∀ i, s'.pipeline.waiting? i = s.pipeline.install.waiting? i)
    (hwell : s'.pipeline.WellFormed)
    (hexecutors : ∀ i, s'.executors i = s.executors i + if id = i then 1 else 0) : s'.Owned := by
  refine ⟨hwell, fun i => ?_⟩
  have howners := h.owners i
  obtain ⟨-, hne, hzero⟩ := h.not_waiting?_nextId
  simp only [hslot, Option.some.injEq, ne_eq] at howners hne
  rw [hwaiting, Pipeline.waiting?_install h.wellFormed, hexecutors]
  simp only [hs', Option.some.injEq]
  by_cases hi : i = s.pipeline.nextId
  · rw [if_pos hi, if_pos hi.symm, hi, if_neg hne, hzero, Option.isSome_some, if_pos rfl]
  · rw [if_neg hi, if_neg (Ne.symm hi)]
    omega

theorem owned_of_execute {p : Pipeline} (h : s.Owned) (hpos : 0 < s.executors id)
    (hs' : s'.pipeline = p.without id) (hslot : p.slot = s.pipeline.slot)
    (hbatches : p.batches = s.pipeline.batches) (hnext : p.nextId = s.pipeline.nextId)
    (hexecutors : ∀ i, s'.executors i + (if id = i then 1 else 0) = s.executors i) :
    s'.Owned := by
  have hwell : p.WellFormed := by
    constructor
    · rw [hbatches]
      exact h.wellFormed.accumulating
    · rw [hbatches, hnext]
      exact h.wellFormed.numbered
  have hwaiting : ∀ i, p.waiting? i = s.pipeline.waiting? i := fun i => by
    rw [Pipeline.waiting?, Pipeline.batch?, hbatches]
    rfl
  refine ⟨hs' ▸ Pipeline.wellFormed_without hwell, fun i => ?_⟩
  have howners := h.owners i
  have hcount := hexecutors i
  have hs'slot : s'.pipeline.slot = s.pipeline.slot := by rw [hs', ← hslot]; rfl
  rw [hs'slot, hs', Pipeline.waiting?_without, hwaiting]
  by_cases hi : i = id
  · obtain ⟨-, hne, hone⟩ := h.waiting?_of_executors hpos
    rw [hi, if_pos rfl] at hcount
    rw [hi, if_neg hne, if_pos rfl, Option.isSome_none, if_neg Bool.false_ne_true]
    omega
  · rw [if_neg (Ne.symm hi)] at hcount
    rw [if_neg hi]
    omega

theorem executors_of_taken {last : Bool} (hold : s.phases[caller]? = some (.taking last))
    (hbackground : s'.pipeline.background = s.pipeline.background)
    (hphases : s'.phases = s.phases.set caller (.executing id)) :
    s'.executors i = s.executors i + if id = i then 1 else 0 := by
  have hcount := count_set_add (.executing id) (.executing i) hold
  simp only [Phase.executing.injEq, reduceCtorEq, if_false] at hcount
  rw [executors, hbackground, hphases, executors, Nat.add_assoc]
  exact congrArg (_ + ·) hcount

theorem executors_of_executed (hold : s.phases[caller]? = some (.executing id))
    (hbackground : s'.pipeline.background = s.pipeline.background)
    (hphases : s'.phases = s.phases.set caller .idle) :
    s'.executors i + (if id = i then 1 else 0) = s.executors i := by
  have hcount := count_set_add .idle (.executing i) hold
  simp only [Phase.executing.injEq, reduceCtorEq, if_false] at hcount
  rw [executors, hbackground, hphases, executors, Nat.add_assoc]
  exact congrArg (_ + ·) hcount

theorem executors_of_erased (hmem : id ∈ s.pipeline.background)
    (hbackground : s'.pipeline.background = s.pipeline.background.erase id)
    (hphases : s'.phases = s.phases) :
    s'.executors i + (if id = i then 1 else 0) = s.executors i := by
  rw [executors, hbackground, hphases, executors, List.count_erase]
  by_cases hi : id = i
  · have hpos := List.count_pos_iff.2 hmem
    rw [hi] at hpos
    rw [if_pos hi, if_pos (beq_iff_eq.2 hi)]
    omega
  · rw [if_neg hi, if_neg (by simpa using hi)]
    rfl

variable [Store σ]

theorem pipeline_execute (id : Nat) (s : System σ) :
    (s.execute id).pipeline = s.pipeline.without id :=
  congrArg Prod.fst (Pipeline.executeBatch_eq s.store)

theorem owned_move (h : s.Owned) (hmove : s.Move s') : s'.Owned := by
  have hwell := h.wellFormed
  cases hmove with
  | begin caller op attempts hold htoken =>
    refine owned_of_same h rfl (fun i => rfl) hwell fun i => executors_eq rfl ?_
    exact count_set_of_ne hold nofun nofun
  | quiet caller old new stats inFlight hold hquiet =>
    refine owned_of_same h rfl (fun i => rfl) ⟨hwell.accumulating, hwell.numbered⟩
      fun i => executors_eq rfl ?_
    exact count_set_of_ne hold (hquiet.executing i).1 (hquiet.executing i).2
  | push caller op attempts id ops hold hops =>
    have hid := Pipeline.lt_nextId_of_waiting? hwell hops
    have hreplaced := Pipeline.wellFormed_replace (b := ⟨id, .accumulating (ops ++ [op])⟩) hwell rfl
      hid
    refine owned_of_same h rfl (fun i => ?_) ⟨hreplaced.accumulating, hreplaced.numbered⟩
      fun i => executors_eq rfl ?_
    · show ((s.pipeline.replace ⟨id, .accumulating (ops ++ [op])⟩).waiting? i).isSome = _
      rw [Pipeline.waiting?_replace (by rw [hops]; rfl)]
      split
      · rename_i hi
        rw [hi, hops]
        rfl
      · rfl
    · refine count_set_of_ne hold nofun ?_
      split
      · nofun
      · nofun
  | rotateFull caller id hold hslot =>
    obtain ⟨inFlight, hrotated⟩ := Pipeline.rotateFull_of_slot hslot
    have hinstalled := Pipeline.wellFormed_install hwell
    rw [hrotated]
    refine owned_of_install h hslot rfl (fun i => rfl)
      ⟨hinstalled.accumulating, hinstalled.numbered⟩ fun i => ?_
    have hcount : (s.phases.set caller .idle).count (.executing i) =
        s.phases.count (.executing i) := count_set_of_ne hold nofun nofun
    show (s.pipeline.background ++ [id]).count i + (s.phases.set caller .idle).count _ = _
    rw [hcount, List.count_append, List.count_singleton]
    simp only [executors, beq_iff_eq]
    omega
  | rotate caller id hold hslot =>
    have hinstalled := Pipeline.wellFormed_install hwell
    exact owned_of_install h hslot rfl (fun i => rfl)
      ⟨hinstalled.accumulating, hinstalled.numbered⟩ fun i => executors_of_taken hold rfl rfl
  | takeLast caller id hold hslot =>
    exact owned_of_takeLast h hslot rfl (fun i => rfl) ⟨hwell.accumulating, hwell.numbered⟩
      fun i => executors_of_taken hold rfl rfl
  | execute caller id hold =>
    have hpipeline := pipeline_execute id { s with pipeline := s.pipeline.countFlushed }
    have hbackground := congrArg Pipeline.background hpipeline
    exact owned_of_execute h (executors_pos_of_phase hold) hpipeline rfl rfl rfl
      fun i => executors_of_executed hold hbackground rfl
  | background id hmem =>
    have hpipeline := pipeline_execute id (s.fetch id)
    have hbackground := congrArg Pipeline.background hpipeline
    exact owned_of_execute h (executors_pos_of_background hmem) hpipeline rfl rfl rfl
      fun i => executors_of_erased hmem hbackground rfl

end BatchingCache.System
