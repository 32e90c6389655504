import BatchingCache.Proofs.Pipeline.Steps
import BatchingCache.Proofs.Store.Observed
/-!
# Interleavings

Any number of callers queue mutations, flush and shut down, each of them by steps that others can
come between, while the batches in the background are executed in any order.  What becomes of
mutations and batches is written down along the way.
-/

namespace BatchingCache

inductive Request where
  | enqueue (mutation : Mutation) (mutationId : Option String)
  | flush
  | shutdown

inductive Phase where
  | idle
  /-- It is about to read the slot and has this many attempts to push left. -/
  | reading (op : PendingOp) (attempts : Nat)
  /-- It is about to push into the batch that it has read. -/
  | pushing (op : PendingOp) (attempts : Nat) (id : Nat)
  /-- It has filled a batch and is about to rotate it. -/
  | rotating (id : Nat)
  /-- It is about to take the batch out of the slot, for good if `last`. -/
  | taking (last : Bool)
  /-- It is about to execute the batch that it has taken. -/
  | executing (id : Nat)
  deriving DecidableEq

inductive Action where
  | start (caller : Nat) (r : Request)
  | advance (caller : Nat)
  | background (id : Nat)

structure Pushed where
  caller : Nat
  batch : Nat
  op : PendingOp

inductive Cause where
  | full
  | flush
  | shutdown
  deriving DecidableEq

structure Departure where
  batch : Nat
  size : Nat
  cause : Cause

structure System (σ : Type) where
  pipeline : Pipeline
  store : Observed σ
  phases : List Phase
  nextToken : Token := 0
  pushed : List Pushed := []
  departures : List Departure := []
  /-- The batches that were executed, each with what it held. -/
  executed : List (Nat × List PendingOp) := []
  settled : List Settlement := []

namespace System

variable {σ : Type} [Store σ]

def setPhase (caller : Nat) (phase : Phase) (s : System σ) : System σ :=
  { s with phases := s.phases.set caller phase }

def retry (caller : Nat) (op : PendingOp) (attempts : Nat) (s : System σ) : System σ :=
  { s with pipeline := s.pipeline.countRetry }.setPhase caller (.reading op attempts)

def accept (e : Pushed) (p : Pipeline) (s : System σ) : System σ :=
  { s with pipeline := p, pushed := s.pushed ++ [e] }

/-- Puts another pipeline in place.  If its slot is another one, a batch has left the slot. -/
def leave (cause : Cause) (p : Pipeline) (s : System σ) : System σ :=
  { s with
    pipeline := p
    departures :=
      if p.slot = s.pipeline.slot then s.departures
      else s.departures ++ s.pipeline.slot.toList.map fun id =>
        { batch := id, size := ((s.pipeline.waiting? id).getD []).length, cause } }

def execute (id : Nat) (s : System σ) : System σ :=
  { s with
    pipeline := (s.pipeline.executeBatch id s.store).1
    store := (s.pipeline.executeBatch id s.store).2.store
    executed := s.executed ++ [(id, (s.pipeline.waiting? id).getD [])]
    settled := s.settled ++ (s.pipeline.executeBatch id s.store).2.settled }

def fetch (id : Nat) (s : System σ) : System σ :=
  { s with pipeline := { s.pipeline with background := s.pipeline.background.erase id } }

def begin (caller : Nat) (r : Request) (s : System σ) : System σ :=
  match r with
  | .enqueue mutation mutationId =>
    { s with nextToken := s.nextToken + 1 }.setPhase caller
      (.reading ⟨mutation, mutationId, s.nextToken⟩ s.pipeline.maxAttempts)
  | .flush => s.setPhase caller (.taking false)
  | .shutdown => s.setPhase caller (.taking true)

def proceed (caller : Nat) (s : System σ) : Phase → System σ
  | .idle => s
  | .reading _ 0 => s.setPhase caller .idle
  | .reading op (attempts + 1) =>
    match s.pipeline.slot with
    | none => s.retry caller op attempts
    | some id => s.setPhase caller (.pushing op attempts id)
  | .pushing op attempts id =>
    match s.pipeline.push id op with
    | .ok (length, p) =>
      (s.accept ⟨caller, id, op⟩ p.countEnqueued).setPhase caller
        (if length = p.batchSize then .rotating id else .idle)
    | .error _ => s.retry caller op attempts
  | .rotating id => (s.leave .full (s.pipeline.rotateFull id).1).setPhase caller .idle
  | .taking false =>
    (s.leave .flush { s.pipeline.rotate.2.1 with inFlight := [] }).setPhase caller
      (s.pipeline.rotate.1.elim .idle .executing)
  | .taking true =>
    (s.leave .shutdown { s.pipeline.takeLast.2 with inFlight := [] }).setPhase caller
      (s.pipeline.takeLast.1.elim .idle .executing)
  | .executing id =>
    ({ s with pipeline := s.pipeline.countFlushed }.execute id).setPhase caller .idle

def step (s : System σ) : Action → System σ
  | .start caller r => if s.phases[caller]? = some .idle then s.begin caller r else s
  | .advance caller => (s.phases[caller]?).elim s (s.proceed caller)
  | .background id => if id ∈ s.pipeline.background then (s.fetch id).execute id else s

def run (s : System σ) (actions : List Action) : System σ := actions.foldl step s

def ofPipeline (p : Pipeline) (store : σ) (callers : Nat) : System σ :=
  { pipeline := p, store := { store }, phases := List.replicate callers .idle }

/-! ## Moves -/

end System

def Phase.token? : Phase → Option Token
  | reading op _ => some op.token
  | pushing op _ _ => some op.token
  | _ => none

/-- A step of a caller from one phase to another that touches no batch. -/
structure Phase.Quiet (p : Pipeline) (old new : Phase) : Prop where
  executing : ∀ id, old ≠ .executing id ∧ new ≠ .executing id
  rotating : ∀ id, new ≠ .rotating id ∧ (old = .rotating id → p.slot ≠ some id)
  token : ∀ t, new.token? = some t → old.token? = some t

/-- A caller that has not pushed its mutation yet goes on with it or gives it up. -/
theorem Phase.quiet_of_token {p : Pipeline} {old new : Phase} {t : Token}
    (hold : old.token? = some t) (hnew : new.token? = some t ∨ new = .idle) :
    old.Quiet p new := by
  have hbusy : ∀ phase : Phase, phase.token? = some t ∨ phase = .idle →
      (∀ id, phase ≠ .executing id) ∧ ∀ id, phase ≠ .rotating id := by
    rintro phase (h | rfl)
    · constructor
      · rintro id rfl
        cases h
      · rintro id rfl
        cases h
    · exact ⟨nofun, nofun⟩
  refine ⟨fun id => ⟨(hbusy old (.inl hold)).1 id, (hbusy new hnew).1 id⟩,
    fun id => ⟨(hbusy new hnew).2 id, fun h => absurd h ((hbusy old (.inl hold)).2 id)⟩, ?_⟩
  intro t' ht'
  rcases hnew with h | rfl
  · rw [← ht', h, hold]
  · cases ht'

namespace System

variable {σ : Type} [Store σ] {s : System σ}

inductive Move (s : System σ) : System σ → Prop where
  | begin (caller : Nat) (op : PendingOp) (attempts : Nat)
      (hold : s.phases[caller]? = some .idle) (htoken : op.token = s.nextToken) :
      Move s ({ s with nextToken := s.nextToken + 1 }.setPhase caller (.reading op attempts))
  | quiet (caller : Nat) (old new : Phase) (stats : PipelineStats) (inFlight : List Nat)
      (hold : s.phases[caller]? = some old) (hquiet : old.Quiet s.pipeline new) :
      Move s ({ s with pipeline := { s.pipeline with stats, inFlight } }.setPhase caller new)
  | push (caller : Nat) (op : PendingOp) (attempts id : Nat) (ops : List PendingOp)
      (hold : s.phases[caller]? = some (.pushing op attempts id))
      (hops : s.pipeline.waiting? id = some ops) :
      Move s ((s.accept ⟨caller, id, op⟩
        (s.pipeline.replace ⟨id, .accumulating (ops ++ [op])⟩).countEnqueued).setPhase caller
          (if ops.length + 1 = s.pipeline.batchSize then .rotating id else .idle))
  | rotateFull (caller id : Nat) (hold : s.phases[caller]? = some (.rotating id))
      (hslot : s.pipeline.slot = some id) :
      Move s ((s.leave .full (s.pipeline.rotateFull id).1).setPhase caller .idle)
  | rotate (caller id : Nat) (hold : s.phases[caller]? = some (.taking false))
      (hslot : s.pipeline.slot = some id) :
      Move s ((s.leave .flush { s.pipeline.install with inFlight := [] }).setPhase caller
        (.executing id))
  | takeLast (caller id : Nat) (hold : s.phases[caller]? = some (.taking true))
      (hslot : s.pipeline.slot = some id) :
      Move s ((s.leave .shutdown { s.pipeline with slot := none, inFlight := [] }).setPhase caller
        (.executing id))
  | execute (caller id : Nat) (hold : s.phases[caller]? = some (.executing id)) :
      Move s (({ s with pipeline := s.pipeline.countFlushed }.execute id).setPhase caller .idle)
  | background (id : Nat) (hmem : id ∈ s.pipeline.background) :
      Move s ((s.fetch id).execute id)

theorem move_begin {caller : Nat} (hold : s.phases[caller]? = some .idle) (r : Request) :
    s.Move (s.begin caller r) := by
  cases r with
  | enqueue mutation mutationId => exact .begin caller _ _ hold rfl
  | flush =>
    refine .quiet caller .idle (.taking false) s.pipeline.stats s.pipeline.inFlight hold ⟨?_, ?_, nofun⟩
    · exact fun id => ⟨nofun, nofun⟩
    · exact fun id => ⟨nofun, nofun⟩
  | shutdown =>
    refine .quiet caller .idle (.taking true) s.pipeline.stats s.pipeline.inFlight hold ⟨?_, ?_, nofun⟩
    · exact fun id => ⟨nofun, nofun⟩
    · exact fun id => ⟨nofun, nofun⟩

theorem move_proceed (h : s.pipeline.WellFormed) {caller : Nat} {phase : Phase}
    (hold : s.phases[caller]? = some phase) :
    s.proceed caller phase = s ∨ s.Move (s.proceed caller phase) := by
  cases phase with
  | idle => exact .inl rfl
  | reading op attempts =>
    right
    cases attempts with
    | zero =>
      exact .quiet caller _ .idle s.pipeline.stats s.pipeline.inFlight hold (Phase.quiet_of_token rfl (.inr rfl))
    | succ attempts =>
      rw [proceed]
      split
      · exact .quiet caller _ (.reading op attempts) _ s.pipeline.inFlight hold (Phase.quiet_of_token rfl (.inl rfl))
      · rename_i id hslot
        exact .quiet caller _ (.pushing op attempts id) s.pipeline.stats s.pipeline.inFlight hold
          (Phase.quiet_of_token rfl (.inl rfl))
  | pushing op attempts id =>
    right
    rw [proceed]
    cases hops : s.pipeline.waiting? id with
    | none =>
      rw [Pipeline.push_of_executed hops]
      exact .quiet caller _ (.reading op attempts) _ s.pipeline.inFlight hold (Phase.quiet_of_token rfl (.inl rfl))
    | some ops =>
      rw [Pipeline.push_of_waiting? h hops]
      exact .push caller op attempts id ops hold hops
  | rotating id =>
    right
    by_cases hslot : s.pipeline.slot = some id
    · exact .rotateFull caller id hold hslot
    · have hstays : s.leave .full (s.pipeline.rotateFull id).1 = s := by
        rw [Pipeline.rotateFull_of_not_slot hslot, leave, if_pos rfl]
      rw [proceed, hstays]
      refine .quiet caller _ .idle s.pipeline.stats s.pipeline.inFlight hold ⟨?_, ?_, nofun⟩
      · exact fun id => ⟨nofun, nofun⟩
      · intro id'
        refine ⟨nofun, fun heq => ?_⟩
        cases heq
        exact hslot
  | taking last =>
    right
    have hquiet : (Phase.taking last).Quiet s.pipeline .idle :=
      ⟨fun id => ⟨nofun, nofun⟩, fun id => ⟨nofun, nofun⟩, nofun⟩
    cases hslot : s.pipeline.slot with
    | none =>
      have hnothing : s.proceed caller (.taking last) =
          { s with pipeline := { s.pipeline with inFlight := [] } }.setPhase caller .idle := by
        cases last with
        | false =>
          rw [proceed, Pipeline.rotate, hslot]
          show (s.leave .flush { s.pipeline with inFlight := [] }).setPhase caller .idle = _
          rw [leave, if_pos rfl]
        | true =>
          have hsame : { s.pipeline with slot := none, inFlight := [] } =
              { s.pipeline with inFlight := [] } := by rw [← hslot]
          rw [proceed, Pipeline.takeLast, hslot]
          show (s.leave .shutdown { s.pipeline with slot := none, inFlight := [] }).setPhase caller
            .idle = _
          rw [hsame, leave, if_pos rfl]
      rw [hnothing]
      exact .quiet caller _ .idle s.pipeline.stats [] hold hquiet
    | some id =>
      cases last with
      | false =>
        have hrotate : s.pipeline.rotate = (some id, s.pipeline.install, [.rotation]) := by
          rw [Pipeline.rotate, hslot]
        rw [proceed, hrotate]
        exact .rotate caller id hold hslot
      | true =>
        rw [proceed, Pipeline.takeLast, hslot]
        exact .takeLast caller id hold hslot
  | executing id =>
    right
    exact .execute caller id hold

theorem move_step (h : s.pipeline.WellFormed) (a : Action) :
    s.step a = s ∨ s.Move (s.step a) := by
  cases a with
  | start caller r =>
    rw [step]
    split
    · rename_i hold
      exact .inr (move_begin hold r)
    · exact .inl rfl
  | advance caller =>
    rw [step]
    cases hold : s.phases[caller]? with
    | none => exact .inl rfl
    | some phase => exact move_proceed h hold
  | background id =>
    rw [step]
    split
    · rename_i hmem
      exact .inr (.background id hmem)
    · exact .inl rfl

end System

end BatchingCache
