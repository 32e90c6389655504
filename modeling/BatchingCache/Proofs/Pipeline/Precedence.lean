import BatchingCache.Proofs.Pipeline.Accounting
import Mathlib.Data.List.Flatten
/-!
# The order of each caller

A caller can hold a batch that others have taken out of the slot since it read it, and it reads the slot
again when that batch refuses its mutation.  It never goes back to an older batch all the same: batches
come into the slot in the order of their numbers, and nobody has pushed into a batch that comes later.
-/

namespace BatchingCache

def Phase.op? : Phase → Option PendingOp
  | reading op _ => some op
  | pushing op _ _ => some op
  | _ => none

namespace System

variable {σ : Type} {s s' : System σ} {caller size : Nat} {ops : List PendingOp}

def pushedBy (s : System σ) (caller : Nat) : List Pushed :=
  s.pushed.filter fun e => e.caller = caller

def queueing (s : System σ) (caller : Nat) : Option PendingOp :=
  (s.phases[caller]?).bind Phase.op?

def inBatchOrder (s : System σ) : List PendingOp :=
  (List.range' 1 (s.pipeline.nextId - 1)).flatMap s.held

/-! ## Lists by batches -/

section Batches

variable {es : List Pushed} {ids : List Nat} {id : Nat}

theorem flatMap_filter_ne (hid : ∀ i ∈ ids, i ≠ id) :
    (ids.flatMap fun i => (es.filter fun e => e.batch ≠ id).filter fun e => e.batch = i) =
      ids.flatMap fun i => es.filter fun e => e.batch = i := by
  apply List.flatMap_congr
  intro i hi
  have hne := hid i hi
  rw [List.filter_filter]
  apply List.filter_congr
  intro e _
  by_cases he : e.batch = i
  · simp [he, hne]
  · simp [he]

theorem forall_mem_filter_ne (hmem : ∀ e ∈ es, e.batch ∈ id :: ids) :
    ∀ e ∈ es.filter fun e => e.batch ≠ id, e.batch ∈ ids := by
  intro e he
  obtain ⟨he, hne⟩ := List.mem_filter.1 he
  exact (List.mem_cons.1 (hmem e he)).resolve_left (of_decide_eq_true hne)

theorem flatMap_filter_perm (hids : ids.Nodup) (hmem : ∀ e ∈ es, e.batch ∈ ids) :
    (ids.flatMap fun id => es.filter fun e => e.batch = id).Perm es := by
  induction ids generalizing es with
  | nil =>
    cases es with
    | nil => exact .refl _
    | cons e es => cases hmem e List.mem_cons_self
  | cons id ids ih =>
    obtain ⟨hid, hids⟩ := List.nodup_cons.1 hids
    have hrest := ih hids (forall_mem_filter_ne hmem)
    rw [flatMap_filter_ne fun i hi => ne_of_mem_of_not_mem hi hid] at hrest
    have hsplit := List.filter_append_perm (fun e : Pushed => e.batch = id) es
    simp only [← decide_not] at hsplit
    exact (hrest.append_left _).trans hsplit

/-- In a list in the order of batches the first batch comes first. -/
theorem filter_append_filter (hsorted : es.Pairwise fun e e' => e.batch ≤ e'.batch)
    (hmin : ∀ e ∈ es, id ≤ e.batch) :
    (es.filter fun e => e.batch = id) ++ (es.filter fun e => e.batch ≠ id) = es := by
  induction es with
  | nil => rfl
  | cons e es ih =>
    obtain ⟨hfirst, hrest⟩ := List.pairwise_cons.1 hsorted
    obtain ⟨he, hes⟩ := List.forall_mem_cons.1 hmin
    by_cases hid : e.batch = id
    · have hih := ih hrest hes
      simp only [List.filter_cons, hid, ne_eq, not_true_eq_false, decide_true, decide_false, if_true,
        List.cons_append]
      exact congrArg (e :: ·) hih
    · have hlater : ∀ e' ∈ e :: es, e'.batch ≠ id := by
        intro e' he'
        rcases List.mem_cons.1 he' with rfl | he'
        · exact hid
        · have hle := hfirst e' he'
          omega
      have hnone : (e :: es).filter (fun e => e.batch = id) = [] := by simpa using hlater
      have hall : (e :: es).filter (fun e => e.batch ≠ id) = e :: es := by simpa using hlater
      rw [hnone, hall, List.nil_append]

/-- A list in the order of batches is its batches one after the other. -/
theorem flatMap_filter_eq (hids : ids.Pairwise (· < ·))
    (hsorted : es.Pairwise fun e e' => e.batch ≤ e'.batch) (hmem : ∀ e ∈ es, e.batch ∈ ids) :
    (ids.flatMap fun id => es.filter fun e => e.batch = id) = es := by
  induction ids generalizing es with
  | nil =>
    cases es with
    | nil => rfl
    | cons e es => cases hmem e List.mem_cons_self
  | cons id ids ih =>
    obtain ⟨hlater, hids⟩ := List.pairwise_cons.1 hids
    have hmin : ∀ e ∈ es, id ≤ e.batch := by
      intro e he
      rcases List.mem_cons.1 (hmem e he) with heq | hin
      · exact Nat.le_of_eq heq.symm
      · exact Nat.le_of_lt (hlater _ hin)
    have hrest := ih hids (hsorted.filter fun e => e.batch ≠ id) (forall_mem_filter_ne hmem)
    rw [flatMap_filter_ne fun i hi => Nat.ne_of_gt (hlater i hi)] at hrest
    rw [List.flatMap_cons, hrest, filter_append_filter hsorted hmin]

end Batches

/-! ## What batches hold of a caller -/

theorem pushedBy_append {e : Pushed} (hpushed : s'.pushed = s.pushed ++ [e]) :
    s'.pushedBy caller = s.pushedBy caller ++ if e.caller = caller then [e] else [] := by
  rw [pushedBy, hpushed, List.filter_append, pushedBy]
  congr 1
  by_cases he : e.caller = caller
  · simp [he]
  · simp [he]

theorem mem_range_of_pushed (h : s.Filled) {e : Pushed} (he : e ∈ s.pushed) :
    e.batch ∈ List.range' 1 (s.pipeline.nextId - 1) := by
  have hrange := h.range e he
  rw [List.mem_range'_1]
  omega

theorem inBatchOrder_eq (h : s.Filled) :
    s.inBatchOrder =
      ((List.range' 1 (s.pipeline.nextId - 1)).flatMap fun id =>
        s.pushed.filter fun e => e.batch = id).map Pushed.op := by
  rw [inBatchOrder, List.map_flatMap]
  exact List.flatMap_congr fun id _ => held_eq h id

theorem inBatchOrder_perm (h : s.Filled) : s.inBatchOrder.Perm (s.pushed.map Pushed.op) := by
  rw [inBatchOrder_eq h]
  exact (flatMap_filter_perm List.nodup_range' fun e he => mem_range_of_pushed h he).map _

/-- In a batch the mutations of a caller stand in the order in which it has pushed them. -/
theorem pushedBy_sublist_pushedInto (s : System σ) (caller id : Nat) :
    (((s.pushedBy caller).filter fun e => e.batch = id).map Pushed.op).Sublist (s.pushedInto id) :=
  (List.filter_sublist.filter _).map _

theorem pushedBy_sublist_inBatchOrder (h : s.Filled)
    (hbatches : (s.pushedBy caller).Pairwise fun e e' => e.batch ≤ e'.batch) :
    ((s.pushedBy caller).map Pushed.op).Sublist s.inBatchOrder := by
  have hascending : (List.range' 1 (s.pipeline.nextId - 1)).Pairwise (· < ·) := List.pairwise_lt_range'
  have hcut := flatMap_filter_eq hascending hbatches fun e he =>
    mem_range_of_pushed h (List.mem_of_mem_filter he)
  rw [inBatchOrder_eq h, ← hcut]
  apply List.Sublist.map
  apply List.Sublist.flatMap_right
  intro id _
  exact List.filter_sublist.filter _

/-! ## Turns -/

theorem Sound.batch_le_slot (h : s.Sound size) {id : Nat} (hslot : s.pipeline.slot = some id) :
    ∀ e ∈ s.pushed, e.batch ≤ id := by
  intro e he
  have horder := h.rotated.order
  have hrange := h.filled.range e he
  have hlast : s.pipeline.nextId - 1 = s.pipeline.nextId - 2 + 1 := by omega
  rw [hslot, hlast, List.range'_1_concat, Option.toList_some] at horder
  have hid := List.append_inj_right' horder rfl
  cases hid
  omega

/-- What the step of a caller means for it: it goes on with its mutation or leaves it, or it pushes it. -/
inductive Turn (s : System σ) (caller : Nat) (old : Phase) (s' : System σ) : Prop
  | goesOn (new : Phase) (hphases : s'.phases = s.phases.set caller new)
      (hpushed : s'.pushed = s.pushed) (hop : new.op? = none ∨ new.op? = old.op?)
      (hread : ∀ op attempts id, new = .pushing op attempts id → s.pipeline.slot = some id)
  | pushes (op : PendingOp) (attempts id : Nat) (new : Phase)
      (hold : old = .pushing op attempts id) (hphases : s'.phases = s.phases.set caller new)
      (hpushed : s'.pushed = s.pushed ++ [⟨caller, id, op⟩]) (hnew : new.op? = none)

namespace Turn

variable {s' : System σ} {old : Phase}

theorem leaves (hphases : s'.phases = s.phases.set caller .idle) (hpushed : s'.pushed = s.pushed) :
    s.Turn caller old s' := by
  refine .goesOn .idle hphases hpushed (.inl rfl) ?_
  intro _ _ _ h
  cases h

theorem readsAgain (op : PendingOp) (attempts : Nat)
    (hphases : s'.phases = s.phases.set caller (.reading op attempts))
    (hpushed : s'.pushed = s.pushed) (hop : old.op? = some op) : s.Turn caller old s' := by
  refine .goesOn (.reading op attempts) hphases hpushed (.inr hop.symm) ?_
  intro _ _ _ h
  cases h

theorem takes (taken : Option Nat)
    (hphases : s'.phases = s.phases.set caller (taken.elim .idle .executing))
    (hpushed : s'.pushed = s.pushed) : s.Turn caller old s' := by
  cases taken with
  | none => exact leaves hphases hpushed
  | some id =>
    refine .goesOn (.executing id) hphases hpushed (.inl rfl) ?_
    intro _ _ _ h
    cases h

end Turn

def begun (s : System σ) (caller : Nat) : Action → List PendingOp
  | .start c (.enqueue mutation mutationId) =>
    if c = caller ∧ s.phases[c]? = some .idle then [⟨mutation, mutationId, s.nextToken⟩] else []
  | _ => []

/-- A caller has pushed of its mutations, in their order, and has never gone back to an older batch. -/
structure InTurn (caller : Nat) (ops : List PendingOp) (s : System σ) : Prop where
  queued : ((s.pushedBy caller).map Pushed.op ++ (s.queueing caller).toList).Sublist ops
  batches : (s.pushedBy caller).Pairwise fun e e' => e.batch ≤ e'.batch
  read : ∀ op attempts id, s.phases[caller]? = some (.pushing op attempts id) →
    ∀ e ∈ s.pushedBy caller, e.batch ≤ id

theorem InTurn.mono {ops' : List PendingOp} (h : s.InTurn caller ops) (hops : ops.Sublist ops') :
    s.InTurn caller ops' :=
  ⟨h.queued.trans hops, h.batches, h.read⟩

theorem inTurn_of_same (h : s.InTurn caller ops)
    (hphases : s'.phases[caller]? = s.phases[caller]?)
    (hpushed : s'.pushedBy caller = s.pushedBy caller) : s'.InTurn caller ops := by
  constructor
  · rw [hpushed, queueing, hphases]
    exact h.queued
  · rw [hpushed]
    exact h.batches
  · rw [hpushed, hphases]
    exact h.read

theorem queueing_set {old new : Phase} (hold : s.phases[caller]? = some old)
    (hphases : s'.phases = s.phases.set caller new) : s'.queueing caller = new.op? := by
  obtain ⟨hlt, -⟩ := List.getElem?_eq_some_iff.1 hold
  rw [queueing, hphases, List.getElem?_set_self hlt]
  rfl

theorem getElem?_phases_of_ne {c : Nat} {new : Phase} (hc : c ≠ caller)
    (hphases : s'.phases = s.phases.set c new) : s'.phases[caller]? = s.phases[caller]? := by
  rw [hphases, List.getElem?_set_ne hc]

/-- A caller takes its own turn. -/
theorem inTurn_of_own_turn {old : Phase} (hsound : s.Sound size) (h : s.InTurn caller ops)
    (hold : s.phases[caller]? = some old) (hturn : s.Turn caller old s') : s'.InTurn caller ops := by
  have hbefore : s.queueing caller = old.op? := by rw [queueing, hold]; rfl
  have hqueued := h.queued
  rw [hbefore] at hqueued
  have hphase : ∀ new : Phase, s'.phases = s.phases.set caller new →
      s'.phases[caller]? = some new := by
    intro new hphases
    rw [hphases, List.getElem?_set_self (List.getElem?_eq_some_iff.1 hold).1]
  cases hturn with
  | goesOn new hphases hpushed hop hread =>
    have hsame : s'.pushedBy caller = s.pushedBy caller := by rw [pushedBy, hpushed, pushedBy]
    constructor
    · rw [hsame, queueing_set hold hphases]
      rcases hop with hnone | hkept
      · rw [hnone, Option.toList_none, List.append_nil]
        exact (List.sublist_append_left _ _).trans hqueued
      · rw [hkept]
        exact hqueued
    · rw [hsame]
      exact h.batches
    · -- The batch that it has read is in the slot, so nobody has pushed into a later one.
      intro op attempts id hpushing e he
      rw [hphase new hphases, Option.some_inj] at hpushing
      rw [hsame] at he
      exact hsound.batch_le_slot (hread op attempts id hpushing) e (List.mem_of_mem_filter he)
  | pushes op attempts id new hbusy hphases hpushed hnew =>
    have hmore : s'.pushedBy caller = s.pushedBy caller ++ [⟨caller, id, op⟩] := by
      rw [pushedBy_append hpushed, if_pos rfl]
    subst hbusy
    constructor
    · rw [hmore, queueing_set hold hphases, hnew, List.map_append, Option.toList_none,
        List.append_nil]
      exact hqueued
    · rw [hmore, List.pairwise_append]
      refine ⟨h.batches, List.pairwise_singleton _ _, fun e he e' he' => ?_⟩
      rw [List.mem_singleton.1 he']
      exact h.read op attempts id hold e he
    · intro op' attempts' id' hpushing
      rw [hphase new hphases, Option.some_inj] at hpushing
      rw [hpushing] at hnew
      cases hnew

/-- Another caller takes its turn. -/
theorem inTurn_of_other_turn {c : Nat} {old : Phase} (h : s.InTurn caller ops) (hc : c ≠ caller)
    (hturn : s.Turn c old s') : s'.InTurn caller ops := by
  cases hturn with
  | goesOn new hphases hpushed hop hread =>
    apply inTurn_of_same h (getElem?_phases_of_ne hc hphases)
    rw [pushedBy, hpushed, pushedBy]
  | pushes op attempts id new hbusy hphases hpushed hnew =>
    apply inTurn_of_same h (getElem?_phases_of_ne hc hphases)
    rw [pushedBy_append hpushed, if_neg hc, List.append_nil]

theorem inTurn_of_turn {c : Nat} {old : Phase} (hsound : s.Sound size) (h : s.InTurn caller ops)
    (hold : s.phases[c]? = some old) (hturn : s.Turn c old s') : s'.InTurn caller ops := by
  by_cases hc : c = caller
  · subst hc
    exact inTurn_of_own_turn hsound h hold hturn
  · exact inTurn_of_other_turn h hc hturn

theorem inTurn_begin {c : Nat} (hsound : s.Sound size) (h : s.InTurn caller ops)
    (hold : s.phases[c]? = some .idle) (r : Request) :
    (s.begin c r).InTurn caller (ops ++ s.begun caller (.start c r)) := by
  cases r with
  | flush =>
    have hturn : s.Turn c .idle (s.begin c .flush) := .goesOn (.taking false) rfl rfl (.inl rfl) nofun
    exact (inTurn_of_turn hsound h hold hturn).mono (List.sublist_append_left _ _)
  | shutdown =>
    have hturn : s.Turn c .idle (s.begin c .shutdown) :=
      .goesOn (.taking true) rfl rfl (.inl rfl) nofun
    exact (inTurn_of_turn hsound h hold hturn).mono (List.sublist_append_left _ _)
  | enqueue mutation mutationId =>
    by_cases hc : c = caller
    · subst hc
      have hidle : s.queueing c = none := by rw [queueing, hold]; rfl
      have hqueued := h.queued
      rw [hidle, Option.toList_none, List.append_nil] at hqueued
      constructor
      · rw [begun, if_pos ⟨rfl, hold⟩, queueing_set hold rfl]
        exact hqueued.append (.refl _)
      · exact h.batches
      · intro op attempts id hpushing
        have hreading : (s.begin c (.enqueue mutation mutationId)).phases[c]? =
            some (.reading ⟨mutation, mutationId, s.nextToken⟩ s.pipeline.maxAttempts) :=
          List.getElem?_set_self (List.getElem?_eq_some_iff.1 hold).1
        rw [hreading] at hpushing
        cases hpushing
    · have hother : s.begun caller (.start c (.enqueue mutation mutationId)) = [] :=
        if_neg fun hboth => hc hboth.1
      rw [hother, List.append_nil]
      exact inTurn_of_same h (getElem?_phases_of_ne hc rfl) rfl

theorem inTurn_ofPipeline (p : Pipeline) (store : σ) (callers : Nat) :
    (ofPipeline p store callers).InTurn caller [] := by
  have hidle : ∀ phase, (ofPipeline p store callers).phases[caller]? = some phase → phase = .idle :=
    fun phase hphase => List.eq_of_mem_replicate (List.mem_of_getElem? hphase)
  constructor
  · have hnone : (ofPipeline p store callers).queueing caller = none := by
      rw [queueing, Option.bind_eq_none_iff]
      intro phase hphase
      rw [hidle phase hphase]
      rfl
    rw [hnone]
    exact .refl _
  · exact .nil
  · intro op attempts id hpushing
    cases hidle _ hpushing

/-! ## The order of all callers -/

structure Orderly (submitted : Nat → List PendingOp) (s : System σ) : Prop where
  distinct : (s.pushed.map Pushed.op).Nodup
  /-- A caller pushes mutations in the order in which it begins to queue them. -/
  queued : ∀ caller, ((s.pushedBy caller).map Pushed.op).Sublist (submitted caller)
  batches : ∀ caller, (s.pushedBy caller).Pairwise fun e e' => e.batch ≤ e'.batch
  held : ∀ caller id,
    (((s.pushedBy caller).filter fun e => e.batch = id).map Pushed.op).Sublist (s.held id)
  executed : ∀ caller, ∀ x ∈ s.executed,
    (((s.pushedBy caller).filter fun e => e.batch = x.1).map Pushed.op).Sublist x.2
  calls : s.store.calls =
    ((s.executed.map Prod.snd).filter fun ops => !ops.isEmpty).map Batch.sent
  /-- The batches in the order of their numbers, one after the other, merge what the callers queued. -/
  merged : s.inBatchOrder.Perm (s.pushed.map Pushed.op)
  total : ∀ caller, ((s.pushedBy caller).map Pushed.op).Sublist s.inBatchOrder

theorem Sound.orderly (h : s.Sound size) {submitted : Nat → List PendingOp}
    (hturn : ∀ caller, s.InTurn caller (submitted caller)) : s.Orderly submitted where
  distinct := by
    have htokens := h.tokened.nodup
    rw [← Function.comp_def, ← List.map_map] at htokens
    exact htokens.of_map _
  queued caller := (List.sublist_append_left _ _).trans (hturn caller).queued
  batches caller := (hturn caller).batches
  held caller id := by
    rw [held_eq h.filled]
    exact pushedBy_sublist_pushedInto s caller id
  executed caller x hx := by
    rw [h.filled.executed x hx]
    exact pushedBy_sublist_pushedInto s caller x.1
  calls := h.delivered.calls
  merged := inBatchOrder_perm h.filled
  total caller := pushedBy_sublist_inBatchOrder h.filled (hturn caller).batches

/-! ## Runs -/

variable [Store σ]

def submitted (caller : Nat) : System σ → List Action → List PendingOp
  | _, [] => []
  | s, a :: actions => s.begun caller a ++ submitted caller (s.step a) actions

theorem turn_proceed (s : System σ) (caller : Nat) {old : Phase} (hbusy : old ≠ .idle) :
    s.Turn caller old (s.proceed caller old) := by
  cases old with
  | idle => exact absurd rfl hbusy
  | reading op attempts =>
    cases attempts with
    | zero => exact .leaves rfl rfl
    | succ attempts =>
      rw [proceed]
      split
      · exact .readsAgain op attempts rfl rfl rfl
      · rename_i id hslot
        refine .goesOn (.pushing op attempts id) rfl rfl (.inr rfl) ?_
        rintro _ _ _ ⟨⟩
        exact hslot
  | pushing op attempts id =>
    rw [proceed]
    split
    · refine .pushes op attempts id _ rfl rfl rfl ?_
      split
      · rfl
      · rfl
    · exact .readsAgain op attempts rfl rfl rfl
  | rotating id => exact .leaves rfl rfl
  | taking last =>
    cases last with
    | false => exact .takes s.pipeline.rotate.1 rfl rfl
    | true => exact .takes s.pipeline.takeLast.1 rfl rfl
  | executing id => exact .leaves rfl rfl

theorem inTurn_step (hsound : s.Sound size) (h : s.InTurn caller ops) (a : Action) :
    (s.step a).InTurn caller (ops ++ s.begun caller a) := by
  have hstays : s.InTurn caller (ops ++ s.begun caller a) := h.mono (List.sublist_append_left _ _)
  cases a with
  | start c r =>
    rw [step]
    split
    · rename_i hold
      exact inTurn_begin hsound h hold r
    · exact hstays
  | advance c =>
    rw [step]
    cases hold : s.phases[c]? with
    | none => exact hstays
    | some old =>
      by_cases hidle : old = .idle
      · subst hidle
        exact hstays
      · exact inTurn_of_turn hsound hstays hold (turn_proceed s c hidle)
  | background id =>
    rw [step]
    split
    · exact inTurn_of_same hstays rfl rfl
    · exact hstays

theorem inTurn_run (hsound : s.Sound size) (h : s.InTurn caller ops) (actions : List Action) :
    (s.run actions).InTurn caller (ops ++ submitted caller s actions) := by
  induction actions generalizing s ops with
  | nil =>
    rw [submitted, List.append_nil]
    exact h
  | cons a actions ih =>
    rw [submitted, ← List.append_assoc]
    exact ih (sound_step hsound a) (inTurn_step hsound h a)

/-- However callers come between each other, what each of them queues goes into batches with ascending
numbers, and stands in every batch, and before the store, in the order in which it was queued. -/
theorem callers_keep_order {executor : Bool} {attempts : Nat} {p : Pipeline}
    (hstart : Pipeline.start executor size attempts = .ok p) (callers : Nat) (store : σ)
    (actions : List Action) :
    ((ofPipeline p store callers).run actions).Orderly fun caller =>
      submitted caller (ofPipeline p store callers) actions := by
  obtain ⟨hsize, rfl⟩ := Pipeline.of_start_ok hstart
  have hsound := sound_first size attempts callers store hsize
  apply (sound_run hsound actions).orderly
  intro caller
  exact inTurn_run hsound (inTurn_ofPipeline _ store callers) actions

theorem callers_keep_order_after_refusal :
    let actions : List Action :=
      [.start 0 (.enqueue (.delete "k") none), .advance 0, .start 1 .flush, .advance 1, .advance 1,
        .advance 0, .advance 0, .advance 0, .advance 0,
        .start 0 (.enqueue (.delete "l") none), .advance 0, .advance 0]
    ∃ p, Pipeline.start true 1 5 = .ok p ∧
      ((ofPipeline p ({} : Memory) 2).run actions).Orderly (fun caller =>
        submitted caller (ofPipeline p ({} : Memory) 2) actions) ∧
      (((ofPipeline p ({} : Memory) 2).run actions).pushedBy 0).map Pushed.batch = [2, 3] := by
  intro actions
  have hstart := Pipeline.start_eq (by decide : 0 < 1) 5
  have horderly := callers_keep_order hstart 2 ({} : Memory) actions
  exact ⟨_, hstart, horderly, by decide +kernel⟩

end System

end BatchingCache
