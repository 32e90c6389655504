import BatchingCache.Proofs.Number.TotalOrder
import BatchingCache.Proofs.Store.Batches
import BatchingCache.Proofs.Store.Cursors
import BatchingCache.Proofs.Store.Locality
import BatchingCache.Proofs.Store.Ranges
import Mathlib.Data.List.Induction
/-!
# Scored sets as maps

A scored set to which members are added, in calls of their own or in batches, is the map from the
members to the scores that they were added with last, listed in the total order of the scores.  It does
not depend on the order in which the members came.
-/

namespace BatchingCache

/-! ## What was added last -/

theorem Scored.before_iff_precedes {a b : Scored} :
    a.before b ↔ a.score.Precedes b.score ∨ a.score = b.score ∧ a.member < b.member := by
  have hsame : a.score.rank = b.score.rank ↔ a.score = b.score :=
    ⟨Binary64.eq_of_rank_eq, fun h => h ▸ rfl⟩
  rw [before_iff, Binary64.rank_lt_iff_precedes, hsame]

def lastScore (member : Bytes) (adds : List Scored) : Option Binary64 :=
  (adds.reverse.find? fun x => x.member = member).map Scored.score

def newsAfter : List Scored → List Scored → List Bool
  | _, [] => []
  | before, x :: xs => (!before.any fun y => y.member = x.member) :: newsAfter (before ++ [x]) xs

/-- All members that were added, each once and with the score that it was added with last, in the order of
the scores. -/
structure Ranking (adds members : List Scored) : Prop where
  once : (members.map Scored.member).Nodup
  ascending : members.Pairwise fun a b =>
    a.score.Precedes b.score ∨ a.score = b.score ∧ a.member < b.member
  last : ∀ x, x ∈ members ↔ lastScore x.member adds = some x.score

variable {adds adds' : List Scored} {member : Bytes} {x : Scored}

theorem lastScore_append_singleton (adds : List Scored) (x : Scored) (member : Bytes) :
    lastScore member (adds ++ [x]) =
      if x.member = member then some x.score else lastScore member adds := by
  rw [lastScore, List.reverse_append, List.reverse_singleton, List.singleton_append, List.find?_cons]
  by_cases h : x.member = member
  · simp [h]
  · simp [h, lastScore]

theorem isSome_lastScore (adds : List Scored) (member : Bytes) :
    (lastScore member adds).isSome = adds.any fun y => y.member = member := by
  rw [lastScore, Option.isSome_map, Bool.eq_iff_iff, List.find?_isSome, List.any_eq_true]
  simp only [List.mem_reverse]

theorem newsAfter_append (before xs ys : List Scored) :
    newsAfter before (xs ++ ys) = newsAfter before xs ++ newsAfter (before ++ xs) ys := by
  induction xs generalizing before with
  | nil => simp [newsAfter]
  | cons x xs ih => simp [newsAfter, ih]

theorem isEmpty_iff_lastScore {adds : List Scored} :
    adds.isEmpty ↔ ∀ member, lastScore member adds = none := by
  cases adds with
  | nil => exact iff_of_true rfl fun _ => rfl
  | cons x xs =>
    refine iff_of_false Bool.false_ne_true ?_
    intro hnone
    have hsome := isSome_lastScore (x :: xs) x.member
    rw [hnone, List.any_cons, decide_eq_true rfl, Bool.true_or] at hsome
    cases hsome

theorem isEmpty_eq_of_lastScore (h : ∀ member, lastScore member adds = lastScore member adds') :
    adds.isEmpty = adds'.isEmpty := by
  rw [Bool.eq_iff_iff, isEmpty_iff_lastScore, isEmpty_iff_lastScore]
  exact forall_congr' fun member => by rw [h member]

namespace ScoredSet

def ofAdds (adds : List Scored) : ScoredSet := adds.foldl (fun z x => z.insert x) ∅

theorem ofAdds_append_singleton (adds : List Scored) (x : Scored) :
    ofAdds (adds ++ [x]) = (ofAdds adds).insert x :=
  List.foldl_append

theorem mem_ofAdds : x ∈ (ofAdds adds).members ↔ lastScore x.member adds = some x.score := by
  induction adds using List.reverseRecOn with
  | nil => exact iff_of_false List.not_mem_nil nofun
  | append_singleton adds y ih =>
    rw [ofAdds_append_singleton, mem_insert, ih, lastScore_append_singleton]
    by_cases h : y.member = x.member
    · rw [if_pos h, Option.some_inj]
      constructor
      · rintro (rfl | ⟨-, hne⟩)
        · rfl
        · exact absurd h.symm hne
      · intro hscore
        left
        cases x
        cases y
        cases h
        cases hscore
        rfl
    · rw [if_neg h]
      constructor
      · rintro (rfl | ⟨hold, -⟩)
        · exact absurd rfl h
        · exact hold
      · exact fun hold => .inr ⟨hold, Ne.symm h⟩

theorem contains_ofAdds (adds : List Scored) (member : Bytes) :
    (ofAdds adds).contains member = adds.any fun y => y.member = member := by
  rw [← isSome_lastScore, Bool.eq_iff_iff, contains, List.any_eq_true, Option.isSome_iff_exists]
  constructor
  · rintro ⟨x, hx, hmember⟩
    rw [mem_ofAdds, of_decide_eq_true hmember] at hx
    exact ⟨x.score, hx⟩
  · rintro ⟨score, hscore⟩
    exact ⟨⟨score, member⟩, mem_ofAdds.2 hscore, decide_eq_true rfl⟩

theorem ranking_ofAdds (adds : List Scored) : Ranking adds (ofAdds adds).members where
  once := List.pairwise_map.2 (ofAdds adds).distinct
  ascending := (ofAdds adds).ascending.imp Scored.before_iff_precedes.1
  last _ := mem_ofAdds

/-- It does not matter in which order members were added, only with which scores last. -/
theorem ofAdds_eq_of_lastScore (h : ∀ member, lastScore member adds = lastScore member adds') :
    ofAdds adds = ofAdds adds' := by
  apply ext_mem
  intro x
  rw [mem_ofAdds, mem_ofAdds, h]

end ScoredSet

/-! ## Calls that add members -/

section Calls

variable {key : String} {now : Nat} {d : Content}

def Mutation.isAdd : Mutation → Bool
  | scoredAdd .. => true
  | _ => false

def Mutation.addsTo (key : String) : Mutation → List Scored
  | scoredAdd k score member => if k = key then [⟨score, member⟩] else []
  | _ => []

def Call.addsTo (key : String) : Call → List Scored
  | .scoredAdd k score member => if k = key then [⟨score, member⟩] else []
  | .batch ms => ms.flatMap (Mutation.addsTo key)
  | _ => []

def Mutation.told (key : String) (m : Mutation) (r : Reply) : List Bool :=
  (m.addsTo key).map fun _ => r.isApplied

def Call.told (key : String) : (c : Call) → Except StoreError c.Answer → List Bool
  | .scoredAdd k _ _, .ok new => if k = key then [new] else []
  | .batch ms, .ok replies => (ms.zip replies).flatMap fun (m, r) => m.told key r
  | _, _ => []

/-- A call that changes what a key holds by adding members and in no other way. -/
def Call.OnlyAdds (key : String) : Call → Prop
  | .scoredAdd .. => True
  | .scoredRange .. => True
  | .scan .. => True
  | .batch ms => ∀ m ∈ ms, m.key = key → m.isAdd
  | c => c.Within (· ≠ key)

namespace Content

def HoldsAdds (key : String) (adds : List Scored) (d : Content) : Prop :=
  d.get? key = if adds.isEmpty then none else some (.scored (ScoredSet.ofAdds adds))

theorem HoldsAdds.of_get?_eq {d' : Content} (h : d.HoldsAdds key adds)
    (hget : d'.get? key = d.get? key) : d'.HoldsAdds key adds :=
  hget.trans h

theorem HoldsAdds.addScored (h : d.HoldsAdds key adds) (score : Binary64) (member : Bytes) :
    (d.addScored key score member).1 = .ok (!adds.any fun y => y.member = member) ∧
      (d.addScored key score member).2.HoldsAdds key (adds ++ [⟨score, member⟩]) := by
  unfold HoldsAdds at h ⊢
  unfold Content.addScored
  have hsome : (adds ++ [(⟨score, member⟩ : Scored)]).isEmpty = false := by simp
  rw [h, hsome, if_neg Bool.false_ne_true, ScoredSet.ofAdds_append_singleton]
  cases hadds : adds.isEmpty with
  | true =>
    obtain rfl := List.isEmpty_iff.1 hadds
    exact ⟨rfl, KeyMap.get?_insert_self d key _⟩
  | false =>
    rw [← ScoredSet.contains_ofAdds]
    exact ⟨rfl, KeyMap.get?_insert_self d key _⟩

theorem HoldsAdds.mutate (h : d.HoldsAdds key adds) (now : Nat) {m : Mutation}
    (hm : m.key = key → m.isAdd) :
    m.told key (d.mutate now m).1 = newsAfter adds (m.addsTo key) ∧
      (d.mutate now m).2.HoldsAdds key (adds ++ m.addsTo key) := by
  by_cases hkey : m.key = key
  · obtain ⟨score, member, rfl⟩ : ∃ score member, m = .scoredAdd key score member := by
      cases m with
      | scoredAdd k score member => exact ⟨score, member, by rw [← hkey]; rfl⟩
      | _ => cases hm hkey
    obtain ⟨hreply, hafter⟩ := h.addScored score member
    have hadds : (Mutation.scoredAdd key score member).addsTo key = [⟨score, member⟩] := if_pos rfl
    have hnew : (d.mutate now (.scoredAdd key score member)).1 =
        .applied (!adds.any fun y => y.member = member) := by
      simp only [Content.mutate, hreply]
      rfl
    rw [Mutation.told, hadds, hnew]
    exact ⟨rfl, hafter⟩
  · have hadds : m.addsTo key = [] := by
      cases m with
      | scoredAdd k score member => exact if_neg hkey
      | _ => rfl
    have hframe : (d.mutate now m).2.get? key = d.get? key :=
      (confined_mutate now m).frame (Ne.symm hkey)
    rw [Mutation.told, hadds, List.append_nil]
    exact ⟨rfl, h.of_get?_eq hframe⟩

theorem HoldsAdds.mutateAll (h : d.HoldsAdds key adds) {ms : List Mutation}
    (hms : ∀ m ∈ ms, m.key = key → m.isAdd) :
    (Call.batch ms).told key (.ok (d.mutateAll now ms).1) =
        newsAfter adds ((Call.batch ms).addsTo key) ∧
      (d.mutateAll now ms).2.HoldsAdds key (adds ++ (Call.batch ms).addsTo key) := by
  induction ms generalizing adds d with
  | nil =>
    refine ⟨rfl, ?_⟩
    rw [Call.addsTo, List.flatMap_nil, List.append_nil]
    exact h
  | cons m ms ih =>
    obtain ⟨hm, hms⟩ := List.forall_mem_cons.1 hms
    obtain ⟨htold, hafter⟩ := h.mutate now hm
    obtain ⟨htolds, hend⟩ := ih hafter hms
    rw [Call.addsTo, List.flatMap_cons, newsAfter_append, ← htold, ← List.append_assoc]
    refine ⟨?_, hend⟩
    exact congrArg (m.told key (d.mutate now m).1 ++ ·) htolds

theorem HoldsAdds.answer (h : d.HoldsAdds key adds) {c : Call} (hc : c.OnlyAdds key) :
    c.told key (d.answer now c).1 = newsAfter adds (c.addsTo key) ∧
      (d.answer now c).2.HoldsAdds key (adds ++ c.addsTo key) := by
  have hother : c.Within (· ≠ key) → (d.answer now c).2.HoldsAdds key (adds ++ []) := by
    intro hwithin
    rw [List.append_nil]
    exact h.of_get?_eq ((confined_answer now hwithin).frame (not_not.2 rfl))
  have hread : d.HoldsAdds key (adds ++ []) := by
    rw [List.append_nil]
    exact h
  cases c with
  | batch ms => exact h.mutateAll hc
  | scoredAdd k score member =>
    by_cases hk : k = key
    · subst hk
      obtain ⟨hreply, hafter⟩ := h.addScored score member
      have hadds : (Call.scoredAdd k score member).addsTo k = [⟨score, member⟩] := if_pos rfl
      rw [hadds]
      refine ⟨?_, hafter⟩
      show (Call.scoredAdd k score member).told k (d.addScored k score member).1 = _
      rw [hreply]
      exact if_pos rfl
    · have hadds : (Call.scoredAdd k score member).addsTo key = [] := if_neg hk
      rw [hadds]
      refine ⟨?_, hother hk⟩
      cases (d.answer now (.scoredAdd k score member)).1 with
      | ok new => exact if_neg hk
      | error e => rfl
  | scoredRange k start stop reversed => exact ⟨rfl, hread⟩
  | scan cursor count pattern => exact ⟨rfl, hread⟩
  | _ => exact ⟨rfl, hother hc⟩

theorem HoldsAdds.range (h : d.HoldsAdds key adds) (reversed : Bool) :
    d.range key 0 (-1) reversed = .ok
      (if reversed then ((ScoredSet.ofAdds adds).members.map Scored.member).reverse
        else (ScoredSet.ofAdds adds).members.map Scored.member) := by
  unfold HoldsAdds at h
  rw [Content.range, h]
  cases hadds : adds.isEmpty with
  | true =>
    obtain rfl := List.isEmpty_iff.1 hadds
    cases reversed <;> rfl
  | false =>
    simp only [Bool.false_eq_true, if_false, IndexRange.slice_whole]

theorem HoldsAdds.get?_eq {d' : Content} {key' : String} (h : d.HoldsAdds key adds)
    (h' : d'.HoldsAdds key' adds') (hlast : ∀ member, lastScore member adds = lastScore member adds') :
    d'.get? key' = d.get? key := by
  unfold HoldsAdds at h h'
  rw [h, h', ScoredSet.ofAdds_eq_of_lastScore hlast, isEmpty_eq_of_lastScore hlast]

end Content

end Calls

/-! ## Whole histories -/

namespace Memory

variable {s : Memory} {key : String} {events : List Event}

def Event.addsTo (key : String) : Event → List Scored
  | .call c => c.addsTo key
  | .wait _ => []

def Event.told (key : String) (s : Memory) : Event → List Bool
  | .call c => c.told key (s.call c).1
  | .wait _ => []

def Event.OnlyAdds (key : String) : Event → Prop
  | .call c => c.OnlyAdds key
  | .wait _ => True

def addsTo (key : String) (events : List Event) (s : Memory) : List Scored :=
  if s.failing then [] else events.flatMap (Event.addsTo key)

def told (key : String) : List Event → Memory → List Bool
  | [], _ => []
  | e :: events, s => e.told key s ++ told key events (s.after e)

theorem addsTo_of_running (hs : s.failing = false) :
    s.addsTo key events = events.flatMap (Event.addsTo key) := by
  rw [addsTo, hs, if_neg Bool.false_ne_true]

theorem holdsAdds_after {adds : List Scored} (hs : s.failing = false)
    (h : s.content.HoldsAdds key adds) {e : Event} (he : e.OnlyAdds key) :
    e.told key s = newsAfter adds (e.addsTo key) ∧
      (s.after e).content.HoldsAdds key (adds ++ e.addsTo key) := by
  cases e with
  | call c =>
    rw [Event.told, after, fst_call hs, content_call hs]
    exact h.answer he
  | wait nanos =>
    rw [Event.addsTo, List.append_nil]
    exact ⟨rfl, h⟩

theorem holdsAdds_afterAll {adds : List Scored} (hs : s.failing = false)
    (h : s.content.HoldsAdds key adds) (honly : ∀ e ∈ events, e.OnlyAdds key) :
    s.told key events = newsAfter adds (s.addsTo key events) ∧
      (s.afterAll events).content.HoldsAdds key (adds ++ s.addsTo key events) := by
  induction events generalizing s adds with
  | nil =>
    rw [addsTo_of_running hs, List.flatMap_nil, List.append_nil]
    exact ⟨rfl, h⟩
  | cons e events ih =>
    obtain ⟨he, honly⟩ := List.forall_mem_cons.1 honly
    have hs' : (s.after e).failing = false := (failing_after s e).trans hs
    obtain ⟨htold, hafter⟩ := holdsAdds_after hs h he
    obtain ⟨htolds, hend⟩ := ih hs' hafter honly
    rw [addsTo_of_running hs'] at htolds hend
    rw [addsTo_of_running hs, List.flatMap_cons, newsAfter_append, ← htold, ← htolds,
      ← List.append_assoc]
    exact ⟨rfl, hend⟩

/-- While the store is set to fail, nothing is added and nobody is told anything. -/
theorem quiet_of_failing (key : String) (hs : s.failing = true) (events : List Event) :
    s.told key events = [] ∧ (s.afterAll events).content = s.content := by
  induction events generalizing s with
  | nil => exact ⟨rfl, rfl⟩
  | cons e events ih =>
    have hs' : (s.after e).failing = true := (failing_after s e).trans hs
    have hquiet : e.told key s = [] ∧ (s.after e).content = s.content := by
      cases e with
      | call c =>
        rw [Event.told, after, call_of_failing hs]
        exact ⟨by cases c <;> rfl, rfl⟩
      | wait nanos => exact ⟨rfl, rfl⟩
    obtain ⟨htolds, hend⟩ := ih hs'
    rw [told, hquiet.1, htolds]
    exact ⟨rfl, hend.trans hquiet.2⟩

/-- After any events a key that was absent holds the set of the members that were added to it, and the
callers were told which of them were new. -/
theorem holdsAdds_of_absent (habsent : s.content.get? key = none)
    (honly : ∀ e ∈ events, e.OnlyAdds key) :
    s.told key events = newsAfter [] (s.addsTo key events) ∧
      (s.afterAll events).content.HoldsAdds key (s.addsTo key events) := by
  cases hs : s.failing with
  | false => exact holdsAdds_afterAll hs habsent honly
  | true =>
    obtain ⟨htold, hcontent⟩ := quiet_of_failing key hs events
    have hadds : s.addsTo key events = [] := if_pos hs
    rw [htold, hadds, Content.HoldsAdds, hcontent]
    exact ⟨rfl, habsent⟩

/-- A key to which members are added, by calls or in batches and whatever happens to other keys, holds each
of them once, with the score that it was added with last and in the order of the scores.  An addition
tells whether the member is new, and a range over everything is the members in that order or in the
reverse one.  It makes no difference in which order the members came. -/
theorem scored_set_is_map_of_last_scores (s : Memory) (key : String) (events : List Event)
    (habsent : s.content.get? key = none) (honly : ∀ e ∈ events, e.OnlyAdds key) :
    s.told key events = newsAfter [] (s.addsTo key events) ∧
      (∃ z : ScoredSet, Ranking (s.addsTo key events) z.members ∧
        (s.afterAll events).content.get? key =
          (if (s.addsTo key events).isEmpty then none else some (.scored z)) ∧
        ∀ reversed, ((s.afterAll events).call (.scoredRange key 0 (-1) reversed)).1 =
          if s.failing then .error .injected
          else .ok (if reversed then (z.members.map Scored.member).reverse
            else z.members.map Scored.member)) ∧
      ∀ (s' : Memory) (key' : String) (events' : List Event), s'.content.get? key' = none →
        (∀ e ∈ events', e.OnlyAdds key') →
        (∀ member, lastScore member (s.addsTo key events) =
          lastScore member (s'.addsTo key' events')) →
        (s'.afterAll events').content.get? key' = (s.afterAll events).content.get? key := by
  obtain ⟨htold, hholds⟩ := holdsAdds_of_absent habsent honly
  have hrange : ∀ reversed, ((s.afterAll events).call (.scoredRange key 0 (-1) reversed)).1 =
      if s.failing then .error .injected
      else .ok (if reversed
        then ((ScoredSet.ofAdds (s.addsTo key events)).members.map Scored.member).reverse
        else (ScoredSet.ofAdds (s.addsTo key events)).members.map Scored.member) := by
    intro reversed
    cases hs : s.failing with
    | true => rw [call_of_failing ((failing_afterAll s events).trans hs), if_pos rfl]
    | false =>
      rw [fst_call ((failing_afterAll s events).trans hs), if_neg Bool.false_ne_true]
      exact hholds.range reversed
  refine ⟨htold, ⟨_, ScoredSet.ranking_ofAdds _, hholds, hrange⟩, ?_⟩
  intro s' key' events' habsent' honly' hlast
  exact hholds.get?_eq (holdsAdds_of_absent habsent' honly').2 hlast

theorem zeros_and_nan_in_order :
    let s : Memory := {}
    let events : List Event := [.call (.scoredAdd "z" .zero [1]), .wait 5,
      .call (.scoredAdd "z" (.nan true) [2]),
      .call (.batch [.set "a" [7] none, .scoredAdd "z" (.nan false) [0], .scoredAdd "y" .zero [1]]),
      .call (.delete "y"), .call (.scoredAdd "z" (.make true 0) [2])]
    let events' : List Event := [.call (.scoredAdd "z" (.make true 0) [2]),
      .call (.scoredAdd "z" (.nan false) [0]), .call (.scoredAdd "z" .zero [1])]
    s.told "z" events = [true, true, true, false] ∧
      ((s.afterAll events).call (.scoredRange "z" 0 (-1) false)).1 = .ok [[2], [1], [0]] ∧
      (s.afterAll events').content.get? "z" = (s.afterAll events).content.get? "z" := by
  intro s events events'
  have honly : ∀ e ∈ events, e.OnlyAdds "z" := by
    simp [events, Event.OnlyAdds, Call.OnlyAdds, Call.Within, Mutation.key, Mutation.isAdd]
  have honly' : ∀ e ∈ events', e.OnlyAdds "z" := by
    simp [events', Event.OnlyAdds, Call.OnlyAdds]
  have hadds : s.addsTo "z" events =
      [⟨.zero, [1]⟩, ⟨.nan true, [2]⟩, ⟨.nan false, [0]⟩, ⟨.make true 0, [2]⟩] := by decide
  have hadds' : s.addsTo "z" events' =
      [⟨.make true 0, [2]⟩, ⟨.nan false, [0]⟩, ⟨.zero, [1]⟩] := by decide
  have hlast : ∀ member, lastScore member (s.addsTo "z" events) =
      lastScore member (s.addsTo "z" events') := by
    intro member
    rw [hadds, hadds']
    by_cases hknown : member ∈ [[0], [1], [2]]
    · simp only [List.mem_cons, List.not_mem_nil, or_false] at hknown
      rcases hknown with rfl | rfl | rfl <;> rfl
    · simp only [List.mem_cons, List.not_mem_nil, or_false, not_or, eq_comm (a := member)] at hknown
      simp [lastScore, hknown]
  obtain ⟨htold, -, hsame⟩ := scored_set_is_map_of_last_scores s "z" events (by decide) honly
  exact ⟨htold.trans (by decide), by decide, hsame s "z" events' (by decide) honly' hlast⟩

end Memory

end BatchingCache
