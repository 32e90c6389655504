import BatchingCache.Proofs.Cache.Reach
import BatchingCache.Proofs.Store.Emptiness
import BatchingCache.Proofs.Store.Fields
/-!
# Empty collections in the store of a cache

Beside the store of a cache stands the list of what happened to it.  From that list it can be told which
keys hold an empty map: the request to put an empty map leaves one where there was nothing.  Such a key is
taken although its map reads like an absent one.
-/

namespace BatchingCache

structure Chronicle where
  store : Memory := {}
  events : List Memory.Event := []

namespace Chronicle

def after (s : Chronicle) (e : Memory.Event) : Chronicle := ⟨s.store.after e, s.events ++ [e]⟩

instance : Store Chronicle := ⟨fun c s => ((s.store.call c).1, s.after (.call c))⟩

def Faithful (s : Chronicle) : Prop := s.store = ({} : Memory).afterAll s.events

theorem Faithful.after {s : Chronicle} (h : s.Faithful) (e : Memory.Event) : (s.after e).Faithful := by
  unfold Faithful at h ⊢
  rw [Chronicle.after, Memory.afterAll_append_singleton, h]

end Chronicle

namespace Facade

/-- What is asked of a cache, or a change from outside that is written down: time that passes, or the call
of another client. -/
def Act.Recorded : Act Chronicle → Prop
  | outside change => ∃ e, change = fun s => s.after e
  | _ => True

inductive Act.PutsNothing : Act Chronicle → Prop
  | direct {op : Operation} (h : op.PutsNothing) : PutsNothing (.direct op)
  | outside {c : Call} (h : c.putsNothing) : PutsNothing (.outside fun s => s.after (.call c))

section Kept

variable {A : Call → Prop} {I : Chronicle → Prop} (hA : ∀ c, c.putsNothing = false → A c)
  (hcall : ∀ c, A c → ∀ s : Chronicle, I s → I (s.after (.call c)))
  (hwait : ∀ nanos, ∀ s : Chronicle, I s → I (s.after (.wait nanos)))

include hA hcall hwait

/-- What the calls keep that can be made, and time that passes, is kept by whatever is asked of a cache. -/
theorem kept_step {x : Facade Chronicle} {act : Act Chronicle} (hrecorded : act.Recorded)
    (hputs : act.PutsNothing → ∀ c, A c) (hx : I x.store) : I (x.step act).store := by
  by_cases hact : ∀ change, act ≠ .outside change
  · have hreaches := x.reaches_step hA hact fun op hop h => hputs (hop ▸ .direct h)
    exact hreaches.kept hcall hx
  · obtain ⟨change, rfl⟩ : ∃ change, act = .outside change := by simpa using hact
    obtain ⟨e, rfl⟩ := hrecorded
    cases e with
    | wait nanos => exact hwait nanos x.store hx
    | call c =>
      refine hcall c ?_ x.store hx
      cases hc : c.putsNothing with
      | false => exact hA c hc
      | true => exact hputs (.outside hc) c

theorem kept_run {x : Facade Chronicle} {acts : List (Act Chronicle)}
    (hrecorded : ∀ act ∈ acts, act.Recorded) (hputs : ∀ act ∈ acts, act.PutsNothing → ∀ c, A c)
    (hx : I x.store) : I (x.run acts).store := by
  induction acts generalizing x with
  | nil => exact hx
  | cons act acts ih =>
    obtain ⟨hact, hacts⟩ := List.forall_mem_cons.1 hrecorded
    obtain ⟨hput, hputs⟩ := List.forall_mem_cons.1 hputs
    exact ih hacts hputs (kept_step hA hcall hwait hact hput hx)

end Kept

theorem faithful_run {x : Facade Chronicle} {acts : List (Act Chronicle)}
    (hrecorded : ∀ act ∈ acts, act.Recorded) (hx : x.store.Faithful) : (x.run acts).store.Faithful :=
  kept_run (A := fun _ => True) (fun _ _ => trivial) (fun _ _ _ h => h.after _)
    (fun _ _ h => h.after _) hrecorded (fun _ _ _ _ => trivial) hx

/-- Unless somebody puts an empty map, no call puts no fields into one. -/
theorem putsNothing_run {x : Facade Chronicle} {acts : List (Act Chronicle)}
    (hrecorded : ∀ act ∈ acts, act.Recorded) (hputs : ∀ act ∈ acts, ¬ act.PutsNothing)
    (hx : ∀ c, .call c ∈ x.store.events → c.putsNothing = false) :
    ∀ c, .call c ∈ (x.run acts).store.events → c.putsNothing = false := by
  refine kept_run (A := fun c => c.putsNothing = false)
    (I := fun s => ∀ c, .call c ∈ s.events → c.putsNothing = false)
    (fun _ h => h) ?_ ?_ hrecorded (fun act hact h => absurd h (hputs act hact)) hx
  · intro c hc s hs c' hc'
    rcases List.mem_append.1 hc' with hc' | hc'
    · exact hs c' hc'
    · cases List.mem_singleton.1 hc'
      exact hc
  · intro nanos s hs c' hc'
    rcases List.mem_append.1 hc' with hc' | hc'
    · exact hs c' hc'
    · cases List.mem_singleton.1 hc'

end Facade

theorem Content.get?_eq_none_of_fields {d : Content} {key : String} (h : d.fields key = .ok ∅) :
    d.get? key = none ∨ d.Hollow key :=
  (get?_of_fields h).imp_left And.left

/-- Whatever is asked of a cache and done to its store, which was empty at first, no scored set is stored
without members, and an empty map is stored under just the keys whose map was left empty by a put without
fields.  There is none unless somebody puts an empty map.  A key whose map reads as empty is absent, and
free for a scored set, or it holds an empty map, and is not. -/
theorem Facade.empty_collections_iff (c : Cache) {acts : List (Act Chronicle)}
    (hrecorded : ∀ act ∈ acts, act.Recorded) :
    let s := (({ cache := c, store := {} } : Facade Chronicle).run acts).store
    (∀ key, s.store.content.get? key ≠ some (.scored ∅)) ∧
      (∀ key, s.store.content.get? key = some (.map ∅) ↔ Memory.LeftEmpty key s.events) ∧
      ((∀ act ∈ acts, ¬ act.PutsNothing) → ∀ key, s.store.content.get? key ≠ some (.map ∅)) ∧
      ∀ key, (s.store.call (.mapGet key)).1 = .ok ∅ → ∀ score member,
        let added := (s.store.call (.scoredAdd key score member)).1
        Memory.LeftEmpty key s.events ∧ key ∈ s.store.content.keys ∧ added = .error .wrongType ∨
          ¬ Memory.LeftEmpty key s.events ∧ key ∉ s.store.content.keys ∧ added = .ok true := by
  intro s
  have hstore : s.store = ({} : Memory).afterAll s.events := faithful_run hrecorded rfl
  have hserving : s.store.failing = false := by
    rw [hstore]
    exact Memory.failing_afterAll _ _
  have hhollow : ∀ key, s.store.content.Hollow key ↔ Memory.LeftEmpty key s.events := by
    intro key
    rw [hstore]
    exact Memory.hollow_afterAll_iff
  refine ⟨?_, hhollow, ?_, ?_⟩
  · rw [hstore]
    exact Memory.setsPopulated_afterAll
  · intro hputs key hget
    obtain ⟨before, since, hsplit, -⟩ := (hhollow key).1 hget
    have hquiet := putsNothing_run (x := { cache := c, store := {} }) hrecorded hputs nofun
    have hmem : .call (.mapPut key []) ∈ s.events := by simp [hsplit]
    cases hquiet _ hmem
  · intro key hread score member added
    rw [Memory.fst_call hserving] at hread
    have hadded : added = (s.store.content.addScored key score member).1 := Memory.fst_call hserving _
    rw [hadded, ← hhollow, KeyMap.mem_keys_iff, KeyMap.contains]
    rcases Content.get?_eq_none_of_fields hread with habsent | hempty
    · right
      simp [Content.Hollow, Content.addScored, habsent]
    · left
      have hget : s.store.content.get? key = some (.map ∅) := hempty
      simp [Content.Hollow, Content.addScored, hget]

theorem Facade.empty_collections_after_deletion :
    let acts : List (Act Chronicle) :=
      [.direct (.putMap .text { key := some "h", value := some (KeyMap.ofList [("f", "v")]) }),
        .direct (.deleteMap { key := some "h", fields := some ["f"] }),
        .outside fun s => s.after (.call (.mapPut "g" [])), .outside fun s => s.after (.wait 5)]
    ∃ c, Cache.build true {} = .ok c ∧ (∀ act ∈ acts, act.Recorded) ∧
      let s := (({ cache := c, store := {} } : Facade Chronicle).run acts).store
      Memory.LeftEmpty "g" s.events ∧ ¬ Memory.LeftEmpty "h" s.events ∧
        (s.store.call (.scoredAdd "g" .zero [109])).1 = .error .wrongType ∧
        (s.store.call (.scoredAdd "h" .zero [109])).1 = .ok true := by
  intro acts
  obtain ⟨c, hbuild⟩ : ∃ c, Cache.build true {} = .ok c := ⟨_, rfl⟩
  have hrecorded : ∀ act ∈ acts, act.Recorded := by
    simp only [acts, List.forall_mem_cons, List.not_mem_nil, false_implies, implies_true, and_true]
    exact ⟨trivial, trivial, ⟨_, rfl⟩, ⟨_, rfl⟩⟩
  refine ⟨c, hbuild, hrecorded, ?_⟩
  obtain ⟨-, hempty, -, hreads⟩ := empty_collections_iff c hrecorded
  cases hbuild
  have hg := (hempty "g").1 rfl
  have hh : ¬ Memory.LeftEmpty "h" _ := mt (hempty "h").2 nofun
  refine ⟨hg, hh, ?_, ?_⟩
  · exact ((hreads "g" rfl .zero [109]).resolve_right fun h => h.1 hg).2.2
  · exact ((hreads "h" rfl .zero [109]).resolve_left fun h => hh h.1).2.2

/-- An empty map that is put is stored: its key counts, and takes no scored set. -/
theorem Facade.empty_map_is_stored :
    ¬ ∀ (config : Config) (c : Cache) (acts : List (Act Chronicle)),
      Cache.build true config = .ok c → (∀ act ∈ acts, act.Recorded) →
      let s := (({ cache := c, store := {} } : Facade Chronicle).run acts).store
      ∀ key, s.store.content.get? key ≠ some (.map ∅) ∧
        ((s.store.call (.mapGet key)).1 = .ok ∅ →
          (s.store.call (.scoredAdd key .zero [97])).1 = .ok true) := by
  intro hall
  obtain ⟨c, hbuild⟩ : ∃ c, Cache.build true {} = .ok c := ⟨_, rfl⟩
  have h := hall {} c [.direct (.putMap .text { key := some "h", value := some ∅ })] hbuild
    (List.forall_mem_singleton.2 trivial) "h"
  cases hbuild
  exact h.1 rfl

end BatchingCache
