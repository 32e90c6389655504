import BatchingCache.Proofs.Cache.Queries
import BatchingCache.Proofs.Store.Batches
import BatchingCache.Proofs.Store.Locality
/-!
# Programs that keep to their keys

A program that only makes calls within some keys gives the same result on any two stores that agree on
these keys, and all other keys keep what they hold.
-/

namespace BatchingCache.Memory

variable {ρ ρ' α β : Type _} {P Q : String → Prop} {s s' s'' : Memory}

/-- Two stores that no call within the keys that satisfy `P` can tell apart. -/
structure Agree (P : String → Prop) (s s' : Memory) : Prop where
  content : s.content.AgreeOn P s'.content
  now : s.now = s'.now
  failing : s.failing = s'.failing

theorem Agree.refl (P : String → Prop) (s : Memory) : Agree P s s := by
  refine ⟨?_, rfl, rfl⟩
  intro k _
  rfl

theorem Agree.trans (h : Agree P s s') (h' : Agree P s' s'') : Agree P s s'' := by
  refine ⟨?_, h.now.trans h'.now, h.failing.trans h'.failing⟩
  intro k hk
  rw [h.content k hk, h'.content k hk]

theorem Agree.mono (h : Agree Q s s') (hPQ : ∀ k, P k → Q k) : Agree P s s' :=
  ⟨fun k hk => h.content k (hPQ k hk), h.now, h.failing⟩

/-- A program whose result and changes are about nothing but the keys that satisfy `P`. -/
structure Confined (P : String → Prop) (f : Memory → ρ × Memory) : Prop where
  congr : ∀ {s s'}, Agree P s s' → (f s).1 = (f s').1 ∧ Agree P (f s).2 (f s').2
  frame : ∀ s, Agree (fun k => ¬ P k) (f s).2 s

theorem confined_return (P : String → Prop) (x : ρ) : Confined P fun s => (x, s) := by
  constructor
  · intro s s' hagree
    exact ⟨rfl, hagree⟩
  · intro s
    exact Agree.refl _ s

theorem Confined.map {f : Memory → ρ × Memory} (h : Confined P f) (g : ρ → ρ') :
    Confined P fun s => (g (f s).1, (f s).2) := by
  constructor
  · intro s s' hagree
    obtain ⟨hresult, hafter⟩ := h.congr hagree
    exact ⟨congrArg g hresult, hafter⟩
  · exact h.frame

theorem Confined.bind {f : Memory → ρ × Memory} {g : ρ → Memory → ρ' × Memory} (hf : Confined P f)
    (hg : ∀ s, Confined P (g (f s).1)) : Confined P fun s => g (f s).1 (f s).2 := by
  constructor
  · intro s s' hagree
    obtain ⟨hresult, hafter⟩ := hf.congr hagree
    simp only [← hresult]
    exact (hg s).congr hafter
  · intro s
    exact ((hg s).frame (f s).2).trans (hf.frame s)

theorem confined_call {c : Call} (h : c.Within P) : Confined P (call c) := by
  constructor
  · intro s s' hagree
    unfold call
    cases hs : s'.failing with
    | true =>
      simp only [hagree.failing, hs, if_true]
      exact ⟨trivial, hagree.content, hagree.now, rfl⟩
    | false =>
      obtain ⟨hreply, hafter⟩ := (Content.confined_answer s'.now h).congr hagree.content
      simp only [hagree.failing, hs, hagree.now, hreply, Bool.false_eq_true, if_false]
      exact ⟨trivial, hafter, rfl, rfl⟩
  · intro s
    cases hs : s.failing with
    | true =>
      rw [call_of_failing hs]
      exact ⟨fun k _ => rfl, rfl, rfl⟩
    | false =>
      refine ⟨fun k hk => ?_, now_call c, failing_call c⟩
      rw [content_call hs]
      exact (Content.confined_answer s.now h).frame hk

/-! ## Queries -/

theorem confined_perform {c : Call} (h : c.Within P) :
    Confined P (perform (σ := Memory) c).run.run :=
  (confined_call h).map fun r => r.mapError CacheError.store

theorem Confined.queryBind {q : Query Memory α} {k : α → Query Memory β} (hq : Confined P q.run.run)
    (hk : ∀ x, Confined P (k x).run.run) : Confined P (q >>= k).run.run := by
  have hresume : ∀ r, Confined P (resume k r) := by
    rintro (e | x)
    · exact confined_return P _
    · exact hk x
  have hrun : (q >>= k).run.run = fun s => resume k (q.run.run s).1 (q.run.run s).2 := by
    funext s
    exact run_bind q k
  rw [hrun]
  exact hq.bind fun s => hresume _

/-- A query that begins with a check only has to keep to its keys if the check goes well. -/
theorem confined_liftM_bind {x : Except CacheError α} {k : α → Query Memory β}
    (hk : ∀ y, x = .ok y → Confined P (k y).run.run) :
    Confined P ((liftM x : Query Memory α) >>= k).run.run := by
  cases x with
  | ok y => exact hk y rfl
  | error e => exact confined_return P _

theorem confined_direct {name : String} {q : Query Memory α} (h : Confined P q.run.run) :
    Confined P fun s => ((direct name q s).result, (direct name q s).store) := h

end BatchingCache.Memory
