import BatchingCache.Store.Memory
import Mathlib.Data.List.Sort
/-!
# The live content of a store

What the keys of a store hold, expired strings apart, after each of the changes that a mutation can
make.  Dropping an expired string is no change to the live content.
-/

namespace BatchingCache

namespace ScoredSet

theorem ext_mem {a b : ScoredSet} (h : ∀ x, x ∈ a.members ↔ x ∈ b.members) : a = b := by
  have hne : ∀ z : ScoredSet, z.members.Nodup := fun z =>
    z.distinct.imp fun hxy heq => hxy (congrArg Scored.member heq)
  have hperm : a.members.Perm b.members :=
    (List.perm_ext_iff_of_nodup (hne a) (hne b)).2 h
  have hmembers : a.members = b.members := by
    refine hperm.eq_of_pairwise (fun x y _ _ hxy hyx => ?_) a.ascending b.ascending
    exact absurd (Scored.before_trans hxy hyx) (Scored.before_irrefl x)
  cases a
  cases b
  congr

theorem mem_insert {x y : Scored} {z : ScoredSet} :
    y ∈ (z.insert x).members ↔ y = x ∨ y ∈ z.members ∧ y.member ≠ x.member := by
  show y ∈ place x (z.others x.member) ↔ _
  rw [mem_place, others, List.mem_filter, decide_eq_true_iff]

end ScoredSet

namespace Content

variable {now : Nat} {key k : String} {d d' : Content}

def SameLive (now : Nat) (d d' : Content) : Prop := ∀ k, d.live now k = d'.live now k

theorem SameLive.refl (now : Nat) (d : Content) : SameLive now d d := fun _ => rfl

theorem live_congr (h : d.get? k = d'.get? k) : d.live now k = d'.live now k := by
  rw [live, live, h]

theorem live_insert_self {e : Entry} (he : e.isExpired now = false) :
    live now key (d.insert key e) = some e := by
  rw [live, KeyMap.get?_insert_self]
  simp [Option.filter, he]

theorem get?_dropExpired_self : (d.dropExpired now key).get? key = d.live now key := by
  rw [dropExpired, live]
  cases hget : d.get? key with
  | none => simp [hget]
  | some e =>
    by_cases he : e.isExpired now
    · simp [he, KeyMap.get?_erase, Option.filter]
    · simp [he, hget, Option.filter]

theorem get?_dropExpired_of_ne (h : k ≠ key) : (d.dropExpired now key).get? k = d.get? k := by
  rw [dropExpired]
  split
  · split
    · rw [KeyMap.get?_erase, if_neg h]
    · rfl
  · rfl

theorem isExpired_string_eq_false_iff {value : Bytes} {deadline : Option Nat} :
    (Entry.string value deadline).isExpired now = false ↔ ∀ instant ∈ deadline, now < instant := by
  cases deadline with
  | none => simp [Entry.isExpired]
  | some instant => simp [Entry.isExpired]

theorem isExpired_eq_false_of_le {t : Nat} {e : Entry} (hle : now ≤ t)
    (h : e.isExpired t = false) : e.isExpired now = false := by
  cases e with
  | string value deadline =>
    rw [isExpired_string_eq_false_iff] at h ⊢
    exact fun instant hmem => Nat.lt_of_le_of_lt hle (h instant hmem)
  | scored set => rfl
  | map fields => rfl

/-- What has expired does not come back. -/
theorem live_dropExpired {t : Nat} (hle : now ≤ t) :
    (d.dropExpired now key).live t k = d.live t k := by
  by_cases h : k = key
  · subst h
    rw [live, get?_dropExpired_self, live, live, Option.filter_filter]
    congr 1
    funext e
    cases ht : e.isExpired t with
    | true => exact Bool.and_false _
    | false =>
      rw [isExpired_eq_false_of_le hle ht]
      rfl
  · exact live_congr (get?_dropExpired_of_ne h)

theorem dropExpired_of_live {e : Entry} (h : d.live now key = some e) :
    d.dropExpired now key = d := by
  obtain ⟨hget, hexpired⟩ := Option.filter_eq_some_iff.1 h
  rw [Bool.not_eq_true'] at hexpired
  simp [dropExpired, hget, hexpired]

theorem snd_read : (d.read now key).2 = d.dropExpired now key := by
  simp only [read]
  split <;> rfl

theorem fst_read :
    (d.read now key).1 = match d.live now key with
      | none => .ok none
      | some (.string value _) => .ok (some value)
      | some _ => .error .wrongType := by
  simp only [read, get?_dropExpired_self]
  cases d.live now key with
  | none => rfl
  | some e => cases e <;> rfl

theorem fst_read_eq_some_iff {value : Bytes} :
    (d.read now key).1 = .ok (some value) ↔
      ∃ expiresAt, d.live now key = some (.string value expiresAt) := by
  rw [fst_read]
  cases d.live now key with
  | none => simp
  | some e => cases e <;> simp

/-! ## Conditional changes -/

def misfit : Option Entry → Bool
  | some (.scored _) => true
  | some (.map _) => true
  | _ => false

theorem misfit_live (t : Nat) (key : String) (d : Content) :
    misfit (d.live t key) = misfit (d.get? key) := by
  unfold live
  cases d.get? key with
  | none => rfl
  | some entry =>
    cases entry with
    | string value expiresAt =>
      rw [Option.filter_some]
      split
      · rfl
      · rfl
    | scored set => rfl
    | map fields => rfl

def refusal (held : Option Entry) : Except StoreError Bool :=
  if misfit held then .error .wrongType else .ok false

theorem refusal_ne_true (held : Option Entry) : refusal held ≠ .ok true := by
  unfold refusal
  split
  · nofun
  · nofun

/-- A compare-and-set is applied if the key holds the expected live string.  If not, all that it does is to
drop what has expired. -/
theorem compareAndSet_cases (now : Nat) (key : String) (expected value : Bytes) (d : Content) :
    (∃ expiresAt, d.live now key = some (.string expected expiresAt)) ∧
        d.compareAndSet now key expected value =
          (.ok true, (d.dropExpired now key).insert key (.string value none)) ∨
      (¬ ∃ expiresAt, d.live now key = some (.string expected expiresAt)) ∧
        d.compareAndSet now key expected value =
          (refusal (d.get? key), d.dropExpired now key) := by
  rw [refusal, ← misfit_live now]
  simp only [compareAndSet, get?_dropExpired_self]
  cases hlive : d.live now key with
  | none => exact .inr ⟨nofun, rfl⟩
  | some e =>
    cases e with
    | scored set => exact .inr ⟨nofun, rfl⟩
    | map fields => exact .inr ⟨nofun, rfl⟩
    | string current expiresAt =>
      by_cases heq : current = expected
      · subst heq
        exact .inl ⟨⟨expiresAt, rfl⟩, if_pos rfl⟩
      · refine .inr ⟨?_, if_neg heq⟩
        rintro ⟨expiresAt', h⟩
        cases h
        exact heq rfl

end Content

end BatchingCache
