import BatchingCache.Bytes
import BatchingCache.Number.Binary64
/-!
# Scored sets

A scored set holds byte strings, each of them once and with a score.  They stand in ascending order
of their scores, and those of one score in the order of their bytes.  Both facts are part of the
type, so adding a member means finding its only place.
-/

namespace BatchingCache

structure Scored where
  score : Binary64
  member : Bytes
  deriving DecidableEq, Repr

namespace Scored

/-- Whether a member stands before another: by score, and for one score by its bytes. -/
def before (a b : Scored) : Bool :=
  a.score.rank < b.score.rank || a.score.rank = b.score.rank && a.member < b.member

theorem before_iff {a b : Scored} :
    a.before b ↔
      a.score.rank < b.score.rank ∨ a.score.rank = b.score.rank ∧ a.member < b.member := by
  simp [before]

theorem before_trans {a b c : Scored} (hab : a.before b) (hbc : b.before c) : a.before c := by
  rw [before_iff] at hab hbc ⊢
  rcases hab with hab | ⟨hab, hab'⟩
  · left; omega
  · rcases hbc with hbc | ⟨hbc, hbc'⟩
    · left; omega
    · exact .inr ⟨by omega, List.lt_trans hab' hbc'⟩

theorem before_irrefl (a : Scored) : ¬ a.before a := by
  rw [before_iff]
  rintro (h | ⟨-, h⟩)
  · omega
  · exact List.lt_irrefl _ h

theorem before_of_not_before {a b : Scored} (h : ¬ a.before b) (hne : a.member ≠ b.member) :
    b.before a := by
  rw [before_iff, not_or] at h
  obtain ⟨hrank, hbytes⟩ := h
  rw [before_iff]
  by_cases heq : b.score.rank = a.score.rank
  · rcases Std.lt_trichotomy a.member b.member with hlt | heq' | hgt
    · exact absurd ⟨heq.symm, hlt⟩ hbytes
    · exact absurd heq' hne
    · exact .inr ⟨heq, hgt⟩
  · left; omega

end Scored

structure ScoredSet where
  members : List Scored
  ascending : members.Pairwise fun a b => a.before b
  distinct : members.Pairwise fun a b => a.member ≠ b.member
  deriving DecidableEq, Repr

namespace ScoredSet

def place (x : Scored) : List Scored → List Scored
  | [] => [x]
  | y :: ys => if x.before y then x :: y :: ys else y :: place x ys

theorem mem_place {x y : Scored} {l : List Scored} : y ∈ place x l ↔ y = x ∨ y ∈ l := by
  induction l with
  | nil => simp [place]
  | cons z zs ih =>
    rw [place]
    split
    · simp
    · simp only [List.mem_cons, ih]
      exact or_left_comm

theorem pairwise_before_place {x : Scored} {l : List Scored}
    (h : l.Pairwise fun a b => a.before b) (hx : ∀ y ∈ l, y.member ≠ x.member) :
    (place x l).Pairwise fun a b => a.before b := by
  induction l with
  | nil => simp [place]
  | cons y ys ih =>
    obtain ⟨hy, hys⟩ := List.pairwise_cons.1 h
    rw [place]
    split
    · rename_i hxy
      refine List.pairwise_cons.2 ⟨fun z hz => ?_, h⟩
      rcases List.mem_cons.1 hz with rfl | hz
      · exact hxy
      · exact Scored.before_trans hxy (hy z hz)
    · rename_i hxy
      have hplaced := ih hys fun z hz => hx z (List.mem_cons_of_mem _ hz)
      refine List.pairwise_cons.2 ⟨fun z hz => ?_, hplaced⟩
      rcases mem_place.1 hz with rfl | hz
      · exact Scored.before_of_not_before hxy (hx y List.mem_cons_self).symm
      · exact hy z hz

theorem pairwise_ne_place {x : Scored} {l : List Scored}
    (h : l.Pairwise fun a b => a.member ≠ b.member) (hx : ∀ y ∈ l, y.member ≠ x.member) :
    (place x l).Pairwise fun a b => a.member ≠ b.member := by
  induction l with
  | nil => simp [place]
  | cons y ys ih =>
    obtain ⟨hy, hys⟩ := List.pairwise_cons.1 h
    rw [place]
    split
    · refine List.pairwise_cons.2 ⟨fun z hz => (hx z hz).symm, h⟩
    · have hplaced := ih hys fun z hz => hx z (List.mem_cons_of_mem _ hz)
      refine List.pairwise_cons.2 ⟨fun z hz => ?_, hplaced⟩
      rcases mem_place.1 hz with rfl | hz
      · exact hx y List.mem_cons_self
      · exact hy z hz

def others (member : Bytes) (z : ScoredSet) : List Scored :=
  z.members.filter fun x => x.member ≠ member

theorem ne_of_mem_others {member : Bytes} {z : ScoredSet} {x : Scored}
    (h : x ∈ z.others member) : x.member ≠ member := by
  simpa using (List.mem_filter.1 h).2

def empty : ScoredSet := ⟨[], .nil, .nil⟩

instance : EmptyCollection ScoredSet := ⟨empty⟩
instance : Inhabited ScoredSet := ⟨empty⟩

def contains (member : Bytes) (z : ScoredSet) : Bool := z.members.any fun x => x.member = member

/-- The set with a member, whose score replaces the one that it had. -/
def insert (x : Scored) (z : ScoredSet) : ScoredSet where
  members := place x (z.others x.member)
  ascending := pairwise_before_place (z.ascending.filter _) fun _ h => ne_of_mem_others h
  distinct := pairwise_ne_place (z.distinct.filter _) fun _ h => ne_of_mem_others h

end ScoredSet

end BatchingCache
