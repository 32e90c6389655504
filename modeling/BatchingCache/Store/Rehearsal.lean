import BatchingCache.Store.Memory
/-!
# A rehearsed store

A store in memory that keeps a log of its calls, and whose answers to batches and scans can be
laid down beforehand.  Calls that are answered in this way never reach the memory.
-/

namespace BatchingCache

structure Rehearsal where
  memory : Memory := {}
  log : List Call := []
  batchAnswers : List (Except StoreError (List Reply)) := []
  scanAnswers : List (Except StoreError (Option Page)) := []
  /-- A batch that changes this key fails. -/
  poison : Option String := none

namespace Rehearsal

def isPoisoned (s : Rehearsal) (ms : List Mutation) : Bool :=
  ms.any fun m => s.poison = some m.key

def delegate (c : Call) (s : Rehearsal) : Except StoreError c.Answer × Rehearsal :=
  let (r, memory) := s.memory.call c
  (r, { s with memory })

/-- Logs a call and answers it, as laid down if it is. -/
def call (c : Call) (s : Rehearsal) : Except StoreError c.Answer × Rehearsal :=
  let s := { s with log := s.log ++ [c] }
  match c with
  | .batch ms =>
    if s.isPoisoned ms then (.error .connectionReset, s)
    else
      match s.batchAnswers with
      | r :: rest => (r, { s with batchAnswers := rest })
      | [] => s.delegate (.batch ms)
  | .scan cursor count pattern =>
    match s.scanAnswers with
    | r :: rest => (r, { s with scanAnswers := rest })
    | [] => s.delegate (.scan cursor count pattern)
  | c => s.delegate c

instance : Store Rehearsal := ⟨call⟩

end Rehearsal

end BatchingCache
