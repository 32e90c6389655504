import BatchingCache.KeyMap
import BatchingCache.Store.Mutation
/-!
# Stores

A store answers calls.  Which type an answer has depends on the call, and every call may fail.
-/

namespace BatchingCache

inductive Call where
  | get (key : String)
  | set (key : String) (value : Bytes) (ttl : Option Duration)
  | compareAndSet (key : String) (expected value : Bytes)
  | delete (key : String)
  | scoredAdd (key : String) (score : Binary64) (member : Bytes)
  | scoredRange (key : String) (start stop : Int64) (reversed : Bool)
  | mapPut (key : String) (fields : List (String × Bytes))
  | mapGet (key : String)
  | mapGetFields (key : String) (fields : List String)
  | mapDeleteFields (key : String) (fields : List String)
  | scan (cursor count : UInt64) (pattern : String)
  /-- Execute mutations in order, in one go. -/
  | batch (mutations : List Mutation)
  deriving DecidableEq, Repr

@[reducible] def Call.Answer : Call → Type
  | get _ => Option Bytes
  | set .. => Unit
  | compareAndSet .. => Bool
  | delete _ => Bool
  | scoredAdd .. => Bool
  | scoredRange .. => List Bytes
  | mapPut .. => Unit
  | mapGet _ => KeyMap Bytes
  | mapGetFields .. => KeyMap Bytes
  | mapDeleteFields .. => UInt64
  | scan .. => Option Page
  | batch _ => List Reply

/-- States of a store, and how it answers calls. -/
class Store (σ : Type) where
  call (c : Call) (s : σ) : Except StoreError c.Answer × σ

end BatchingCache
