import BatchingCache.Cache.Direct
/-!
# Health

The health of the store is what the last probe found.  A probe writes a key outside the
namespace and deletes it again.
-/

namespace BatchingCache.Cache

variable {σ : Type} [Store σ]

def setHealthy (c : Cache) (healthy : Bool) : Cache × List Metric :=
  ({ c with healthy }, [.backendHealthy healthy])

def probe (c : Cache) (s : σ) : Outcome σ Unit :=
  let written := c.putString
    { key := some healthProbeKey, value := some healthProbeValue, namespaced := false } s
  match written.result with
  | .error _ => written
  | .ok () =>
    let deleted := c.delete { key := some healthProbeKey, namespaced := false } written.store
    { deleted with metrics := written.metrics ++ deleted.metrics }

structure Checkup (σ : Type) where
  healthy : Bool
  cache : Cache
  store : σ
  metrics : List Metric

/-- The last known health, after a probe if it is forced. -/
def healthCheck (c : Cache) (force : Bool) (s : σ) : Checkup σ :=
  if force then
    let o := c.probe s
    let (c, ms) := c.setHealthy o.result.isOk
    ⟨c.healthy, c, o.store, o.metrics ++ ms⟩
  else ⟨c.healthy, c, s, []⟩

end BatchingCache.Cache
