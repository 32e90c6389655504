import BatchingCache.Text.Blank
/-!
# Key namespaces

Every key, and every pattern of a scan, becomes a key of the store by being put into the
namespace of the cache once.
-/

namespace BatchingCache

/-- A namespace by its name without blanks at its ends.  The empty name means none. -/
structure Namespace where
  name : String
  deriving DecidableEq, Repr

namespace Namespace

def delimiter : String := ":"

def ofName (name : Option String) : Namespace :=
  ⟨(name.map Text.trim).getD ""⟩

/-- The key of the store for a key of the cache.  Requests can step out of the namespace. -/
def wireKey (ns : Namespace) (key : String) (namespaced : Bool) : String :=
  if ns.name = "" || !namespaced then key else ns.name ++ delimiter ++ key

end Namespace

end BatchingCache
