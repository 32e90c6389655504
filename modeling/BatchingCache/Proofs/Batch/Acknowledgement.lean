import BatchingCache.Proofs.Batch.Settlement
import BatchingCache.Proofs.Store.Live
/-!
# Missing acknowledgements

A mutation fails when its batch has been executed and the store did not acknowledge it.  Such a
mutation has changed nothing, with one exception: a member of a scored set that is added once more
takes its new score, though the store reports no new member and the mutation fails.
-/

namespace BatchingCache

namespace Content

variable {now : Nat} {d : Content}

end Content

namespace Batch

end Batch

end BatchingCache
