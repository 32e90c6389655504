import BatchingCache.Backoff
import BatchingCache.Entity
import BatchingCache.Proofs.Batch.Acknowledgement
import BatchingCache.Proofs.Cache.Facade
import BatchingCache.Proofs.Cache.Isolation
import BatchingCache.Proofs.Cache.Refinement
import BatchingCache.Proofs.Cache.Refusals
import BatchingCache.Proofs.Cache.Tenants
import BatchingCache.Proofs.Pipeline.Accounting
import BatchingCache.Proofs.Pipeline.Barrier
import BatchingCache.Proofs.Pipeline.Ledger
import BatchingCache.Proofs.Pipeline.Precedence
import BatchingCache.Proofs.Pipeline.Shape
import BatchingCache.Proofs.Pipeline.Uninterrupted
import BatchingCache.Proofs.Store.Expiry
import BatchingCache.Session
import BatchingCache.Wire.Address
import BatchingCache.Wire.Link
import BatchingCache.Proofs.Pipeline.Finality
import BatchingCache.Proofs.Store.Cursors
import BatchingCache.Proofs.Json.Texts
import BatchingCache.Proofs.Json.Numbers
import BatchingCache.Proofs.Json.Values
import BatchingCache.Proofs.Json.Records
import BatchingCache.Proofs.Cache.Entities
import BatchingCache.Proofs.Number.Rounding
import BatchingCache.Proofs.Number.Shortest
import BatchingCache.Proofs.Json.Doubles
import BatchingCache.Proofs.Cache.Deposits
import BatchingCache.Proofs.Cache.Readings
import BatchingCache.Proofs.Store.Scores
import BatchingCache.Proofs.Batch.Lifecycle
import BatchingCache.Proofs.Batch.Failure
import BatchingCache.Proofs.Store.Rejections
import BatchingCache.Proofs.Cache.Collections
import BatchingCache.Proofs.Store.Registers
import BatchingCache.Proofs.Cache.Contention
import BatchingCache.Proofs.Store.Ranges
import BatchingCache.Proofs.Store.Wildcards
import BatchingCache.Proofs.Cache.Maps
import BatchingCache.Proofs.Cache.Scripts
import BatchingCache.Proofs.Backoff
import BatchingCache.Proofs.Cache.Probe
import BatchingCache.Proofs.Wire.Exchange
import BatchingCache.Proofs.Wire.Batches
import BatchingCache.Proofs.Wire.Scans
import BatchingCache.Proofs.Attempts
import BatchingCache.Proofs.Store.Bounds
import BatchingCache.Proofs.Wire.Expiry
