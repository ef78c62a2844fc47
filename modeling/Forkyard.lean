import Forkyard.Schemes.Map
import Forkyard.Schemes.ReadTree
import Forkyard.Schemes.Steps
import Forkyard.Schemes.Fair
import Forkyard.Schemes.Lru
import Forkyard.Schemes.Volume
import Forkyard.Schemes.Gas
import Forkyard.Schemes.Crowd
import Forkyard.Schemes.Numeral
import Forkyard.Engine.Primitives
import Forkyard.Engine.Session
import Forkyard.Engine.View
import Forkyard.Engine.Lineage
import Forkyard.Engine.Commit
import Forkyard.Engine.Speculation
import Forkyard.Engine.Rollback
import Forkyard.Engine.Persist
import Forkyard.Engine.Atomic
import Forkyard.Engine.Snapshot
import Forkyard.Engine.Own
import Forkyard.Engine.Formats
import Forkyard.Engine.Vouch
import Forkyard.Fetch.ReadThrough
import Forkyard.Fetch.Nested
import Forkyard.Fetch.Resolve
import Forkyard.Fetch.Fetching
import Forkyard.Fetch.Flights
import Forkyard.Fetch.SingleFlight
import Forkyard.Fetch.Work
import Forkyard.Fetch.Progress
import Forkyard.Session.Attempt
import Forkyard.Session.Retry
import Forkyard.Session.Request
import Forkyard.Session.Failure
import Forkyard.Session.Worker
import Forkyard.Session.Line
import Forkyard.Session.Serial
import Forkyard.Session.Alike
import Forkyard.Session.Panic
import Forkyard.Session.Loop
import Forkyard.Session.Expiry
import Forkyard.Session.Validation
import Forkyard.Session.Manager
import Forkyard.Ingest.Follower
import Forkyard.Session.Resume
import Forkyard.Session.Seeded
import Forkyard.Session.Canonical
import Forkyard.Session.Restore
import Forkyard.Session.Pinned
import Forkyard.Session.Unavailable
import Forkyard.Session.Pool
import Forkyard.Session.Sharded
import Forkyard.Session.Numbered
import Forkyard.Session.Answered
import Forkyard.Bin.PersistCache
import Forkyard.Fetch.Batch
import Forkyard.Bin.Restarts
import Forkyard.Api.SetBalance
import Forkyard.Api.SideTable
import Forkyard.Api.Receipts
import Forkyard.Api.Discards
import Forkyard.Api.Branches
import Forkyard.Api.Call
import Forkyard.Api.Estimate
import Forkyard.Api.ChainId
import Forkyard.Api.Decoders
import Forkyard.Api.Surface
import Forkyard.Api.Dispatch
import Forkyard.Api.Programs
import Forkyard.Api.Mcp
import Forkyard.Api.Unnoticed
import Forkyard.Api.Asks
import Forkyard.Api.ReadBack
import Forkyard.Api.Fees
import Forkyard.Api.Polling
import Forkyard.Api.Origins
import Forkyard.Api.Siblings
import Forkyard.Api.Site
