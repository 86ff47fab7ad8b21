import StatusStore.Lock.Session
import StatusStore.Model.Timestamp.Text
import StatusStore.Model.Document.Text
import StatusStore.Model.EntityId
import StatusStore.Model.Status
import StatusStore.Error
import StatusStore.Cache.Index
import StatusStore.Cache.Caches
import StatusStore.Store.Open
import StatusStore.Store.Metrics
import StatusStore.Store.Overlap
import StatusStore.Store.Traversal
import StatusStore.Proofs.Lock.Accounts
import StatusStore.Proofs.Lock.Broadcast
import StatusStore.Proofs.Lock.Reachable
import StatusStore.Proofs.Lock.Exclusion
import StatusStore.Proofs.Lock.Progress
import StatusStore.Proofs.Lock.Independence
import StatusStore.Proofs.Lock.Presence
import StatusStore.Proofs.Lock.Tickets
import StatusStore.Proofs.Lock.Turnover
import StatusStore.Proofs.Lock.Generations
import StatusStore.Proofs.Cache.Changes
import StatusStore.Proofs.Cache.Aliases
import StatusStore.Proofs.Cache.Lists
import StatusStore.Proofs.Database.Columns
import StatusStore.Proofs.Database.Transactions
import StatusStore.Proofs.Store.Access
import StatusStore.Proofs.Store.Update
import StatusStore.Proofs.Store.Coherent
import StatusStore.Proofs.Store.Reads
import StatusStore.Proofs.Store.Walks
import StatusStore.Proofs.Store.Writes
import StatusStore.Proofs.Store.Transparency
import StatusStore.Proofs.Cache.Marks
import StatusStore.Proofs.Cache.Flights
import StatusStore.Proofs.Cache.Tracking
import StatusStore.Proofs.Cache.History
import StatusStore.Proofs.Cache.Freshness
import StatusStore.Proofs.Cache.Crowd
import StatusStore.Proofs.Cache.SingleFlight
import StatusStore.Proofs.Cache.Current
import StatusStore.Proofs.Database.Notions
import StatusStore.Proofs.Store.Calls
import StatusStore.Proofs.Store.Tended
import StatusStore.Proofs.Store.Interleaving
import StatusStore.Proofs.Cache.Entries
import StatusStore.Proofs.Cache.Announcements
import StatusStore.Proofs.Database.Faults
import StatusStore.Proofs.Store.Atomicity
import StatusStore.Proofs.Store.Newest
import StatusStore.Proofs.Store.Reparenting
import StatusStore.Proofs.Database.Joins
import StatusStore.Proofs.Database.ExactJoins
import StatusStore.Proofs.Database.PartialUpdates
import StatusStore.Proofs.Database.RoundTrips
import StatusStore.Proofs.Store.Joins
import StatusStore.Proofs.Store.EmojiUsers
import StatusStore.Proofs.Store.SharedAliases
import StatusStore.Proofs.Database.Reach
import StatusStore.Proofs.Store.Staffed
import StatusStore.Proofs.Store.Interrupted
import StatusStore.Proofs.Cache.Passes
import StatusStore.Proofs.Queue
import StatusStore.Proofs.Store.Told
import StatusStore.Proofs.Store.Mirror
import StatusStore.Proofs.Store.Population
import StatusStore.Proofs.Store.Deletion
import StatusStore.Proofs.Store.Parts
import StatusStore.Proofs.Store.Repopulation
import StatusStore.Proofs.Store.Holdings
import StatusStore.Proofs.Store.Retries
import StatusStore.Proofs.Database.Descent
import StatusStore.Proofs.Store.Agreement
import StatusStore.Proofs.Store.Kinship
import StatusStore.Proofs.Model.Hydration
import StatusStore.Proofs.Cache.EditLog
import StatusStore.Proofs.Store.Depth
import StatusStore.Proofs.Store.SharedKeys
