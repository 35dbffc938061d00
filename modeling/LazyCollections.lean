import LazyCollections.Aggregate.Basic
import LazyCollections.Aggregate.Builder
import LazyCollections.Cache
import LazyCollections.CacheEntry
import LazyCollections.Cbor.Decoder
import LazyCollections.Cbor.Error
import LazyCollections.Cbor.Head
import LazyCollections.Cbor.Item
import LazyCollections.Cbor.Writer
import LazyCollections.Changes.Basic
import LazyCollections.Changes.Diff
import LazyCollections.Changes.OfQueue
import LazyCollections.Collection.Basic
import LazyCollections.Collection.Call
import LazyCollections.Collection.Flush
import LazyCollections.Collection.LazyList
import LazyCollections.Collection.LazyMap
import LazyCollections.Collection.LazySet
import LazyCollections.Collection.Loading
import LazyCollections.Collection.Probing
import LazyCollections.Collection.Stage
import LazyCollections.Descriptor
import LazyCollections.Element.Part
import LazyCollections.Element.Scalar
import LazyCollections.Element.Type
import LazyCollections.EntityId
import LazyCollections.Environment
import LazyCollections.Error
import LazyCollections.Loader
import LazyCollections.Queue.Answers
import LazyCollections.Queue.Operation
import LazyCollections.Region
import LazyCollections.Role
import LazyCollections.Session.Basic
import LazyCollections.Session.Config
import LazyCollections.Session.Id
import LazyCollections.Settings.Json
import LazyCollections.Settings.Read
import LazyCollections.Shape
import LazyCollections.Slot
import LazyCollections.SortedMap
import LazyCollections.StableSort
import LazyCollections.Storage.Database
import LazyCollections.Storage.Rows
import LazyCollections.Storage.Store
import LazyCollections.Text.Hex
import LazyCollections.Text.Inspect
import LazyCollections.Text.Quoted
import LazyCollections.Text.Unprintable
import LazyCollections.Text.Utf8
import LazyCollections.Value.Basic
import LazyCollections.Value.Order
import LazyCollections.Value.Text
import LazyCollections.World
import LazyCollections.Proofs.Changes.CarryOut
import LazyCollections.Proofs.Element.Laws
import LazyCollections.Proofs.StableSort
import LazyCollections.Proofs.Value.Order
import LazyCollections.Proofs.Value.Rearranged
import LazyCollections.Proofs.SortedMap.Folds
import LazyCollections.Proofs.Storage.Holding
import LazyCollections.Proofs.Storage.Work
import LazyCollections.Proofs.Storage.Delivery
import LazyCollections.Proofs.Changes.DiffExact
import LazyCollections.Proofs.Queue.Run
import LazyCollections.Proofs.Queue.Exact
import LazyCollections.Proofs.Collection.Ensures
import LazyCollections.Proofs.Refinement.Tracking
import LazyCollections.Proofs.Refinement.Probing
import LazyCollections.Proofs.Refinement.Flushing
import LazyCollections.Proofs.Refinement.Run
import LazyCollections.Proofs.Storage.Seeding
import LazyCollections.Proofs.Refinement.Opening
import LazyCollections.Proofs.Refinement.Set
import LazyCollections.Proofs.Refinement.Map
import LazyCollections.Proofs.Refinement.List
import LazyCollections.Proofs.Refinement.Identity
import LazyCollections.Proofs.Cbor.Heads
import LazyCollections.Proofs.Cbor.Items
import LazyCollections.Proofs.Cbor.Values
import LazyCollections.Proofs.Cbor.EncodedOrder
import LazyCollections.Proofs.Cache.Entries
import LazyCollections.Proofs.Collection.Upholding
import LazyCollections.Proofs.Cache.Regions
import LazyCollections.Proofs.Collection.Steps
import LazyCollections.Proofs.Cache.Coherence
import LazyCollections.Proofs.Collection.Handover
import LazyCollections.Proofs.Cache.Upkeep
import LazyCollections.Proofs.Cache.Deeds
import LazyCollections.Proofs.Aggregate.Identities
import LazyCollections.Proofs.Queue.Displaced
import LazyCollections.Proofs.Changes.Orphans
import LazyCollections.Proofs.Storage.Keeping
import LazyCollections.Proofs.Collection.Asking
import LazyCollections.Proofs.Collection.Growth
import LazyCollections.Proofs.Collection.Rooted
import LazyCollections.Proofs.Collection.Reports
import LazyCollections.Proofs.Collection.Retry
import LazyCollections.Proofs.Collection.Loaded
import LazyCollections.Proofs.Collection.Effects
import LazyCollections.Proofs.Collection.Moves
import LazyCollections.Proofs.Collection.Sound
import LazyCollections.Proofs.Collection.Backing
import LazyCollections.Proofs.Cbor.Decoded
import LazyCollections.Proofs.Collection.Initializing
import LazyCollections.Proofs.Session.Standing
import LazyCollections.Proofs.Session.Sources
import LazyCollections.Proofs.Collection.Atomic
import LazyCollections.Proofs.Session.Registry
import LazyCollections.Proofs.World.Ties
import LazyCollections.Proofs.Collection.Detached
import LazyCollections.Proofs.Collection.Unread
import LazyCollections.Proofs.Collection.Rebound
import LazyCollections.Proofs.Collection.Sizes
import LazyCollections.Proofs.Queue.Admissible
import LazyCollections.Proofs.Cache.Bookkeeping
import LazyCollections.Proofs.Collection.ReadOnly
import LazyCollections.Proofs.Collection.Apart
import LazyCollections.Proofs.World.Apart
import LazyCollections.Proofs.Changes.DiffPlaces
import LazyCollections.Proofs.Changes.DiffEmpty
import LazyCollections.Proofs.Collection.Compared
import LazyCollections.Proofs.Collection.Unreadable
import LazyCollections.Proofs.Cache.Stability
import LazyCollections.Proofs.Cbor.Delimited
import LazyCollections.Proofs.Value.Sorting
import LazyCollections.Proofs.Aggregate.Assembled
import LazyCollections.Proofs.Queue.InPlace
