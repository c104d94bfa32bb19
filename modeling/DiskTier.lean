import DiskTier.Action
import DiskTier.Assoc
import DiskTier.Bytes
import DiskTier.Compaction
import DiskTier.Compaction.Draft
import DiskTier.Compaction.Pass
import DiskTier.Config
import DiskTier.Element
import DiskTier.Element.Codec
import DiskTier.Error
import DiskTier.FileSystem.Basic
import DiskTier.FileSystem.Content
import DiskTier.FileSystem.FileAction
import DiskTier.FileSystem.Outside
import DiskTier.FileSystem.Path
import DiskTier.FreeList
import DiskTier.Http.MediaType
import DiskTier.Http.Percent
import DiskTier.Http.Response
import DiskTier.Http.Route
import DiskTier.Http.Serve
import DiskTier.Http.Service
import DiskTier.Http.SetRequest
import DiskTier.Index
import DiskTier.Index.Snapshot
import DiskTier.Json.Number
import DiskTier.Json.Quoted
import DiskTier.Json.Reader
import DiskTier.Json.Record
import DiskTier.Json.Skip
import DiskTier.Json.Value
import DiskTier.Key
import DiskTier.RecordFile
import DiskTier.Region
import DiskTier.Region.Call
import DiskTier.Session
import DiskTier.Slot
import DiskTier.Stats
import DiskTier.Store
import DiskTier.Text.Decimal
import DiskTier.Text.Sorted
import DiskTier.Text.Utf8
import DiskTier.Proofs.Codec.Text
import DiskTier.Proofs.Codec.Number
import DiskTier.Proofs.Codec.Container
import DiskTier.Proofs.Codec.Record
import DiskTier.Proofs.Index
import DiskTier.Proofs.Index.Newest
import DiskTier.Proofs.FileSystem
import DiskTier.Proofs.FreeList
import DiskTier.Proofs.Names
import DiskTier.Proofs.Space
import DiskTier.Proofs.RecordFile
import DiskTier.Proofs.Target
import DiskTier.Proofs.Store.Sound
import DiskTier.Proofs.Store.Actions
import DiskTier.Proofs.Compaction
import DiskTier.Proofs.Opening
import DiskTier.Proofs.Pass
import DiskTier.Proofs.Region
import DiskTier.Proofs.Run
import DiskTier.Proofs.Ownership
import DiskTier.Proofs.StaleKeys
import DiskTier.Proofs.BoundedMap
import DiskTier.Proofs.Refinement
import DiskTier.Proofs.Transparency
import DiskTier.Proofs.Admission
import DiskTier.Proofs.Codec.Torn
import DiskTier.Proofs.Shadow.Logic
import DiskTier.Proofs.Shadow.Disk
import DiskTier.Proofs.Shadow.File
import DiskTier.Proofs.Shadow.Store
import DiskTier.Proofs.Shadow.Pass
import DiskTier.Proofs.Shadow.Region
import DiskTier.Proofs.Finality
import DiskTier.Proofs.Installation
import DiskTier.Proofs.FreeSlots
import DiskTier.Proofs.Packing
import DiskTier.Proofs.EvictionOrder
import DiskTier.Proofs.LastPuts
import DiskTier.Proofs.Persistence
import DiskTier.Proofs.Disposal
import DiskTier.Proofs.Death
import DiskTier.Proofs.Crash
import DiskTier.Proofs.Paired.Logic
import DiskTier.Proofs.Paired.Disk
import DiskTier.Proofs.Paired.Store
import DiskTier.Proofs.Paired.Region
import DiskTier.Proofs.Abandonment
import DiskTier.Proofs.Saving
import DiskTier.Proofs.Isolation
import DiskTier.Proofs.SingleFlight
import DiskTier.Proofs.Codec.Size
import DiskTier.Proofs.Http.Commands
import DiskTier.Proofs.Http.Maps
import DiskTier.Proofs.Http.Surface
import DiskTier.Proofs.Http.Writing
import DiskTier.Proofs.Http.Conversation
import DiskTier.Proofs.Codec.Format
import DiskTier.Proofs.Index.Recency
import DiskTier.Proofs.Index.Restored
import DiskTier.Proofs.Index.Ledger
import DiskTier.Proofs.FreeList.Order
import DiskTier.Proofs.FreeList.BestFit
import DiskTier.Proofs.FreeList.Largest
import DiskTier.Proofs.Reuse
import DiskTier.Proofs.Placement
import DiskTier.Proofs.Removal
import DiskTier.Proofs.Recount
import DiskTier.Proofs.Upkeep
import DiskTier.Proofs.FailedPut
import DiskTier.Proofs.Recovery
import DiskTier.Proofs.Account
import DiskTier.Proofs.ByteArray
import DiskTier.Proofs.TrackedLength
import DiskTier.Proofs.BoundedPass
