import Paradown.Status
import Paradown.Transition
import Paradown.Http
import Paradown.Piece
import Paradown.Source
import Paradown.Checksum
import Paradown.Manifest
import Paradown.Partition
import Paradown.Torrent
import Paradown.Splice
import Paradown.Store
import Paradown.Payload
import Paradown.Task
import Paradown.Prepare
import Paradown.Workers
import Paradown.Storage
import Paradown.Recovery
import Paradown.Acceptance
import Paradown.Sanitizing
import Paradown.MissingFile
import Paradown.Registry
import Paradown.Restart
import Paradown.Registration
import Paradown.Repository
import Paradown.Deletion
import Paradown.History
import Paradown.Completion
import Paradown.Progress
import Paradown.Transfer
import Paradown.Ranged
import Paradown.SingleStream
import Paradown.Lanes
import Paradown.Sections
import Paradown.Execution
import Paradown.System
import Paradown.Tally
import Paradown.Effects
import Paradown.Shape
import Paradown.Permits
import Paradown.Capacity
import Paradown.Reach
import Paradown.Queue
import Paradown.Conservation
import Paradown.Runs
import Paradown.Cancellation
import Paradown.Exclusive
import Paradown.Outcome
import Paradown.Isolation
import Paradown.Stop
import Paradown.Tiling
import Paradown.Layout
import Paradown.Assignment
import Paradown.BlockMap
import Paradown.Sync
import Paradown.Seeding
import Paradown.Carry
import Paradown.TornRows
import Paradown.Swarm
import Paradown.SwarmStop
import Paradown.PieceProgress
import Paradown.Keyed
import Paradown.Backends
import Paradown.Agreement
import Paradown.Durability
import Paradown.Verdicts
import Paradown.Atomic
import Paradown.Resumption
import Paradown.FullLane
import Paradown.Paths
import Paradown.Containment
import Paradown.FileName
import Paradown.Records
import Paradown.BulkDelete
import Paradown.Fallback
import Paradown.Start
import Paradown.Grid
import Paradown.Spacing
import Paradown.RateLimiter
import Paradown.Distinct
import Paradown.Percent
import Paradown.Urlencoded
import Paradown.Disposition
import Paradown.Magnet
import Paradown.Provider
import Paradown.Schedule
import Paradown.RetryBudget
import Paradown.Tickets
import Paradown.QueueOrder
import Paradown.Download
import Paradown.Reassembly
import Paradown.Backing
import Paradown.Throttle
import Paradown.EnginePoll
import Paradown.SessionSaves
import Paradown.Probe
import Paradown.Origin
import Paradown.Endurance
import Paradown.Waiting
import Paradown.Packing
import Paradown.LimitChange
import Paradown.Placeholder
import Paradown.IndexTemplate
import Paradown.ProviderCache
import Paradown.CachedDiscovery
