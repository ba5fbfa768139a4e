import SeriesStore.Selection.Round
import SeriesStore.Selection.Crew
import SeriesStore.Store
import SeriesStore.Disk.Interruption
import SeriesStore.Proofs.File.Change
import SeriesStore.Proofs.File.Spans
import SeriesStore.Proofs.File.Order
import SeriesStore.Proofs.File.Writes
import SeriesStore.Proofs.Text.Decimal
import SeriesStore.Proofs.File.Name
import SeriesStore.Proofs.Partition.Edit
import SeriesStore.Proofs.Registry.Reachable
import SeriesStore.Proofs.Selection.Input
import SeriesStore.Proofs.Selection.Run
import SeriesStore.Proofs.Selection.Target
import SeriesStore.Proofs.Selection.Draft
import SeriesStore.Proofs.Selection.Arrival
import SeriesStore.Proofs.Selection.Budget
import SeriesStore.Proofs.Selection.Cover
import SeriesStore.Proofs.Time.Hull
import SeriesStore.Proofs.Selection.TimeOrder
import SeriesStore.Proofs.Selection.Collision
import SeriesStore.Proofs.Selection.Obstacle
import SeriesStore.Proofs.Partition.Consistent
import SeriesStore.Proofs.Registry.Consistent
import SeriesStore.Proofs.Partition.Status
import SeriesStore.Proofs.Registry.Session
import SeriesStore.Proofs.Partition.Group
import SeriesStore.Proofs.Registry.Group
import SeriesStore.Proofs.Registry.Atomic
import SeriesStore.Proofs.Registry.Claiming
import SeriesStore.Proofs.Disk.Path
import SeriesStore.Proofs.Disk.Tree
import SeriesStore.Proofs.Disk.Listing
import SeriesStore.Proofs.Partition.Fill
import SeriesStore.Proofs.Disk.Recovery
import SeriesStore.Proofs.Disk.Refusal
import SeriesStore.Proofs.Sidecar.RoundTrip
import SeriesStore.Proofs.Collection.Weight
import SeriesStore.Proofs.Sidecar.Spelling
import SeriesStore.Proofs.Sidecar.Canonical
import SeriesStore.Proofs.Sidecar.Checksum
import SeriesStore.Proofs.Sidecar.Damage
import SeriesStore.Proofs.Disk.Restored
import SeriesStore.Proofs.Disk.Tidy
import SeriesStore.Proofs.Disk.Persist
import SeriesStore.Proofs.Disk.Standing
import SeriesStore.Proofs.Disk.Mirror
import SeriesStore.Proofs.Partition.Steady
import SeriesStore.Proofs.Registry.Steady
import SeriesStore.Proofs.Store.Ledger
import SeriesStore.Proofs.Registry.Fate
import SeriesStore.Proofs.Registry.LateClaim
import SeriesStore.Proofs.Registry.Deleted
import SeriesStore.Proofs.Registry.Sealing
import SeriesStore.Proofs.Registry.Settled
import SeriesStore.Proofs.Partition.Leaving
import SeriesStore.Proofs.Selection.Local
import SeriesStore.Proofs.Selection.Crew
import SeriesStore.Proofs.Disk.Orderly
import SeriesStore.Proofs.Disk.Confined
import SeriesStore.Proofs.Disk.Interruption
import SeriesStore.Proofs.Disk.Afterwards
import SeriesStore.Proofs.Disk.Covered
import SeriesStore.Proofs.Disk.Clash
import SeriesStore.Proofs.Disk.Rewritten
import SeriesStore.Proofs.Store.Interrupted
import SeriesStore.Proofs.Store.Reused
import SeriesStore.Proofs.Store.Restart
import SeriesStore.Proofs.Registry.Deletion
import SeriesStore.Proofs.Registry.Finishing
import SeriesStore.Proofs.Store.Unsaved
import SeriesStore.Proofs.Store.SavedAgain
import SeriesStore.Proofs.Selection.Limit
import SeriesStore.Proofs.Selection.Growth
import SeriesStore.Proofs.Selection.Packing
import SeriesStore.Proofs.Selection.Relevance
import SeriesStore.Proofs.Text.Numeral
import SeriesStore.Proofs.File.Reading
import SeriesStore.Proofs.Selection.Space
import SeriesStore.Proofs.Registry.Quiescent
import SeriesStore.Proofs.Registry.Returned
import SeriesStore.Proofs.Disk.Numbered
import SeriesStore.Proofs.Partition.Slot
