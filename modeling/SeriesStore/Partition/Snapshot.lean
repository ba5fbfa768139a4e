import SeriesStore.Partition.Basic

/-!
# Snapshots

A snapshot is the view of one partition at one moment.  It is a value, so no
later change of the registry shows in it.
-/

namespace SeriesStore

/-- The files of a partition at some moment. -/
structure Snapshot where
  key : PartitionKey
  partition : Partition
deriving DecidableEq

namespace Snapshot

/-- The sequence files by ordering key. -/
def sequence (snapshot : Snapshot) : List DataFile :=
  snapshot.partition.sequence

/-- The unsequence files in order of arrival. -/
def unsequence (snapshot : Snapshot) : List DataFile :=
  snapshot.partition.unsequence

/-- The file of the given number, in either space. -/
def find? (snapshot : Snapshot) (id : FileId) : Option DataFile :=
  snapshot.partition.find? id

/-- Whether the partition had no files. -/
def isEmpty (snapshot : Snapshot) : Bool :=
  snapshot.partition.files.isEmpty

end Snapshot

end SeriesStore
