import SeriesStore.Partition.Snapshot

/-!
# The registry

The registry holds the partitions in the order of their keys.  A partition comes
into being when files are added under its key, also when the list of files is
empty, and it stays when its last file leaves.

A `Registry.Step` lifts a step of one partition.  As there, an error comes with
the registry as it is at that moment.
-/

namespace SeriesStore

/-- The partitions of the store. -/
structure Registry where
  partitions : SortedMap PartitionKey Partition PartitionKey.compareKeys
deriving DecidableEq

namespace Registry

/-- A change of the registry that may fail on the way. -/
abbrev Step := EStateM Error Registry

/-- The registry without partitions. -/
def empty : Registry :=
  ⟨.empty⟩

/-- The keys of all partitions in order. -/
def keys (registry : Registry) : List PartitionKey :=
  registry.partitions.keys

/-- The partition of a key. -/
def partition? (registry : Registry) (key : PartitionKey) : Option Partition :=
  registry.partitions.get? key

/-- Puts a partition under a key. -/
def put (registry : Registry) (key : PartitionKey) (partition : Partition) : Registry :=
  ⟨registry.partitions.insert key partition⟩

/-- The view of a partition; an unknown one has no files. -/
def snapshot (registry : Registry) (key : PartitionKey) : Snapshot :=
  ⟨key, (registry.partition? key).getD .empty⟩

/-- The current view of one file. -/
def file (registry : Registry) (key : PartitionKey) (id : FileId) : Except Error DataFile :=
  match registry.partition? key with
  | none => .error (.partitionNotFound key)
  | some partition =>
      match partition.find? id with
      | none => .error (.fileNotFound id)
      | some file => .ok file

/-- Runs a step on a partition and puts the outcome under its key. -/
def run {α : Type} (registry : Registry) (key : PartitionKey) (partition : Partition)
    (step : Partition.Step α) : EStateM.Result Error Registry α :=
  match step partition with
  | .ok value changed => .ok value (registry.put key changed)
  | .error error changed => .error error (registry.put key changed)

/-- A step on a partition that must be registered. -/
def within {α : Type} (key : PartitionKey) (step : Partition.Step α) : Step α := fun registry =>
  match registry.partition? key with
  | none => .error (.partitionNotFound key) registry
  | some partition => registry.run key partition step

/-- Registers new files of one space, all of them or none.  Only success makes a
new partition. -/
def addAll (key : PartitionKey) (space : Space) (files : List DataFile) : Step Unit :=
  fun registry =>
    match registry.partition? key with
    | some partition => registry.run key partition (Partition.addAll space files)
    | none =>
        match Partition.addAll space files .empty with
        | .ok value partition => .ok value (registry.put key partition)
        | .error error _ => .error error registry

/-- Records a write into an unclosed file. -/
def recordWrite (key : PartitionKey) (id : FileId) (device : String) (time : Timestamp) :
    Step DataFile :=
  within key (Partition.recordWrite id device time)

/-- Seals a file with the supplied ends. -/
def sealFile (key : PartitionKey) (id : FileId) (ends : EndTimes) : Step DataFile :=
  within key (Partition.sealFile id ends)

/-- Deletes a closed file and returns it as deleted. -/
def delete (key : PartitionKey) (id : FileId) : Step DataFile :=
  within key (Partition.delete id)

/-- Claims the members of a group. -/
def claim (key : PartitionKey) (ids : List FileId) : Step Unit :=
  within key (Partition.claim ids)

/-- Gives a claimed group back. -/
def release (key : PartitionKey) (ids : List FileId) : Step Unit :=
  within key (Partition.release ids)

/-- Starts to merge a claimed group. -/
def start (key : PartitionKey) (ids : List FileId) : Step Unit :=
  within key (Partition.start ids)

/-- Gives up merging a group. -/
def abort (key : PartitionKey) (ids : List FileId) : Step Unit :=
  within key (Partition.abort ids)

/-- Puts the outputs of a merged group in the place of its members. -/
def finish (key : PartitionKey) (ids : List FileId) (outputs : List DataFile) :
    Step (List DataFile) :=
  within key (Partition.finish ids outputs)

@[simp]
theorem partition?_put_self (registry : Registry) (key : PartitionKey) (partition : Partition) :
    (registry.put key partition).partition? key = some partition :=
  SortedMap.get?_insert_self registry.partitions key partition

theorem partition?_put_of_ne (registry : Registry) {key asked : PartitionKey}
    (ne : asked ≠ key) (partition : Partition) :
    (registry.put key partition).partition? asked = registry.partition? asked :=
  SortedMap.get?_insert_of_ne registry.partitions ne partition

/-- Registries with the same partitions are equal. -/
theorem ext_partition? {first second : Registry}
    (same : ∀ key, first.partition? key = second.partition? key) : first = second :=
  congrArg Registry.mk (SortedMap.ext_get? same)

/-- Putting back the partition that is there changes nothing. -/
theorem put_of_partition?_eq_some {registry : Registry} {key : PartitionKey}
    {partition : Partition} (present : registry.partition? key = some partition) :
    registry.put key partition = registry :=
  congrArg Registry.mk (SortedMap.insert_of_get?_eq_some present)

end Registry

end SeriesStore
