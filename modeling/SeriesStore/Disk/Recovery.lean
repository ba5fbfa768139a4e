import SeriesStore.Disk.Persistence

/-!
# Recovery

Recovery builds a registry from the sidecars below a root.  Every listed
partition comes back, also one without files.  A sidecar must agree with its
place: with the space by its directory and with the number by its name.
Deleted files are left out, claimed ones come back as closed, and the same
rules hold as for files that are added.
-/

namespace SeriesStore.Disk

/-- The file that a sidecar brings back, if it is not deleted.  A claim does not
outlive the process that made it. -/
def restored? (file : DataFile) : Option DataFile :=
  if file.status = .deleted then
    none
  else if file.status.isClaimed then
    some { file with status := .closed }
  else
    some file

/-- Adds a restored file to the partition that has been recovered so far. -/
def addRestored (partition : Partition) (file : DataFile) : Except Error Partition :=
  match file.validate with
  | .error error => .error error
  | .ok () =>
      if partition.contains file.id then
        .error (.malformed file.id .listedTwice)
      else
        .ok (partition.insert file)

/-- Takes one sidecar into the partition that has been recovered so far. -/
def recoverSidecar (tree : Tree) (space : Space) (partition : Partition) (name : FileName)
    (path : String) : Except Error Partition :=
  match tree.readSidecar path with
  | .error error => .error error
  | .ok file =>
      if file.space ≠ space ∨ file.id ≠ name.id then
        .error (.damaged (.misplaced path))
      else
        match restored? file with
        | none => .ok partition
        | some file => addRestored partition file

/-- Takes the listed sidecars of one space. -/
def recoverSidecars (tree : Tree) (space : Space) (partition : Partition) :
    List (FileName × String) → Except Error Partition
  | [] => .ok partition
  | (name, path) :: rest =>
      match recoverSidecar tree space partition name path with
      | .error error => .error error
      | .ok partition => recoverSidecars tree space partition rest

namespace Layout

/-- Takes the sidecars of a partition, space by space. -/
def recoverSpaces (layout : Layout) (tree : Tree) (key : PartitionKey) (partition : Partition) :
    List Space → Except Error Partition
  | [] => .ok partition
  | space :: rest =>
      match layout.listSidecars tree space key with
      | .error fault => .error (.disk fault)
      | .ok sidecars =>
          match recoverSidecars tree space partition sidecars with
          | .error error => .error error
          | .ok partition => layout.recoverSpaces tree key partition rest

/-- Recovers the listed partitions one after the other. -/
def recoverPartitions (layout : Layout) (tree : Tree) (registry : Registry) :
    List PartitionKey → Except Error Registry
  | [] => .ok registry
  | key :: rest =>
      match layout.recoverSpaces tree key .empty Space.all with
      | .error error => .error error
      | .ok partition => layout.recoverPartitions tree (registry.put key partition) rest

/-- Recovers the registry from the sidecars in a tree. -/
def recover (layout : Layout) (tree : Tree) : Except Error Registry :=
  match layout.listPartitions tree with
  | .error fault => .error (.disk fault)
  | .ok keys => layout.recoverPartitions tree .empty keys

end Layout

end SeriesStore.Disk
