import SeriesStore.Disk.Layout
import SeriesStore.Registry
import SeriesStore.Sidecar.Format

/-!
# Persistence

A sidecar is prepared beside its path and moved there when it is complete, so
what stands at the path is always a whole sidecar.

Finishing a merged group writes one sidecar after the other: first those of
the outputs, then those of the members, which are deleted by then.  A member
whose path an output has taken over is not written again.  `finishedSidecars`
is this list as a value, so stopping after any number of writes is taking a
part of it.
-/

namespace SeriesStore.Disk

namespace Tree

/-- Reads the sidecar at a path. -/
def readSidecar (tree : Tree) (path : String) : Except Error DataFile :=
  match tree.read path with
  | .error fault => .error (.disk fault)
  | .ok content => Sidecar.decode content

/-- Writes the sidecar of a file to a path.  Nothing is written for a file that
has no sidecar form. -/
def writeSidecar (path : String) (file : DataFile) : Step Unit := fun tree =>
  match Sidecar.encode file with
  | .error error => .error error tree
  | .ok content =>
      (do write (Path.temporary path) content; rename (Path.temporary path) path : Step Unit) tree

end Tree

namespace Layout

/-- Writes the sidecar of a file to its place, making the directory first. -/
def persist (layout : Layout) (key : PartitionKey) (file : DataFile) : Tree.Step Unit := do
  Tree.makeDirectories (layout.partitionDirectory file.space key)
  Tree.writeSidecar (layout.sidecarPath key file) file

/-- Writes the sidecars of files one after the other. -/
def persistAll (layout : Layout) (key : PartitionKey) : List DataFile → Tree.Step Unit
  | [] => pure ()
  | file :: rest => do
      layout.persist key file
      layout.persistAll key rest

/-- Writes the sidecar of a file that has left the registry. -/
def persistDeleted (layout : Layout) (key : PartitionKey) (file : DataFile) : Tree.Step Unit :=
  if file.status = .deleted then
    layout.persist key file
  else
    throw (.illegalTransition file.id file.status .deleted)

/-- The files whose sidecars are written when a group is finished, in order. -/
def finishedSidecars (layout : Layout) (key : PartitionKey) (outputs removed : List DataFile) :
    List DataFile :=
  outputs ++ removed.filter fun file =>
    !(outputs.map (layout.sidecarPath key)).contains (layout.sidecarPath key file)

end Layout

end SeriesStore.Disk
