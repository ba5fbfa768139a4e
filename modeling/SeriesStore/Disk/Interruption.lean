import SeriesStore.Disk.Persistence

/-!
# Writes that are stopped

A process that writes sidecars may end at any moment.  Then a first part of them is
written, and of the next one there is at most what is done before it is moved to its
place: directories are made on the way there, and the file that is prepared beside it
holds whatever had been written of it.
-/

namespace SeriesStore.Disk.Layout

/-- What the write of a sidecar may have left when it was stopped before the sidecar was
moved to its place. -/
inductive Begins (layout : Layout) (key : PartitionKey) (file : DataFile) (tree : Tree) :
    Tree → Prop where
  /-- Some of the directories are made. -/
  | making {left : Tree} (count : Nat)
      (made : Tree.makeAlong []
        ((Path.steps (layout.partitionDirectory file.space key)).take count) tree =
          .ok () left) : Begins layout key file tree left
  /-- All directories are made, and the prepared file has some content. -/
  | preparing {made left : Tree} (content : List UInt8)
      (directories :
        Tree.makeDirectories (layout.partitionDirectory file.space key) tree = .ok () made)
      (prepared : Tree.write (Path.temporary (layout.sidecarPath key file)) content made =
        .ok () left) : Begins layout key file tree left

/-- What may be left when the writing of sidecars was stopped after the first `count`. -/
def Stops (layout : Layout) (key : PartitionKey) (files : List DataFile) (count : Nat)
    (tree left : Tree) : Prop :=
  ∃ written, layout.persistAll key (files.take count) tree = .ok () written ∧
    (left = written ∨ ∃ file, files[count]? = some file ∧ layout.Begins key file written left)

end SeriesStore.Disk.Layout
