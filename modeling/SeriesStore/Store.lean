import SeriesStore.Disk.Recovery

/-!
# The store

The store is a registry together with the directory tree that keeps its
sidecars.  Most operations concern one of the two; finishing a group changes
the registry first and then writes, so a failure while writing leaves the
registry with the group finished.
-/

namespace SeriesStore

/-- A registry and the tree that keeps its sidecars. -/
structure Store where
  registry : Registry
  disk : Disk.Tree
deriving DecidableEq

namespace Store

/-- A change of the store that may fail on the way. -/
abbrev Step := EStateM Error Store

/-- The store without partitions and without sidecars. -/
def empty : Store :=
  ⟨.empty, .empty⟩

/-- A step of the registry, as one of the store. -/
def onRegistry {α : Type} (step : Registry.Step α) : Step α := fun store =>
  match step store.registry with
  | .ok value registry => .ok value { store with registry := registry }
  | .error error registry => .error error { store with registry := registry }

/-- A step of the directory tree, as one of the store. -/
def onDisk {α : Type} (step : Disk.Tree.Step α) : Step α := fun store =>
  match step store.disk with
  | .ok value disk => .ok value { store with disk := disk }
  | .error error disk => .error error { store with disk := disk }

/-- Writes the sidecar of a registered file. -/
def persist (layout : Disk.Layout) (key : PartitionKey) (id : FileId) : Step Unit := fun store =>
  match store.registry.file key id with
  | .error error => .error error store
  | .ok file => onDisk (layout.persist key file) store

/-- Finishes a merged group and writes the sidecars of its outputs and
members. -/
def finishAndPersist (layout : Disk.Layout) (key : PartitionKey) (ids : List FileId)
    (outputs : List DataFile) : Step (List DataFile) := do
  let removed ← onRegistry (Registry.finish key ids outputs)
  onDisk (layout.persistAll key (layout.finishedSidecars key outputs removed))
  return removed

/-- Replaces the registry by the one that the sidecars describe. -/
def recover (layout : Disk.Layout) : Step Unit := fun store =>
  match layout.recover store.disk with
  | .error error => .error error store
  | .ok registry => .ok () { store with registry := registry }

end Store

end SeriesStore
