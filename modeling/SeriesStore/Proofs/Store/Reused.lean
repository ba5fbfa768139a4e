import SeriesStore.Proofs.Disk.Clash
import SeriesStore.Proofs.Store.Interrupted

/-!
# Outputs that take over the number of a member

An output may take over the number of a member.  When it also takes over its ordering key, its
levels and its space, its sidecar replaces that of the member.  Otherwise both sidecars are there
until that of the member is written as deleted, and if the writing is stopped before that,
recovery finds the number twice and refuses the whole tree.

So whether recovery succeeds depends on where the writing was stopped: exactly when every place
from which a number of an output came back before has been written over, too.
-/

namespace SeriesStore

open Disk
open SeriesStore.Disk.Path (Plain)

namespace Store

variable {layout : Layout} {store : Store} {key : PartitionKey} {ids : List FileId}
  {outputs : List DataFile}

/-- A store from which recovery succeeds and in which a group of members that are being merged can
be finished, with any outputs that pass the check.  The registered files of the partition have
sidecars. -/
structure Acceptable (layout : Layout) (store : Store) (key : PartitionKey) (ids : List FileId)
    (outputs : List DataFile) : Prop where
  wellFormed : store.disk.WellFormed
  recovers : ∃ earlier, layout.recover store.disk = .ok earlier
  plain : Plain key.group
  reachable : store.registry.Reachable
  registered : (store.registry.snapshot key).partition.files ≠ []
  sidecars : ∀ file ∈ (store.registry.snapshot key).partition.files, ∃ stored,
    store.disk.readSidecar (layout.sidecarPath key file) = .ok stored
  differ : ids.Nodup
  members : ∀ id ∈ ids, (store.registry.snapshot key).partition.status? id = some .compacting
  accepted : Partition.expectNew .sequence
    (fun id => (store.registry.snapshot key).partition.contains id && !ids.contains id) []
      outputs = .ok ()

/-- Recovery from a store in which finishing a group was stopped. -/
theorem Acceptable.exists_recover_iff (acceptable : Acceptable layout store key ids outputs)
    {removed : List DataFile} {later : Registry}
    (finishing : store.registry.finish key ids outputs = .ok removed later) {count : Nat}
    {stopped : Tree}
    (stops : layout.Stops key (layout.finishedSidecars key outputs removed) count store.disk
      stopped) :
    (∃ recovered, layout.recover stopped = .ok recovered) ↔
      layout.Compatible store.disk key
        ((layout.finishedSidecars key outputs removed).take count) := by
  rcases acceptable.reachable.finished finishing with ⟨left, finished⟩
  rcases acceptable with
    ⟨wellFormed, ⟨earlier, recovers⟩, plain, _, registered, sidecars, _, _, accepted⟩
  rcases Layout.rooted_of_sidecars wellFormed plain recovers registered sidecars with
    ⟨root, rooted, listedKey⟩
  have removedDiffer : (removed.map DataFile.id).Nodup := by
    rw [finished.ids_eq]
    exact finished.ids_nodup
  have saved := saved_stops rooted plain
    (pairwise_finishedSidecars finished.outputs_nodup removedDiffer) stops
  -- Whatever is written and not deleted is an output.
  have isOutput : ∀ file ∈ (layout.finishedSidecars key outputs removed).take count,
      file.status ≠ .deleted → file ∈ outputs := by
    intro file member alive
    rcases mem_finishedSidecars (List.mem_of_mem_take member) with isOutput | isRemoved
    · exact isOutput
    · rcases finished.members file isRemoved with ⟨own, _, rfl⟩
      exact absurd rfl alive
  have accepts := (Partition.expectNew_eq_ok_iff _ _ _ _).mp accepted
  apply Layout.exists_recover_written_iff rooted plain saved recovers listedKey
  · intro file member alive
    exact (accepts.1 file (isOutput file member alive)).1
  · intro first firstMember second secondMember firstAlive secondAlive same
    exact List.inj_on_of_nodup_map finished.outputs_nodup (isOutput first firstMember firstAlive)
      (isOutput second secondMember secondAlive) same

/-- Where no other sidecars bring anything back, a number comes back from the place of the file
that is registered under it. -/
theorem Acceptable.bringsBack_iff (acceptable : Acceptable layout store key ids outputs)
    (covers : layout.Covers store.disk key (store.registry.snapshot key).partition) (id : FileId)
    (path : String) :
    layout.BringsBack store.disk key id path ↔
      ∃ file ∈ (store.registry.snapshot key).partition.files, file.status ≠ .deleted ∧
        file.id = id ∧ path = layout.sidecarPath key file := by
  rcases acceptable.recovers with ⟨earlier, recovers⟩
  rcases Layout.rooted_of_sidecars acceptable.wellFormed acceptable.plain recovers
    acceptable.registered acceptable.sidecars with ⟨root, rooted, listedKey⟩
  rcases Layout.recoverable_of_recover recovers with ⟨keys, listed, recoverable⟩
  rw [(Layout.described_of_recover listed recovers).1] at listedKey
  exact covers.bringsBack_iff rooted acceptable.plain fun space =>
    ((recoverable key listedKey).inPlace space).exists_listed

/-- Finishing a group writes the sidecars of the outputs and then those of the members as deleted
files, except where an output has replaced them.  Wherever this is stopped, recovery succeeds
exactly when each sidecar that was written can be read and, for each output that was written,
every place from which its number came back before has been written over. -/
theorem stopped_finish_recovers_iff (acceptable : Acceptable layout store key ids outputs) :
    ∃ removed later, store.registry.finish key ids outputs = .ok removed later ∧
      (removed.map DataFile.id = ids ∧ ∀ file ∈ removed, file.status = .deleted) ∧
      (∃ count, layout.Stops key (layout.finishedSidecars key outputs removed) count store.disk
        (leftBehind (finishAndPersist layout key ids outputs store)).disk) ∧
      ∀ count stopped, layout.Stops key (layout.finishedSidecars key outputs removed) count
          store.disk stopped →
        ((∃ recovered, layout.recover stopped = .ok recovered) ↔
          ∀ file ∈ (layout.finishedSidecars key outputs removed).take count,
            file.devices.size < 2 ^ 32 ∧
              (file.status ≠ .deleted → ∀ path, layout.BringsBack store.disk key file.id path →
                ∃ written ∈ (layout.finishedSidecars key outputs removed).take count,
                  path = layout.sidecarPath key written)) := by
  rcases Registry.finish_eq_ok acceptable.registered acceptable.differ acceptable.members
    acceptable.accepted with ⟨removed, later, finishing⟩
  rcases acceptable.reachable.finished finishing with ⟨left, finished⟩
  refine ⟨removed, later, finishing, ⟨finished.ids_eq, ?_⟩, ?_,
    fun count stopped stops => acceptable.exists_recover_iff finishing stops⟩
  · intro gone member
    rcases finished.members gone member with ⟨own, _, rfl⟩
    rfl
  · rw [disk_finishAndPersist finishing]
    exact Layout.stops_persistAll layout key _ store.disk

end Store

/-! ## An output that moves a member

The two files of the small store are merged into one output that keeps the number of the first of
them and raises its level, so that it has its sidecar at another place. -/

namespace Sample

/-- What the two files are merged into. -/
def moved : DataFile :=
  { file .sequence .closed 2 [("a", ⟨1, 2⟩)] with innerLevel := 2 }

/-- The disk when the output has been written. -/
def doubled : Tree :=
  leftBehind (layout.persistAll key [moved] merging.store.disk)

/-- The disk when the first member has been written as well. -/
def cleared : Tree :=
  leftBehind (layout.persistAll key ([moved] ++ gone.take 1) merging.store.disk)

theorem acceptable_merging : Store.Acceptable layout merging.store key [2, 5] [moved] where
  wellFormed := finishable_merging.wellFormed
  recovers := finishable_merging.recovers
  plain := finishable_merging.plain
  reachable := finishable_merging.reachable
  registered := finishable_merging.registered
  sidecars := finishable_merging.covers.readSidecar
  differ := finishable_merging.differ
  members := finishable_merging.members
  accepted := by
    rw [run_merging.2.2.2]
    decide +kernel

theorem run_moving :
    returned? (merging.store.registry.finish key [2, 5] [moved]) = some gone ∧
      layout.finishedSidecars key [moved] gone = [moved] ++ gone ∧
      returned? (layout.persistAll key [moved] merging.store.disk) = some () ∧
      returned? (layout.persistAll key ([moved] ++ gone.take 1) merging.store.disk) = some () := by
  decide +kernel

theorem stops_doubled :
    layout.Stops key (layout.finishedSidecars key [moved] gone) 1 merging.store.disk doubled := by
  rw [run_moving.2.1]
  exact ⟨doubled, eq_ok_of_returned? run_moving.2.2.1, .inl rfl⟩

theorem stops_cleared :
    layout.Stops key (layout.finishedSidecars key [moved] gone) 2 merging.store.disk cleared := by
  rw [run_moving.2.1]
  exact ⟨cleared, eq_ok_of_returned? run_moving.2.2.2, .inl rfl⟩

/-- The number of the output came back from the place of the first member, and from no other. -/
theorem bringsBack_merging (path : String) :
    layout.BringsBack merging.store.disk key 2 path ↔
      path = layout.sidecarPath key (file .sequence .compacting 2 [("a", ⟨1, 2⟩)]) := by
  rw [acceptable_merging.bringsBack_iff finishable_merging.covers, run_merging.2.2.2]
  constructor
  · rintro ⟨own, member, _, sameId, samePath⟩
    have only : ∀ own ∈ underway.files, own.id = 2 →
        own = file .sequence .compacting 2 [("a", ⟨1, 2⟩)] := by
      decide +kernel
    rw [samePath, only own member sameId]
  · intro samePath
    exact ⟨_, by decide +kernel, by decide, rfl, samePath⟩

end Sample

namespace Store

theorem stopped_finish_recovers_iff_sample :
    Acceptable Sample.layout Sample.merging.store Sample.key [2, 5] [Sample.moved] ∧
      Sample.layout.Stops Sample.key
        (Sample.layout.finishedSidecars Sample.key [Sample.moved] Sample.gone) 2
        Sample.merging.store.disk Sample.cleared ∧
      ∃ recovered, Sample.layout.recover Sample.cleared = .ok recovered := by
  rcases stopped_finish_recovers_iff Sample.acceptable_merging with
    ⟨removed, later, finishing, _, _, recovers⟩
  have removed_eq : Sample.gone = removed := by
    have returned := Sample.run_moving.1
    rw [finishing] at returned
    exact (Option.some.inj returned).symm
  have stops := Sample.stops_cleared
  rw [removed_eq] at stops
  refine ⟨Sample.acceptable_merging, Sample.stops_cleared, (recovers 2 _ stops).mpr ?_⟩
  rw [← removed_eq, Sample.run_moving.2.1]
  have few : ∀ file ∈ ([Sample.moved] ++ Sample.gone).take 2, file.devices.size < 2 ^ 32 := by
    decide +kernel
  have numbered : ∀ file ∈ ([Sample.moved] ++ Sample.gone).take 2, file.status ≠ .deleted →
      file.id = 2 := by
    decide +kernel
  intro file member
  refine ⟨few file member, fun alive path back => ?_⟩
  rw [numbered file member alive, Sample.bringsBack_merging] at back
  exact ⟨Sample.file .sequence .deleted 2 [("a", ⟨1, 2⟩)], by decide +kernel, back⟩

/-- When the writing is stopped after the output and before its member, recovery finds the number
of the output twice. -/
theorem reused_number_stops_recovery :
    Acceptable Sample.layout Sample.merging.store Sample.key [2, 5] [Sample.moved] ∧
      Sample.layout.Covers Sample.merging.store.disk Sample.key
        (Sample.merging.store.registry.snapshot Sample.key).partition ∧
      Sidecar.Storable Sample.moved ∧
      Sample.layout.Stops Sample.key
        (Sample.layout.finishedSidecars Sample.key [Sample.moved] Sample.gone) 1
        Sample.merging.store.disk Sample.doubled ∧
      ¬ ∃ recovered, Sample.layout.recover Sample.doubled = .ok recovered := by
  refine ⟨Sample.acceptable_merging, Sample.finishable_merging.covers, by decide +kernel,
    Sample.stops_doubled, ?_⟩
  have finishing := Sample.eq_ok_of_returned? Sample.run_moving.1
  rw [Sample.acceptable_merging.exists_recover_iff finishing Sample.stops_doubled,
    Sample.run_moving.2.1]
  intro compatible
  rcases (compatible Sample.moved (by decide +kernel)).2 (by decide) _
    ((Sample.bringsBack_merging _).mpr rfl) with ⟨written, isWritten, samePath⟩
  have others : ∀ written ∈ ([Sample.moved] ++ Sample.gone).take 1,
      Sample.layout.sidecarPath Sample.key (Sample.file .sequence .compacting 2 [("a", ⟨1, 2⟩)]) ≠
        Sample.layout.sidecarPath Sample.key written := by
    decide +kernel
  exact others written isWritten samePath

end Store

end SeriesStore
