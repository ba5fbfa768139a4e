import SeriesStore.Proofs.Disk.Covered
import SeriesStore.Proofs.Disk.Interruption
import SeriesStore.Proofs.Store.Ledger
import SeriesStore.Proofs.Registry.Deleted

/-!
# Finishing a group that is interrupted

Finishing a group writes the sidecars of the outputs first and those of the members, as
deleted files, afterwards.  When the outputs have numbers of their own, no number can come
back twice, wherever the writing stops.  Recovery then brings back every registered file but
the members whose sidecars have been written over, and those outputs that have been written:
all members or all outputs, and never a mixture that lacks some of both.
-/

namespace SeriesStore

open Disk
open SeriesStore.Disk.Path (Plain)
open Sidecar (Storable)

/-! ## Kept stores are covered -/

namespace Ledger

variable {layout : Layout} {root : Location} {ledger : Ledger} {key : PartitionKey}

/-- In a store that is kept, the sidecars cover a partition when all its files are up to date. -/
theorem Faithful.covers (faithful : ledger.Faithful layout root) (complete : ledger.Complete)
    (roomy : layout.Roomy) (housed : Housed key.group) :
    layout.Covers ledger.store.disk key (ledger.store.registry.snapshot key).partition where
  saved file member := by
    rcases faithful.exists_stands complete member with ⟨stored, stands, place, back⟩
    have reading := faithful.tidy.readSidecar stands
    rw [Layout.sidecarPath, place.space, place.name, ← Layout.sidecarPath] at reading
    exact ⟨stored.raised, reading, back⟩
  others space sidecars listed sidecar member kept back := by
    rcases (faithful.tidy.mem_listSidecars_iff roomy housed listed sidecar).mp member with
      ⟨file, stands, _, same⟩
    rw [same] at back ⊢
    dsimp only at back ⊢
    rw [faithful.tidy.restoredAt?_of_stands stands] at back
    rcases faithful.noneStale key file stands (comesBack?_eq_some back) with ⟨own, found, place⟩
    refine ⟨own, (Partition.mem_of_find?_eq_some found).1, ?_⟩
    rw [Layout.sidecarPath, Layout.sidecarPath, place.space, place.name]

end Ledger

/-! ## The sidecars of a finished group -/

namespace Partition

variable {layout : Layout} {partition left : Partition} {key : PartitionKey} {ids : List FileId}
  {outputs removed : List DataFile} {file : DataFile}

theorem id_ne_of_fresh {own : DataFile} {id : FileId} (found : partition.find? id = some own)
    (free : partition.contains file.id = false) : file.id ≠ id := by
  rintro rfl
  rw [contains, found] at free
  contradiction

/-- Finishing a group gives one output after the other and one member after the other to the
disk when the outputs have numbers of their own. -/
theorem Finished.sidecars_eq (finished : Finished partition left ids outputs removed)
    (plain : Plain key.group) (fresh : ∀ file ∈ outputs, partition.contains file.id = false) :
    layout.finishedSidecars key outputs removed = outputs ++ removed := by
  rw [Layout.finishedSidecars, List.append_cancel_left_eq, List.filter_eq_self]
  intro gone member
  rw [Bool.not_eq_true', ← Bool.not_eq_true, List.contains_iff_mem]
  intro replaced
  rcases List.mem_map.mp replaced with ⟨output, isOutput, paths⟩
  have same := (Layout.place_eq_of_sidecarPath plain.single plain.single paths).2
  rcases finished.members gone member with ⟨own, found, _⟩
  exact id_ne_of_fresh found (fresh output isOutput) same.id.symm

/-- The places that the first sidecars of a finished group go to are those of as many
members. -/
theorem Finished.staying_iff (finished : Finished partition left ids outputs removed)
    (distinct : partition.Distinct)
    (fresh : ∀ file ∈ outputs, partition.contains file.id = false) (count : Nat) :
    file ∈ partition.files.filter (fun file => file.id ∉ ids.take (count - outputs.length)) ↔
      file ∈ partition.files ∧
        ∀ written ∈ (outputs ++ removed).take count, ¬ written.SamePlace file := by
  rw [List.mem_filter, decide_eq_true_eq, List.take_append]
  apply and_congr_right
  intro registered
  have found := (distinct.find?_eq_some_iff file.id file).mpr ⟨registered, rfl⟩
  rw [← finished.ids_eq, ← List.map_take]
  constructor
  · intro outside written isWritten same
    rcases List.mem_append.mp isWritten with isOutput | isMember
    · exact id_ne_of_fresh found (fresh written (List.mem_of_mem_take isOutput)) same.id.symm
    · exact outside (List.mem_map.mpr ⟨written, isMember, same.id.symm⟩)
  · intro untouched isMember
    rcases List.mem_map.mp isMember with ⟨gone, goneMember, same⟩
    rcases finished.members gone (List.mem_of_mem_take goneMember) with ⟨own, ownFound, gone_eq⟩
    rw [same, found] at ownFound
    cases ownFound
    apply untouched gone (List.mem_append_right _ goneMember)
    rw [gone_eq]
    exact ⟨rfl, rfl⟩

end Partition

/-! ## What comes back -/

section Stopped

variable {layout : Layout} {root : Location} {disk stopped : Tree} {key : PartitionKey}
  {partition left : Partition} {ids : List FileId} {outputs removed : List DataFile}

/-- The files that come back when finishing a group was stopped after some of its sidecars:
the registered ones without the members that have been written over, and the outputs that
have been written. -/
def comingBack (partition : Partition) (ids : List FileId) (outputs : List DataFile)
    (count : Nat) : List DataFile :=
  (partition.files.filter (fun file => file.id ∉ ids.take (count - outputs.length)) ++
    outputs.take count).filterMap comesBack?

/-- Members that are written come back no more. -/
theorem Partition.Finished.comingBack_eq
    (finished : Partition.Finished partition left ids outputs removed) (count : Nat) :
    (partition.files.filter (fun file => file.id ∉ ids.take (count - outputs.length)) ++
      (outputs ++ removed).take count).filterMap comesBack? =
        comingBack partition ids outputs count := by
  have gone : (removed.take (count - outputs.length)).filterMap comesBack? = [] := by
    rw [List.filterMap_eq_nil_iff]
    intro file member
    rcases finished.members file (List.mem_of_mem_take member) with ⟨own, _, rfl⟩
    exact comesBack?_of_deleted rfl
  rw [comingBack, List.take_append, ← List.append_assoc, List.filterMap_append, gone,
    List.append_nil]

theorem distinct_comingBack (ids : List FileId) (distinct : partition.Distinct)
    (outputsDiffer : (outputs.map DataFile.id).Nodup)
    (fresh : ∀ file ∈ outputs, partition.contains file.id = false) (count : Nat) :
    ((comingBack partition ids outputs count).map DataFile.id).Nodup := by
  apply distinct_filterMap_comesBack?
  rw [List.map_append, List.nodup_append]
  refine ⟨distinct.sublist (List.filter_sublist.map _),
    outputsDiffer.sublist ((List.take_sublist _ _).map _), ?_⟩
  intro id isStaying other isOutput same
  subst same
  rcases List.mem_map.mp isStaying with ⟨file, member, rfl⟩
  rcases List.mem_map.mp isOutput with ⟨output, outputMember, same⟩
  have found := (distinct.find?_eq_some_iff file.id file).mpr ⟨List.mem_of_mem_filter member, rfl⟩
  exact Partition.id_ne_of_fresh found (fresh output (List.mem_of_mem_take outputMember)) same

/-- The members can be written as deleted files, since their sidecars have been read. -/
theorem Partition.Finished.storable
    (finished : Partition.Finished partition left ids outputs removed)
    (rooted : Rooted layout root disk) (plain : Plain key.group)
    (covers : layout.Covers disk key partition)
    (alive : ∀ id ∈ ids, partition.status? id = some .compacting)
    (storable : ∀ file ∈ outputs, Storable file) :
    ∀ file ∈ outputs ++ removed, Storable file := by
  rw [List.forall_mem_append]
  refine ⟨storable, fun gone member => ?_⟩
  rcases finished.members gone member with ⟨own, found, gone_eq⟩
  have isMember : gone.id ∈ ids := by
    rw [← finished.ids_eq]
    exact List.mem_map_of_mem member
  rcases (Partition.status?_eq_some_iff _ _ _).mp (alive gone.id isMember) with
    ⟨file, fileFound, status⟩
  rw [found] at fileFound
  cases fileFound
  have settled : own.status ≠ .deleted := by
    rw [status]
    decide
  have back := comesBack?_of_alive settled
  have ownStorable := covers.storable rooted plain (Partition.mem_of_find?_eq_some found).1
    (by rw [back]; exact Option.some_ne_none _)
  exact ownStorable.of_devices (by rw [gone_eq])

theorem Partition.Finished.recover_of_stops
    (finished : Partition.Finished partition left ids outputs removed) {earlier : Registry}
    (recovers : layout.recover disk = .ok earlier) (listedKey : key ∈ earlier.keys)
    (rooted : Rooted layout root disk) (plain : Plain key.group)
    (covers : layout.Covers disk key partition) (distinct : partition.Distinct)
    (valid : ∀ file ∈ partition.files ++ outputs, file.Valid)
    (fresh : ∀ file ∈ outputs, partition.contains file.id = false)
    (storable : ∀ file ∈ outputs ++ removed, Storable file) {count : Nat}
    (stops : layout.Stops key (layout.finishedSidecars key outputs removed) count disk stopped) :
    ∃ recovered, layout.recover stopped = .ok recovered ∧
      (recovered.snapshot key).partition.files.Perm (comingBack partition ids outputs count) := by
  have removedDiffer : (removed.map DataFile.id).Nodup := by
    rw [finished.ids_eq]
    exact finished.ids_nodup
  have saved := saved_stops rooted plain
    (pairwise_finishedSidecars finished.outputs_nodup removedDiffer) stops
  rw [finished.sidecars_eq plain fresh] at saved
  rcases Layout.recoverable_of_recover recovers with ⟨keys, listed, recoverable⟩
  have isListed := listedKey
  rw [(Layout.described_of_recover listed recovers).1] at isListed
  have listable := listable_partition_after rooted saved.confined listed recoverable isListed
  -- Of the files that are written only the outputs come back, so the members pass unchecked.
  have back := finished.comingBack_eq count
  have backValid : ∀ file ∈ partition.files.filter (fun file =>
      file.id ∉ ids.take (count - outputs.length)) ++ (outputs ++ removed).take count,
      comesBack? file ≠ none → file.Valid := by
    intro file member returns
    rcases List.mem_append.mp member with isStaying | isWritten
    · exact valid file (List.mem_append_left _ (List.mem_of_mem_filter isStaying))
    · rcases List.mem_append.mp (List.mem_of_mem_take isWritten) with isOutput | isMember
      · exact valid file (List.mem_append_right _ isOutput)
      · rcases finished.members file isMember with ⟨own, _, rfl⟩
        exact absurd (comesBack?_of_deleted rfl) returns
  have backDistinct := distinct_comingBack ids distinct finished.outputs_nodup fresh count
  rw [← back] at backDistinct
  rcases covers.recoverable_after rooted plain (recoverable key isListed) saved
    (fun file member => storable file (List.mem_of_mem_take member))
    (fun file => finished.staying_iff distinct fresh count) listable backValid backDistinct with
    ⟨recoverableAfter, perm⟩
  rcases recover_after rooted saved.confined recovers listedKey recoverableAfter with
    ⟨recovered, outcome, restored, present, restores⟩
  refine ⟨recovered, outcome, ?_⟩
  rw [Registry.partition_snapshot present, ← back]
  have files : restored.files.Perm (layout.restored stopped key) := by
    have both := restores.sequence.append restores.unsequence
    simpa [Partition.files, Layout.restored, Space.all] using both
  exact files.trans perm

/-- All members come back as long as an output is missing. -/
theorem contains_of_perm {recovered : Partition}
    (members : ∀ id ∈ ids, partition.status? id = some .compacting)
    (alive : ∀ file ∈ outputs, file.status ≠ .deleted) {count : Nat}
    (perm : recovered.files.Perm (comingBack partition ids outputs count)) :
    (∀ id ∈ ids, recovered.contains id) ∨ ∀ file ∈ outputs, recovered.contains file.id := by
  have comes : ∀ file, (file ∈ partition.files ∧ file.id ∉ ids.take (count - outputs.length)) ∨
      file ∈ outputs.take count → file.status ≠ .deleted → recovered.contains file.id := by
    intro file origin live
    have back := comesBack?_of_alive live
    rw [Partition.contains_iff]
    refine ⟨_, perm.mem_iff.mpr ?_, (samePlace_of_comesBack? back).id⟩
    rw [comingBack, List.mem_filterMap]
    refine ⟨file, ?_, back⟩
    simpa using origin
  rcases Nat.lt_or_ge count outputs.length with missing | complete
  · left
    intro id isMember
    rcases (Partition.status?_eq_some_iff _ _ _).mp (members id isMember) with
      ⟨file, found, status⟩
    rcases Partition.mem_of_find?_eq_some found with ⟨registered, rfl⟩
    apply comes file (.inl ⟨registered, ?_⟩) (by rw [status]; decide)
    rw [Nat.sub_eq_zero_of_le missing.le]
    exact List.not_mem_nil
  · right
    intro file isOutput
    apply comes file (.inr ?_) (alive file isOutput)
    rwa [List.take_of_length_le complete]

end Stopped

/-- A group of members that are being merged can be finished with outputs that pass the
check. -/
theorem Registry.finish_eq_ok {registry : Registry} {key : PartitionKey} {ids : List FileId}
    {outputs : List DataFile} (registered : (registry.snapshot key).partition.files ≠ [])
    (differ : ids.Nodup)
    (members : ∀ id ∈ ids, (registry.snapshot key).partition.status? id = some .compacting)
    (accepted : Partition.expectNew .sequence
      (fun id => (registry.snapshot key).partition.contains id && !ids.contains id) [] outputs =
        .ok ()) :
    ∃ removed later, registry.finish key ids outputs = .ok removed later := by
  cases present : registry.partition? key with
  | none =>
      rw [snapshot, present] at registered
      exact absurd rfl registered
  | some partition =>
      rw [partition_snapshot present] at members accepted
      rcases Partition.finish_cases_of_compacting differ members outputs with
        ⟨removed, left, outcome⟩ | ⟨error, _, refused⟩
      · refine ⟨removed, registry.put key left, ?_⟩
        rw [finish, within, present]
        dsimp only
        rw [run, outcome]
      · rw [accepted] at refused
        contradiction

theorem Registry.Reachable.finished {registry later : Registry} (reachable : registry.Reachable)
    {key : PartitionKey} {ids : List FileId} {outputs removed : List DataFile}
    (finishing : registry.finish key ids outputs = .ok removed later) :
    ∃ left, Partition.Finished (registry.snapshot key).partition left ids outputs removed := by
  rcases reachable.consistent key with ⟨log, consistent⟩
  exact ⟨_, Partition.finished_of_finish consistent.distinct
    (Registry.of_within_eq_ok finishing).2.1⟩

namespace Store

variable {layout : Layout} {store : Store} {key : PartitionKey} {ids : List FileId}
  {outputs : List DataFile}

/-- A store from which recovery succeeds and in which a group can be finished with outputs that
have numbers of their own.  The registered files of the partition have been saved since their
spans last changed, and no other sidecar in its directories brings a file back. -/
structure Finishable (layout : Layout) (store : Store) (key : PartitionKey) (ids : List FileId)
    (outputs : List DataFile) : Prop where
  wellFormed : store.disk.WellFormed
  recovers : ∃ earlier, layout.recover store.disk = .ok earlier
  plain : Plain key.group
  reachable : store.registry.Reachable
  covers : layout.Covers store.disk key (store.registry.snapshot key).partition
  registered : (store.registry.snapshot key).partition.files ≠ []
  differ : ids.Nodup
  members : ∀ id ∈ ids, (store.registry.snapshot key).partition.status? id = some .compacting
  accepted : Partition.expectNew .sequence
    (fun id => (store.registry.snapshot key).partition.contains id && !ids.contains id) []
      outputs = .ok ()
  fresh : ∀ file ∈ outputs, (store.registry.snapshot key).partition.contains file.id = false
  alive : ∀ file ∈ outputs, file.status ≠ .deleted
  storable : ∀ file ∈ outputs, Storable file

theorem disk_finishAndPersist {removed : List DataFile} {later : Registry}
    (finishing : store.registry.finish key ids outputs = .ok removed later) :
    (leftBehind (finishAndPersist layout key ids outputs store)).disk =
      leftBehind (layout.persistAll key (layout.finishedSidecars key outputs removed)
        store.disk) := by
  rw [finishAndPersist_eq, finishing]
  dsimp only
  split
  · rename_i failing
    rw [failing]
    rfl
  · rename_i writing
    rw [writing]
    rfl

/-- Wherever the writing of the sidecars is stopped, recovery succeeds and brings back what is
coming back. -/
theorem Finishable.recover_of_stops (finishable : Finishable layout store key ids outputs)
    {removed : List DataFile} {later : Registry}
    (finishing : store.registry.finish key ids outputs = .ok removed later) {count : Nat}
    {stopped : Tree}
    (stops : layout.Stops key (layout.finishedSidecars key outputs removed) count store.disk
      stopped) :
    ∃ recovered, layout.recover stopped = .ok recovered ∧
      (recovered.snapshot key).partition.files.Perm
        (comingBack (store.registry.snapshot key).partition ids outputs count) := by
  rcases finishable.reachable.finished finishing with ⟨left, finished⟩
  rcases finishable with ⟨wellFormed, ⟨earlier, recovers⟩, plain, reachable, covers, registered,
    _, members, accepted, fresh, _, storable⟩
  rcases reachable.consistent key with ⟨log, consistent⟩
  rcases Layout.rooted_of_sidecars wellFormed plain recovers registered covers.readSidecar with
    ⟨root, rooted, listedKey⟩
  have accepts := (Partition.expectNew_eq_ok_iff _ _ _ _).mp accepted
  have valid : ∀ file ∈ (store.registry.snapshot key).partition.files ++ outputs, file.Valid := by
    rw [List.forall_mem_append]
    exact ⟨fun file member => file.validate_eq_ok_iff.mp (consistent.validated file member),
      fun file member => (accepts.1 file member).1⟩
  exact finished.recover_of_stops recovers listedKey rooted plain covers consistent.distinct valid
    fresh (finished.storable rooted plain covers members storable) stops

/-- Finishing a group writes the sidecars of the outputs and then those of the members as deleted
files, and wherever this is stopped, recovery succeeds.  The partition then has the files that
were registered before without the members that have been written over, and the outputs that
have been written, with claims dropped, deleted files left out and growing spans raised.  So all
members are there or all outputs are. -/
theorem stopped_finish_recovers (finishable : Finishable layout store key ids outputs) :
    ∃ removed later, store.registry.finish key ids outputs = .ok removed later ∧
      (layout.finishedSidecars key outputs removed = outputs ++ removed ∧
        removed.map DataFile.id = ids ∧ ∀ file ∈ removed, file.status = .deleted) ∧
      (∃ count, layout.Stops key (layout.finishedSidecars key outputs removed) count store.disk
        (leftBehind (finishAndPersist layout key ids outputs store)).disk) ∧
      ∀ count stopped, layout.Stops key (layout.finishedSidecars key outputs removed) count
          store.disk stopped →
        ∃ recovered, layout.recover stopped = .ok recovered ∧
          (recovered.snapshot key).partition.files.Perm
            (comingBack (store.registry.snapshot key).partition ids outputs count) ∧
          ((∀ id ∈ ids, (recovered.snapshot key).partition.contains id) ∨
            ∀ file ∈ outputs, (recovered.snapshot key).partition.contains file.id) := by
  rcases Registry.finish_eq_ok finishable.registered finishable.differ finishable.members
    finishable.accepted with ⟨removed, later, finishing⟩
  rcases finishable.reachable.finished finishing with ⟨left, finished⟩
  refine ⟨removed, later, finishing, ⟨?_, finished.ids_eq, ?_⟩, ?_, fun count stopped stops => ?_⟩
  · exact finished.sidecars_eq finishable.plain finishable.fresh
  · intro gone member
    rcases finished.members gone member with ⟨own, _, rfl⟩
    rfl
  · rw [disk_finishAndPersist finishing]
    exact Layout.stops_persistAll layout key _ store.disk
  · rcases finishable.recover_of_stops finishing stops with ⟨recovered, outcome, perm⟩
    exact ⟨recovered, outcome, perm, contains_of_perm finishable.members finishable.alive perm⟩

end Store

/-! ## A small store

Two files are being merged into one output.  Of the other two files of the partition, one has
been handed in as deleted. -/

namespace Sample

def mergingTurns : List Turn :=
  [ .request (.addAll key .sequence
      [file .sequence .closed 2 [("a", ⟨1, 2⟩)], file .sequence .closed 3 [("a", ⟨3, 4⟩)],
        file .sequence .deleted 4 []]),
    .request (.addAll key .unsequence [file .unsequence .closed 5 [("a", ⟨1, 1⟩)]]),
    .persist key 2, .persist key 3, .persist key 4, .persist key 5,
    .request (.claim key [2, 5]), .request (.start key [2, 5]) ]

/-- The partition while the two files are being merged. -/
def underway : Partition where
  sequence :=
    [file .sequence .compacting 2 [("a", ⟨1, 2⟩)], file .sequence .closed 3 [("a", ⟨3, 4⟩)],
      file .sequence .deleted 4 []]
  unsequence := [file .unsequence .compacting 5 [("a", ⟨1, 1⟩)]]

/-- The ledger while the two files are being merged. -/
def merging : Ledger :=
  (Ledger.opening blank).takeAll layout mergingTurns

/-- What the two files are merged into. -/
def merged : List DataFile :=
  [file .sequence .closed 6 [("a", ⟨1, 2⟩)]]

theorem run_merging :
    (Ledger.opening blank).Admits layout mergingTurns ∧ merging.Complete ∧
      merging.store.disk.WellFormed ∧
      (merging.store.registry.snapshot key).partition = underway := by
  unfold Tree.WellFormed
  decide +kernel

theorem faithful_merging : merging.Faithful layout ["store"] :=
  (Ledger.faithful_opening vacant_blank).takeAll run_merging.1

theorem finishable_merging : Store.Finishable layout merging.store key [2, 5] merged := by
  rcases run_merging with ⟨_, complete, wellFormed, partition_eq⟩
  have mirrors := faithful_merging.mirrors complete
  constructor
  case wellFormed => exact wellFormed
  case recovers =>
    rcases mirrors.recover_eq_ok faithful_merging.reachable faithful_merging.tidy roomy_layout with
      ⟨earlier, recovers, _⟩
    exact ⟨earlier, recovers⟩
  case plain => decide
  case reachable => exact faithful_merging.reachable
  case covers => exact faithful_merging.covers complete roomy_layout ⟨by decide, by decide⟩
  case registered =>
    rw [partition_eq]
    decide
  case differ => decide
  case members =>
    rw [partition_eq, List.forall_mem_cons, List.forall_mem_singleton]
    decide +kernel
  case accepted =>
    rw [partition_eq]
    decide +kernel
  case fresh =>
    rw [partition_eq]
    decide +kernel
  case alive => decide
  case storable => decide +kernel

/-- The second member as it is given to the disk. -/
def lastGone : DataFile :=
  file .unsequence .deleted 5 [("a", ⟨1, 1⟩)]

/-- The members as they are given to the disk. -/
def gone : List DataFile :=
  [file .sequence .deleted 2 [("a", ⟨1, 2⟩)], lastGone]

/-- The disk when the output and the first member have been written. -/
def written : Tree :=
  leftBehind (layout.persistAll key (merged ++ gone.take 1) merging.store.disk)

/-- The disk when the directory of the second member has been made. -/
def entered : Tree :=
  leftBehind (Tree.makeDirectories (layout.partitionDirectory lastGone.space key) written)

/-- The disk when the first byte of the second member has been prepared. -/
def cut : Tree :=
  leftBehind (Tree.write (Path.temporary (layout.sidecarPath key lastGone)) [0] entered)

theorem run_finishing :
    returned? (merging.store.registry.finish key [2, 5] merged) = some gone ∧
      layout.finishedSidecars key merged gone = merged ++ gone ∧
      returned? (layout.persistAll key (merged ++ gone.take 1) merging.store.disk) = some () ∧
      returned? (Tree.makeDirectories (layout.partitionDirectory lastGone.space key) written) =
        some () ∧
      returned? (Tree.write (Path.temporary (layout.sidecarPath key lastGone)) [0] entered) =
        some () := by
  decide +kernel

theorem stops_cut :
    layout.Stops key (layout.finishedSidecars key merged gone) 2 merging.store.disk cut := by
  rcases run_finishing with ⟨_, sidecars, writing, entering, preparing⟩
  rw [sidecars]
  exact ⟨written, eq_ok_of_returned? writing, .inr ⟨_, rfl,
    .preparing [0] (eq_ok_of_returned? entering) (eq_ok_of_returned? preparing)⟩⟩

end Sample

namespace Store

theorem stopped_finish_recovers_sample :
    Finishable Sample.layout Sample.merging.store Sample.key [2, 5] Sample.merged ∧
      Sample.layout.Stops Sample.key
        (Sample.layout.finishedSidecars Sample.key Sample.merged Sample.gone) 2
        Sample.merging.store.disk Sample.cut ∧
      ∃ recovered, Sample.layout.recover Sample.cut = .ok recovered ∧
        (recovered.snapshot Sample.key).partition.files.Perm
          [Sample.file .sequence .closed 3 [("a", ⟨3, 4⟩)],
            Sample.file .unsequence .closed 5 [("a", ⟨1, 1⟩)],
            Sample.file .sequence .closed 6 [("a", ⟨1, 2⟩)]] := by
  rcases stopped_finish_recovers Sample.finishable_merging with
    ⟨removed, later, finishing, _, _, recovers⟩
  have removed_eq : Sample.gone = removed := by
    have returned := Sample.run_finishing.1
    rw [finishing] at returned
    exact (Option.some.inj returned).symm
  have back : comingBack (Sample.merging.store.registry.snapshot Sample.key).partition [2, 5]
      Sample.merged 2 =
        [Sample.file .sequence .closed 3 [("a", ⟨3, 4⟩)],
          Sample.file .unsequence .closed 5 [("a", ⟨1, 1⟩)],
          Sample.file .sequence .closed 6 [("a", ⟨1, 2⟩)]] := by
    rw [Sample.run_merging.2.2.2]
    decide +kernel
  have stops := Sample.stops_cut
  rw [removed_eq] at stops
  rcases recovers 2 Sample.cut stops with ⟨recovered, outcome, perm, _⟩
  rw [back] at perm
  exact ⟨Sample.finishable_merging, Sample.stops_cut, recovered, outcome, perm⟩

/-- A registered file that has been handed in as deleted does not come back, although it is no
member of the group. -/
theorem deleted_file_does_not_come_back :
    Finishable Sample.layout Sample.merging.store Sample.key [2, 5] Sample.merged ∧
      (Sample.merging.store.registry.snapshot Sample.key).partition.contains 4 ∧
      ∃ recovered,
        Sample.layout.recover (leftBehind (finishAndPersist Sample.layout Sample.key [2, 5]
          Sample.merged Sample.merging.store)).disk = .ok recovered ∧
        (recovered.snapshot Sample.key).partition.contains 4 = false := by
  have finishing := Sample.eq_ok_of_returned? Sample.run_finishing.1
  rcases Layout.stops_persistAll Sample.layout Sample.key
    (Sample.layout.finishedSidecars Sample.key Sample.merged Sample.gone)
    Sample.merging.store.disk with ⟨count, stops⟩
  rw [← disk_finishAndPersist finishing] at stops
  rcases Sample.finishable_merging.recover_of_stops finishing stops with
    ⟨recovered, outcome, perm⟩
  have partition_eq := Sample.run_merging.2.2.2
  refine ⟨Sample.finishable_merging, ?_, recovered, outcome, ?_⟩
  · rw [partition_eq]
    decide +kernel
  · rw [← Bool.not_eq_true, Partition.contains_iff]
    rintro ⟨kept, member, four⟩
    rw [perm.mem_iff, comingBack, List.mem_filterMap] at member
    rcases member with ⟨file, origin, back⟩
    rw [(samePlace_of_comesBack? back).id] at four
    have candidates : file ∈ (Sample.merging.store.registry.snapshot Sample.key).partition.files ++
        Sample.merged :=
      ((List.filter_sublist.append (List.take_sublist _ _)).subset origin)
    rw [partition_eq] at candidates
    have dropped : ∀ file ∈ Sample.underway.files ++ Sample.merged,
        file.id = 4 → comesBack? file = none := by
      decide +kernel
    rw [dropped file candidates four] at back
    contradiction

end Store

end SeriesStore
