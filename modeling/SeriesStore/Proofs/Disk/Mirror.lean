import SeriesStore.Proofs.Disk.Standing

/-!
# Trees that mirror a registry

A tree shows some partitions when its sidecars bring back what their files would bring back,
and nothing else.  When the partitions are sound, recovery from a tidy tree that shows them
succeeds: no file comes back twice, since no number is held twice, and every file that comes
back is well formed, since every file that is held is.  It yields the files with their claims
dropped and their growing spans raised.

A tree mirrors a registry when it shows the partitions of the registry, which are sound.
-/

namespace SeriesStore.Disk

/-- Files as they come back, by ordering key and number. -/
def restoredFiles (files : List DataFile) : List DataFile :=
  (files.filterMap comesBack?).mergeSort DataFile.comesFirst

/-- A partition as it comes back. -/
def restoredPartition (partition : Partition) : Partition where
  sequence := restoredFiles partition.sequence
  unsequence := restoredFiles partition.unsequence

/-- Whether the sidecars in a tree bring back what the files of some partitions would bring
back, and nothing else. -/
def Shows (root : Location) (tree : Tree) (held : PartitionKey → Partition) : Prop :=
  ∀ key kept, Returns root tree key kept ↔
    ∃ file ∈ (held key).files, comesBack? file = some kept

/-- Whether the sidecars in a tree bring back the registered files and no others. -/
def Mirrors (root : Location) (tree : Tree) (registry : Registry) : Prop :=
  ∀ key kept, Returns root tree key kept ↔
    ∃ file ∈ (registry.snapshot key).partition.files, comesBack? file = some kept

theorem distinct_filterMap_comesBack? {files : List DataFile}
    (distinct : (files.map DataFile.id).Nodup) :
    ((files.filterMap comesBack?).map DataFile.id).Nodup := by
  rw [List.Nodup, List.pairwise_map] at distinct ⊢
  rw [List.pairwise_filterMap]
  apply distinct.imp
  intro first second differ firstKept firstBack secondKept secondBack same
  rw [(samePlace_of_comesBack? firstBack).id, (samePlace_of_comesBack? secondBack).id] at same
  exact differ same

/-- When no file is deleted, all numbers come back, sorted as the files are. -/
theorem map_id_restoredFiles {files : List DataFile}
    (alive : ∀ file ∈ files, file.status ≠ .deleted) :
    (restoredFiles files).map DataFile.id =
      (files.mergeSort DataFile.comesFirst).map DataFile.id := by
  have restored {file : DataFile} (member : file ∈ files) :
      comesBack? file = some file.raised.unclaimed :=
    comesBack?_of_alive (alive file member)
  have restoredFiles_eq : restoredFiles files =
      (files.mergeSort DataFile.comesFirst).map fun file => file.raised.unclaimed := by
    rw [restoredFiles, List.filterMap_congr fun file member => restored member,
      List.filterMap_eq_map', List.map_mergeSort]
    intro first firstMember second secondMember
    have firstName := (samePlace_of_comesBack? (restored firstMember)).name
    have secondName := (samePlace_of_comesBack? (restored secondMember)).name
    rw [FileName.ofFile, FileName.ofFile, FileName.mk.injEq] at firstName secondName
    rw [DataFile.comesFirst, DataFile.comesFirst, firstName.1, firstName.2.1, secondName.1,
      secondName.2.1]
  rw [restoredFiles_eq, List.map_map]
  apply List.map_congr_left
  intro file member
  exact (samePlace_of_comesBack? (restored (List.mem_mergeSort.mp member))).id

/-- Files that are neither claimed nor deleted and whose spans are in order come back as they
are. -/
theorem restoredFiles_of_unclaimed {files : List DataFile}
    (alive : ∀ file ∈ files, file.status ≠ .deleted)
    (unclaimed : ∀ file ∈ files, file.status.isClaimed = false)
    (spans : ∀ file ∈ files, file.SpansWellFormed) :
    restoredFiles files = files.mergeSort DataFile.comesFirst := by
  have restored {file : DataFile} (member : file ∈ files) : comesBack? file = some file := by
    rw [comesBack?_of_spans (spans file member), revived?_of_alive (alive file member),
      file.unclaimed_eq (unclaimed file member)]
  rw [restoredFiles, List.filterMap_congr fun file member => restored member, List.filterMap_some]

theorem restoredPartition_of_unclaimed {partition : Partition}
    (alive : ∀ file ∈ partition.files, file.status ≠ .deleted)
    (unclaimed : ∀ file ∈ partition.files, file.status.isClaimed = false)
    (spans : ∀ file ∈ partition.files, file.SpansWellFormed) :
    restoredPartition partition =
      ⟨partition.sequence.mergeSort DataFile.comesFirst,
        partition.unsequence.mergeSort DataFile.comesFirst⟩ := by
  have inSequence := partition.sequence_subset_files
  have inUnsequence := partition.unsequence_subset_files
  rw [restoredPartition,
    restoredFiles_of_unclaimed (fun file member => alive file (inSequence member))
      (fun file member => unclaimed file (inSequence member))
      fun file member => spans file (inSequence member),
    restoredFiles_of_unclaimed (fun file member => alive file (inUnsequence member))
      (fun file member => unclaimed file (inUnsequence member))
      fun file member => spans file (inUnsequence member)]

/-- A partition comes back with the files that come back. -/
theorem files_restoredPartition_perm (partition : Partition) :
    (restoredPartition partition).files.Perm (partition.files.filterMap comesBack?) := by
  rw [Partition.files, Partition.files, List.filterMap_append]
  exact (List.mergeSort_perm _ _).append (List.mergeSort_perm _ _)

theorem restoredPartition_eq_empty {partition : Partition}
    (nothing : ∀ file ∈ partition.files, comesBack? file = none) :
    restoredPartition partition = .empty := by
  have perm := files_restoredPartition_perm partition
  rw [List.filterMap_eq_nil_iff.mpr nothing, List.perm_nil, Partition.files,
    List.append_eq_nil_iff] at perm
  rw [Partition.empty, Partition.mk.injEq]
  exact perm

namespace Layout

variable {layout : Layout} {tree : Tree} {key : PartitionKey} {partition : Partition}

/-- When what comes back comes in order, a recovered partition has it in that order. -/
theorem Describes.eq_restoredIn (described : layout.Describes tree key partition)
    (sorted : (layout.restoredIn tree key .sequence).Pairwise fun first second =>
      first.orderingKey ≤ second.orderingKey) :
    partition = ⟨layout.restoredIn tree key .sequence, layout.restoredIn tree key .unsequence⟩ := by
  rcases described with ⟨inPlace, _, rfl⟩
  have bySpace := ofSpace_restored inPlace
  have sequence := Partition.sequence_insertAll .empty (layout.restored tree key)
  have unsequence := Partition.unsequence_insertAll .empty (layout.restored tree key)
  rw [bySpace] at sequence unsequence
  rw [Partition.mk.injEq]
  exact ⟨sequence sorted, unsequence⟩

end Layout

section Shown

variable {layout : Layout} {root : Location} {tree : Tree} {held : PartitionKey → Partition}
  (shown : Shows root tree held) (sound : ∀ key, (held key).Sound)

include shown sound

/-- No number comes back twice. -/
theorem Shows.eq_of_id {key : PartitionKey} {first second : DataFile}
    (firstBack : Returns root tree key first) (secondBack : Returns root tree key second)
    (same : first.id = second.id) : first = second := by
  rcases (shown key first).mp firstBack with ⟨firstFile, firstMember, firstRestored⟩
  rcases (shown key second).mp secondBack with ⟨secondFile, secondMember, secondRestored⟩
  have ids : firstFile.id = secondFile.id := by
    rw [← (samePlace_of_comesBack? firstRestored).id, same,
      (samePlace_of_comesBack? secondRestored).id]
  have files := List.inj_on_of_nodup_map (sound key).distinct firstMember secondMember ids
  rw [files, secondRestored] at firstRestored
  exact (Option.some.inj firstRestored).symm

variable (tidy : Tidy layout root tree) (roomy : layout.Roomy) {key : PartitionKey}

include tidy roomy

/-- What comes back in one space are the files that are held in that space. -/
theorem Shows.restoredIn_eq (housed : Housed key.group) {space : Space} {files : List DataFile}
    (own : ∀ file, file ∈ files ↔ file ∈ (held key).files ∧ file.space = space)
    (distinct : (files.map DataFile.id).Nodup) :
    layout.restoredIn tree key space = restoredFiles files := by
  apply DataFile.eq_mergeSort
  · exact tidy.pairwise_restoredIn roomy housed
      (fun _ _ first second => shown.eq_of_id sound first second) space
  · exact distinct_filterMap_comesBack? distinct
  · intro kept
    rw [tidy.mem_restoredIn_iff roomy housed, shown, List.mem_filterMap]
    constructor
    · rintro ⟨⟨file, member, restored⟩, fits⟩
      have fileFits := (samePlace_of_comesBack? restored).space.symm.trans fits
      exact ⟨file, (own file).mpr ⟨member, fileFits⟩, restored⟩
    · rintro ⟨file, member, restored⟩
      rcases (own file).mp member with ⟨isHeld, fits⟩
      exact ⟨⟨file, isHeld, restored⟩, (samePlace_of_comesBack? restored).space.trans fits⟩

theorem Shows.restoredPartition_eq (housed : Housed key.group) :
    restoredPartition (held key) =
      ⟨layout.restoredIn tree key .sequence, layout.restoredIn tree key .unsequence⟩ := by
  have distinct := (sound key).distinct
  rw [Partition.files, List.map_append, List.nodup_append] at distinct
  rw [restoredPartition, Partition.mk.injEq]
  constructor
  · exact (shown.restoredIn_eq sound tidy roomy housed (sound key).mem_sequence_iff
      distinct.1).symm
  · exact (shown.restoredIn_eq sound tidy roomy housed (sound key).mem_unsequence_iff
      distinct.2.1).symm

theorem Shows.recoverable (housed : Housed key.group) : layout.Recoverable tree key := by
  have restored_eq : layout.restored tree key = (restoredPartition (held key)).files := by
    rw [shown.restoredPartition_eq sound tidy roomy housed, Partition.files,
      Layout.restored_eq_append]
  have perm := files_restoredPartition_perm (held key)
  rw [← restored_eq] at perm
  constructor
  case inPlace => exact tidy.allInPlace roomy housed
  case validated =>
    intro kept member
    rcases List.mem_filterMap.mp (perm.mem_iff.mp member) with ⟨file, isHeld, restored⟩
    have valid := file.validate_eq_ok_iff.mp ((sound key).validated file isHeld)
    exact kept.validate_eq_ok_iff.mpr (valid_of_comesBack? restored valid)
  case distinct =>
    exact (perm.map DataFile.id).nodup_iff.mpr (distinct_filterMap_comesBack? (sound key).distinct)

/-- Recovery from a tidy tree brings back what its sidecars show, without claims and without
deleted files, with the growing spans raised and each list by ordering key and number. -/
theorem Shows.recover_eq_ok :
    ∃ recovered, layout.recover tree = .ok recovered ∧
      ∀ key, (recovered.snapshot key).partition = restoredPartition (held key) := by
  rcases Layout.exists_listPartitions (tidy.listable roomy) with ⟨keys, listed⟩
  have described : ∀ key ∈ keys, ∃ partition, layout.Describes tree key partition := by
    intro key member
    rw [Layout.exists_describes_iff]
    exact shown.recoverable sound tidy roomy (tidy.housed_of_mem roomy listed member)
  rcases (Layout.exists_recover_iff listed).mpr described with ⟨recovered, outcome⟩
  rcases Layout.described_of_recover listed outcome with ⟨keys_eq, partitions⟩
  refine ⟨recovered, outcome, fun key => ?_⟩
  by_cases member : key ∈ keys
  · have housed := tidy.housed_of_mem roomy listed member
    rcases partitions key member with ⟨partition, present, own⟩
    have back := shown.restoredPartition_eq sound tidy roomy housed
    have sorted := tidy.pairwise_restoredIn roomy housed
      (fun _ _ first second => shown.eq_of_id sound first second) .sequence
    rw [Registry.partition_snapshot present, back]
    exact own.eq_restoredIn (sorted.imp DataFile.SortsBefore.orderingKey_le)
  · have unlisted : recovered.partition? key = none := by
      rw [Option.eq_none_iff_forall_ne_some]
      intro partition present
      rw [← keys_eq, Registry.keys, SortedMap.mem_keys_iff] at member
      exact member ⟨partition, present⟩
    have nothing : ∀ file ∈ (held key).files, comesBack? file = none := by
      intro file isHeld
      rw [Option.eq_none_iff_forall_ne_some]
      intro kept restored
      rcases (shown key kept).mpr ⟨file, isHeld, restored⟩ with ⟨stored, stands, _⟩
      exact member (tidy.mem_of_stands roomy stands listed)
    rw [Registry.snapshot, unlisted]
    exact (restoredPartition_eq_empty nothing).symm

end Shown

/-- Recovery from a tidy tree that mirrors a registry brings the registry back without its
claims and without its deleted files, and with its growing spans raised. -/
theorem Mirrors.recover_eq_ok {layout : Layout} {root : Location} {tree : Tree}
    {registry : Registry} (mirrors : Mirrors root tree registry) (reachable : registry.Reachable)
    (tidy : Tidy layout root tree) (roomy : layout.Roomy) :
    ∃ recovered, layout.recover tree = .ok recovered ∧
      ∀ key, (recovered.snapshot key).partition =
        restoredPartition (registry.snapshot key).partition := by
  have shown : Shows root tree fun key => (registry.snapshot key).partition := mirrors
  exact shown.recover_eq_ok reachable.sound tidy roomy

end SeriesStore.Disk
