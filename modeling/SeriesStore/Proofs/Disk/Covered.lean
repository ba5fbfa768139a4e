import SeriesStore.Proofs.Disk.Afterwards
import SeriesStore.Proofs.Disk.Mirror
import SeriesStore.Proofs.Sidecar.Spelling

/-!
# Partitions that are covered

The sidecars of a tree cover a partition when each registered file has a sidecar that brings
back what the file itself would, and no other sidecar in the directories of the partition
brings anything back.  The tree need not be tidy: there may be sidecars of deleted files,
files that are no sidecars, and whatever else.

When sidecars are written into such a tree, what comes back afterwards are the registered
files whose sidecars have not been written over, and the files that were written.
-/

namespace SeriesStore.Disk

open SeriesStore.Disk.Path (Plain isImpossible)
open Sidecar (Storable content)

/-- The sidecars of a tree bring back a partition: its files, whenever they have been saved
since their spans last changed, and nothing else. -/
structure Layout.Covers (layout : Layout) (tree : Tree) (key : PartitionKey)
    (partition : Partition) : Prop where
  saved : ∀ file ∈ partition.files, ∃ stored,
    tree.readSidecar (layout.sidecarPath key file) = .ok stored ∧
      revived? stored = comesBack? file
  others : ∀ space sidecars, layout.listSidecars tree space key = .ok sidecars →
    ∀ sidecar ∈ sidecars, ∀ kept, restoredAt? tree sidecar.2 = some kept →
      ∃ file ∈ partition.files, sidecar.2 = layout.sidecarPath key file

namespace Layout

variable {layout : Layout} {root : Location} {tree after : Tree} {key : PartitionKey}
  {partition : Partition} {file : DataFile}

theorem Covers.readSidecar (covers : layout.Covers tree key partition) :
    ∀ file ∈ partition.files, ∃ stored,
      tree.readSidecar (layout.sidecarPath key file) = .ok stored := by
  intro file member
  rcases covers.saved file member with ⟨stored, reading, _⟩
  exact ⟨stored, reading⟩

/-- A sidecar that is read stands below the root. -/
theorem rooted_of_readSidecar (wellFormed : tree.WellFormed) (plain : Plain key.group)
    {stored : DataFile} (reading : tree.readSidecar (layout.sidecarPath key file) = .ok stored) :
    ∃ root, Rooted layout root tree ∧ ∃ bytes, Sidecar.decode bytes = .ok stored ∧
      layout.HasSidecar tree file.space key (FileName.ofFile file, layout.sidecarPath key file)
        (FileName.ofFile file).sidecarName bytes := by
  rw [Tree.readSidecar, Tree.read] at reading
  split at reading
  · contradiction
  rename_i bytes outcome
  split at outcome
  · contradiction
  rename_i location found
  split at outcome
  · contradiction
  · contradiction
  rename_i content standing
  cases outcome
  rcases Tree.fileAt_join_eq_ok (Path.plain_sidecarName _) found with
    ⟨possible, parent, entered, rfl⟩
  rw [← sidecarPath] at possible
  rw [steps_partitionDirectory layout file.space plain, Tree.enter_append] at entered
  split at entered
  · contradiction
  rename_i root reached
  have place := Tree.eq_of_enter (plain_partitionPlace plain) entered
  subst place
  have rooted : Rooted layout root tree := ⟨wellFormed, reached⟩
  rw [List.append_assoc, ← sidecarPlace] at standing
  exact ⟨root, rooted, bytes, reading,
    (rooted.hasSidecar_ofFile_iff plain file bytes).mpr ⟨standing, possible⟩⟩

/-- The partition of a sidecar that stands is listed. -/
theorem mem_keys_of_hasSidecar (rooted : Rooted layout root tree) (plain : Plain key.group)
    {space : Space} {sidecar : FileName × String} {name : String} {bytes : List UInt8}
    (has : layout.HasSidecar tree space key sidecar name bytes) {earlier : Registry}
    (recovers : layout.recover tree = .ok earlier) : key ∈ earlier.keys := by
  rcases recoverable_of_recover recovers with ⟨keys, listed, _⟩
  rw [(described_of_recover listed recovers).1, mem_listPartitions listed]
  rcases (rooted.hasSidecar_iff plain).mp has with ⟨standing, path_eq, possible, _, _⟩
  rw [← List.append_assoc] at standing
  rcases rooted.wellFormed.inOrder standing with ⟨parent, named, _⟩
  refine ⟨space, Text.writeInt key.slot.toInt, rooted.hasPartition_iff _ |>.mpr ⟨parent, ?_, ?_⟩⟩
  · rw [path_eq] at possible
    exact Path.isImpossible_of_join named.head?_ne possible
  · exact Text.readInt64?_writeInt key.slot

/-- Where registered files have sidecars, the root is there and their partition is listed. -/
theorem rooted_of_sidecars (wellFormed : tree.WellFormed) (plain : Plain key.group)
    {earlier : Registry} (recovers : layout.recover tree = .ok earlier)
    (registered : partition.files ≠ [])
    (sidecars : ∀ file ∈ partition.files, ∃ stored,
      tree.readSidecar (layout.sidecarPath key file) = .ok stored) :
    ∃ root, Rooted layout root tree ∧ key ∈ earlier.keys := by
  rcases List.exists_mem_of_ne_nil _ registered with ⟨file, isRegistered⟩
  rcases sidecars file isRegistered with ⟨stored, reading⟩
  rcases rooted_of_readSidecar wellFormed plain reading with ⟨root, rooted, _, _, has⟩
  exact ⟨root, rooted, mem_keys_of_hasSidecar rooted plain has recovers⟩

section Covered

variable (rooted : Rooted layout root tree) (plain : Plain key.group)
  (covers : layout.Covers tree key partition)

include rooted plain covers

theorem Covers.hasSidecar (member : file ∈ partition.files) :
    ∃ bytes stored, Sidecar.decode bytes = .ok stored ∧ revived? stored = comesBack? file ∧
      layout.HasSidecar tree file.space key (FileName.ofFile file, layout.sidecarPath key file)
        (FileName.ofFile file).sidecarName bytes := by
  rcases covers.saved file member with ⟨stored, reading, back⟩
  rcases rooted_of_readSidecar rooted.wellFormed plain reading with ⟨_, _, bytes, decoded, has⟩
  exact ⟨bytes, stored, decoded, back, has⟩

/-- A sidecar that brings a file back is that of a registered file. -/
theorem Covers.eq_of_restoredAt? {space : Space} {sidecar : FileName × String} {name : String}
    {bytes : List UInt8} (has : layout.HasSidecar tree space key sidecar name bytes)
    (listed : ∃ sidecars, layout.listSidecars tree space key = .ok sidecars) {kept : DataFile}
    (back : restoredAt? tree sidecar.2 = some kept) :
    ∃ file ∈ partition.files, comesBack? file = some kept ∧
      partitionPlace space key ++ [name] = sidecarPlace key file ∧
      sidecar = (FileName.ofFile file, layout.sidecarPath key file) := by
  rcases listed with ⟨sidecars, listed⟩
  have member := (mem_listSidecars listed sidecar).mpr ⟨name, bytes, has⟩
  rcases covers.others space sidecars listed sidecar member kept back with ⟨file, registered, path⟩
  rcases covers.saved file registered with ⟨stored, reading, same⟩
  rw [path, restoredAt?, reading] at back
  exact ⟨file, registered, same.symm.trans back, rooted.eq_ofFile_of_path plain has path⟩

/-- A registered file that comes back from its sidecar can be written to one again. -/
theorem Covers.storable (member : file ∈ partition.files) (returns : comesBack? file ≠ none) :
    Storable file := by
  rcases Option.ne_none_iff_exists'.mp returns with ⟨kept, own⟩
  rcases covers.saved file member with ⟨stored, reading, same⟩
  rcases rooted_of_readSidecar rooted.wellFormed plain reading with ⟨_, _, bytes, decoded, _⟩
  rw [own] at same
  apply Storable.of_raised
  apply (Sidecar.storable_of_decode decoded).of_devices
  rw [← devices_of_revived? own, devices_of_revived? same]

end Covered

/-! ## Writing over a covered partition -/

section Written

variable {files staying : List DataFile} (rooted : Rooted layout root tree)
  (plain : Plain key.group) (covers : layout.Covers tree key partition)
  (before : layout.Recoverable tree key) (saved : Saved layout root key files tree after)
  (storable : ∀ file ∈ files, Storable file)
  (stays : ∀ file, file ∈ staying ↔
    file ∈ partition.files ∧ ∀ written ∈ files, ¬ written.SamePlace file)

include rooted plain saved

theorem readSidecar_written_eq_ok_iff (member : file ∈ files) (restored : DataFile) :
    after.readSidecar (layout.sidecarPath key file) = .ok restored ↔
      file.devices.size < 2 ^ 32 ∧ restored = file.raised := by
  have has := hasSidecar_written rooted plain saved member
  have reading := has.readSidecar (saved.confined.rooted rooted).wellFormed
  dsimp only at reading
  have names := ((Sidecar.encode_eq_ok_iff file _).mp (saved.encoded file member)).1
  rw [reading, Sidecar.decode_content_eq_ok_iff names]

include storable in
theorem readSidecar_written (member : file ∈ files) :
    after.readSidecar (layout.sidecarPath key file) = .ok file.raised := by
  rw [readSidecar_written_eq_ok_iff rooted plain saved member]
  exact ⟨(storable file member).few, rfl⟩

include before

/-- All sidecars are in place after the writing, as long as the directories can be looked
into and none of the files has too many devices. -/
theorem Recoverable.allInPlace_after
    (listable : ∀ space, after.Listable (layout.partitionDirectory space key))
    (few : ∀ file ∈ files, file.devices.size < 2 ^ 32) (space : Space) :
    layout.AllInPlace after key space := by
  have afterRooted := saved.confined.rooted rooted
  rcases exists_listSidecars (listable space) with ⟨sidecars, listed⟩
  refine ⟨sidecars, listed, fun sidecar member => ?_⟩
  rcases (mem_listSidecars listed sidecar).mp member with ⟨name, bytes, has⟩
  rcases hasSidecar_cases rooted plain saved has with
    ⟨file, isWritten, sameSpace, _, sameSidecar⟩ | ⟨stood, _⟩
  · have reading := (readSidecar_written_eq_ok_iff rooted plain saved isWritten _).mpr
      ⟨few file isWritten, rfl⟩
    rw [InPlace, sameSidecar]
    dsimp only
    exact ⟨_, reading, sameSpace.symm, rfl⟩
  · rcases before.inPlace space with ⟨others, wasListed, inPlace⟩
    have stays := inPlace sidecar ((mem_listSidecars wasListed sidecar).mpr ⟨name, bytes, stood⟩)
    rw [InPlace, stood.readSidecar rooted.wellFormed] at stays
    rw [InPlace, has.readSidecar afterRooted.wellFormed]
    exact stays

include covers stays storable

/-- What comes back after the writing comes from a registered file that has not been written
over, or from a file that was written. -/
theorem Covers.eq_of_restoredAt?_after {space : Space} {sidecar : FileName × String}
    {name : String} {bytes : List UInt8}
    (has : layout.HasSidecar after space key sidecar name bytes) {kept : DataFile}
    (back : restoredAt? after sidecar.2 = some kept) :
    ∃ file ∈ staying ++ files, comesBack? file = some kept ∧
      sidecar = (FileName.ofFile file, layout.sidecarPath key file) := by
  have afterRooted := saved.confined.rooted rooted
  rcases hasSidecar_cases rooted plain saved has with
    ⟨file, isWritten, _, _, sameSidecar⟩ | ⟨stood, away⟩
  · rw [sameSidecar] at back
    dsimp only at back
    rw [restoredAt?, readSidecar_written rooted plain saved storable isWritten] at back
    exact ⟨file, List.mem_append_right _ isWritten, back, sameSidecar⟩
  · rw [has.restoredAt?_eq_some_iff afterRooted.wellFormed,
      ← stood.restoredAt?_eq_some_iff rooted.wellFormed] at back
    have listed := (before.inPlace space).exists_listed
    rcases covers.eq_of_restoredAt? rooted plain stood listed back with
      ⟨file, registered, own, place, sameSidecar⟩
    have untouched : ∀ written ∈ files, ¬ written.SamePlace file := by
      intro written isWritten same
      apply away written isWritten
      rw [place, sidecarPlace_eq_iff]
      exact ⟨rfl, same.symm⟩
    exact ⟨file, List.mem_append_left _ ((stays file).mpr ⟨registered, untouched⟩), own,
      sameSidecar⟩

omit before in
theorem Covers.exists_restoredAt?_after (member : file ∈ staying ++ files) {kept : DataFile}
    (own : comesBack? file = some kept) :
    ∃ sidecar name bytes, layout.HasSidecar after file.space key sidecar name bytes ∧
      restoredAt? after sidecar.2 = some kept := by
  rcases List.mem_append.mp member with isStaying | isWritten
  · rcases (stays file).mp isStaying with ⟨registered, untouched⟩
    rcases covers.hasSidecar rooted plain registered with ⟨bytes, stored, decoded, same, stood⟩
    have away : ∀ written ∈ files, partitionPlace file.space key ++
        [(FileName.ofFile file).sidecarName] ≠ sidecarPlace key written := by
      intro written isWritten place
      exact untouched written isWritten (sidecarPlace_eq_iff.mp place.symm).2
    have has := (hasSidecar_unwritten_iff rooted plain saved away).mpr stood
    refine ⟨_, _, _, has, ?_⟩
    rw [has.restoredAt?_eq_some_iff (saved.confined.rooted rooted).wellFormed]
    exact ⟨stored, decoded, same.trans own⟩
  · refine ⟨_, _, _, hasSidecar_written rooted plain saved isWritten, ?_⟩
    dsimp only
    rw [restoredAt?, readSidecar_written rooted plain saved storable isWritten]
    exact own

/-- A covered partition stays recoverable when sidecars are written, as long as no number comes
back twice.  What comes back are the files that have not been written over and those that were
written. -/
theorem Covers.recoverable_after
    (listable : ∀ space, after.Listable (layout.partitionDirectory space key))
    (valid : ∀ file ∈ staying ++ files, comesBack? file ≠ none → file.Valid)
    (distinct : (((staying ++ files).filterMap comesBack?).map DataFile.id).Nodup) :
    layout.Recoverable after key ∧
      (layout.restored after key).Perm ((staying ++ files).filterMap comesBack?) := by
  have inPlace := before.allInPlace_after rooted plain saved listable fun file member =>
    (storable file member).few
  have listed := fun space => (inPlace space).exists_listed
  have members : ∀ kept, kept ∈ layout.restored after key ↔
      kept ∈ (staying ++ files).filterMap comesBack? := by
    intro kept
    rw [Layout.restored, List.mem_flatMap, List.mem_filterMap]
    constructor
    · rintro ⟨space, _, isRestored⟩
      rcases (mem_restoredIn_iff (listed space) kept).mp isRestored with
        ⟨sidecar, name, bytes, has, back⟩
      rcases covers.eq_of_restoredAt?_after rooted plain before saved storable stays has back with
        ⟨file, member, own, _⟩
      exact ⟨file, member, own⟩
    · rintro ⟨file, member, own⟩
      refine ⟨file.space, by cases file.space <;> decide, ?_⟩
      rw [mem_restoredIn_iff (listed file.space)]
      exact covers.exists_restoredAt?_after rooted plain saved storable stays member own
  have restoredDistinct : ((layout.restored after key).map DataFile.id).Nodup := by
    apply distinct_restored (saved.confined.rooted rooted).wellFormed inPlace
    intro first second _ _ _ _ _ _ firstHas secondHas firstKept secondKept firstBack secondBack ids
    rcases covers.eq_of_restoredAt?_after rooted plain before saved storable stays firstHas
      firstBack with ⟨firstFile, firstMember, firstOwn, firstSidecar⟩
    rcases covers.eq_of_restoredAt?_after rooted plain before saved storable stays secondHas
      secondBack with ⟨secondFile, secondMember, secondOwn, secondSidecar⟩
    have sameKept := List.inj_on_of_nodup_map distinct
      (List.mem_filterMap.mpr ⟨firstFile, firstMember, firstOwn⟩)
      (List.mem_filterMap.mpr ⟨secondFile, secondMember, secondOwn⟩) ids
    subst sameKept
    have place := (samePlace_of_comesBack? firstOwn).trans (samePlace_of_comesBack? secondOwn).symm
    rw [firstSidecar, secondSidecar, Layout.sidecarPath, Layout.sidecarPath, place.space,
      place.name]
  constructor
  · constructor
    case inPlace => exact inPlace
    case validated =>
      intro kept isRestored
      rcases List.mem_filterMap.mp ((members kept).mp isRestored) with ⟨file, member, own⟩
      exact kept.validate_eq_ok_iff.mpr
        (valid_of_comesBack? own (valid file member (by simp [own])))
    case distinct => exact restoredDistinct
  · exact (List.perm_ext_iff_of_nodup restoredDistinct.of_map distinct.of_map).mpr members

end Written

end Layout

end SeriesStore.Disk
