import SeriesStore.Proofs.Disk.Covered

/-!
# Numbers that come back twice

Sidecars that are written into a tree may bring back numbers that come back from other places
already.  Then the partition is not recoverable until those places have been written over, too.
There are no other reasons, except that the number of devices of a file has to fit its four
bytes.
-/

namespace SeriesStore.Disk

open SeriesStore.Disk.Path (Plain)
open Sidecar (content)

namespace Layout

/-- Whether a number comes back from a path in the directories of a partition. -/
def BringsBack (layout : Layout) (tree : Tree) (key : PartitionKey) (id : FileId)
    (path : String) : Prop :=
  ∃ space sidecars name, layout.listSidecars tree space key = .ok sidecars ∧
    (name, path) ∈ sidecars ∧ ∃ kept, restoredAt? tree path = some kept ∧ kept.id = id

/-- Whether recovery accepts the sidecars of some files on top of what stands: each of them can be
read, and every place from which a number of theirs came back before is written over, too. -/
def Compatible (layout : Layout) (tree : Tree) (key : PartitionKey) (files : List DataFile) :
    Prop :=
  ∀ file ∈ files, file.devices.size < 2 ^ 32 ∧
    (file.status ≠ .deleted → ∀ path, layout.BringsBack tree key file.id path →
      ∃ written ∈ files, path = layout.sidecarPath key written)

variable {layout : Layout} {root : Location} {tree after : Tree} {key : PartitionKey}
  {partition : Partition} {files : List DataFile} {file : DataFile} {id : FileId} {path : String}

theorem bringsBack_iff
    (listed : ∀ space, ∃ sidecars, layout.listSidecars tree space key = .ok sidecars) :
    layout.BringsBack tree key id path ↔
      ∃ space own name bytes, layout.HasSidecar tree space key (own, path) name bytes ∧
        ∃ kept, restoredAt? tree path = some kept ∧ kept.id = id := by
  constructor
  · rintro ⟨space, sidecars, own, ownListed, member, rest⟩
    rcases (mem_listSidecars ownListed _).mp member with ⟨name, bytes, has⟩
    exact ⟨space, own, name, bytes, has, rest⟩
  · rintro ⟨space, own, name, bytes, has, rest⟩
    rcases listed space with ⟨sidecars, ownListed⟩
    exact ⟨space, sidecars, own, ownListed,
      (mem_listSidecars ownListed _).mpr ⟨name, bytes, has⟩, rest⟩

/-- In a recoverable partition no two sidecars bring back the same number. -/
theorem Recoverable.eq_of_id (recoverable : layout.Recoverable tree key)
    {firstSpace secondSpace : Space} {first second : FileName × String} {name other : String}
    {bytes more : List UInt8} (firstHas : layout.HasSidecar tree firstSpace key first name bytes)
    (secondHas : layout.HasSidecar tree secondSpace key second other more)
    {firstKept secondKept : DataFile} (firstBack : restoredAt? tree first.2 = some firstKept)
    (secondBack : restoredAt? tree second.2 = some secondKept)
    (ids : firstKept.id = secondKept.id) : first = second := by
  choose sidecars listed using fun space => (recoverable.inPlace space).exists_listed
  have restored_eq : layout.restored tree key =
      (Space.all.flatMap sidecars).filterMap fun sidecar => restoredAt? tree sidecar.2 := by
    rw [restored, List.filterMap_flatMap]
    exact List.flatMap_congr fun space _ => restoredIn_eq (listed space)
  have apart := recoverable.distinct
  rw [restored_eq, List.Nodup, List.pairwise_map, List.pairwise_filterMap] at apart
  have isListed : ∀ {space sidecar name bytes},
      layout.HasSidecar tree space key sidecar name bytes →
        sidecar ∈ Space.all.flatMap sidecars := by
    intro space sidecar name bytes has
    exact List.mem_flatMap.mpr ⟨space, by cases space <;> decide,
      (mem_listSidecars (listed space) sidecar).mpr ⟨name, bytes, has⟩⟩
  have : Std.Symm fun first second : FileName × String =>
      ∀ kept, restoredAt? tree first.2 = some kept →
        ∀ other, restoredAt? tree second.2 = some other → kept.id ≠ other.id :=
    ⟨fun _ _ apart kept back other otherBack same => apart other otherBack kept back same.symm⟩
  by_contra differ
  exact apart.forall (isListed firstHas) (isListed secondHas) differ _ firstBack _ secondBack ids

/-- The number of a file that is written is not brought back by a sidecar that stays. -/
theorem Compatible.id_ne (compatible : layout.Compatible tree key files)
    (listed : ∀ space, ∃ sidecars, layout.listSidecars tree space key = .ok sidecars)
    (member : file ∈ files) (alive : file.status ≠ .deleted) {space : Space}
    {sidecar : FileName × String} {name : String} {bytes : List UInt8}
    (has : layout.HasSidecar tree space key sidecar name bytes) {kept : DataFile}
    (back : restoredAt? tree sidecar.2 = some kept)
    (away : ∀ file ∈ files, sidecar.2 ≠ layout.sidecarPath key file) : kept.id ≠ file.id := by
  intro sameId
  have brings : layout.BringsBack tree key file.id sidecar.2 :=
    (bringsBack_iff listed).mpr ⟨space, sidecar.1, name, bytes, has, kept, back, sameId⟩
  rcases (compatible file member).2 alive sidecar.2 brings with ⟨written, isWritten, path⟩
  exact away written isWritten path

section Written

variable (rooted : Rooted layout root tree) (plain : Plain key.group)
  (saved : Saved layout root key files tree after)

include rooted plain saved

/-- What comes back from a sidecar that was written. -/
theorem restoredAt?_written (member : file ∈ files) (few : file.devices.size < 2 ^ 32) :
    restoredAt? after (layout.sidecarPath key file) = comesBack? file := by
  rw [restoredAt?, (readSidecar_written_eq_ok_iff rooted plain saved member _).mpr ⟨few, rfl⟩,
    comesBack?]

/-- A number that comes back after the writing comes back from a sidecar that was written, or from
one that stood before and has not been written over. -/
theorem back_cases (few : ∀ file ∈ files, file.devices.size < 2 ^ 32) {space : Space}
    {sidecar : FileName × String} {name : String} {bytes : List UInt8}
    (has : layout.HasSidecar after space key sidecar name bytes) {kept : DataFile}
    (back : restoredAt? after sidecar.2 = some kept) :
    (∃ file ∈ files, file.status ≠ .deleted ∧ comesBack? file = some kept ∧
      sidecar = (FileName.ofFile file, layout.sidecarPath key file)) ∨
    layout.HasSidecar tree space key sidecar name bytes ∧
      restoredAt? tree sidecar.2 = some kept ∧
        ∀ file ∈ files, sidecar.2 ≠ layout.sidecarPath key file := by
  rcases hasSidecar_cases rooted plain saved has with
    ⟨file, isWritten, _, _, sameSidecar⟩ | ⟨stood, away⟩
  · rw [sameSidecar] at back
    dsimp only at back
    rw [restoredAt?_written rooted plain saved isWritten (few file isWritten)] at back
    exact .inl ⟨file, isWritten, comesBack?_eq_some back, back, sameSidecar⟩
  · rw [has.restoredAt?_eq_some_iff (saved.confined.rooted rooted).wellFormed,
      ← stood.restoredAt?_eq_some_iff rooted.wellFormed] at back
    refine .inr ⟨stood, back, fun file isWritten path => away file isWritten ?_⟩
    exact (rooted.eq_ofFile_of_path plain stood path).1

/-- A sidecar that stood before brings back the same number as long as it is not written over. -/
theorem stays_unwritten {space : Space} {sidecar : FileName × String} {name : String}
    {bytes : List UInt8} (has : layout.HasSidecar tree space key sidecar name bytes)
    (away : ∀ file ∈ files, sidecar.2 ≠ layout.sidecarPath key file) :
    layout.HasSidecar after space key sidecar name bytes ∧
      restoredAt? after sidecar.2 = restoredAt? tree sidecar.2 := by
  have path_eq := ((rooted.hasSidecar_iff plain).mp has).2.1
  have stays : layout.HasSidecar after space key sidecar name bytes := by
    apply (hasSidecar_unwritten_iff rooted plain saved _).mpr has
    intro file isWritten place
    rcases sidecarPlace_eq_append_iff.mp place.symm with ⟨_, rfl, rfl⟩
    exact away file isWritten path_eq
  refine ⟨stays, ?_⟩
  rw [restoredAt?, restoredAt?, has.readSidecar rooted.wellFormed,
    stays.readSidecar (saved.confined.rooted rooted).wellFormed]

/-- When a partition is recoverable after sidecars have been written, they can be read, and every
place from which one of their numbers came back before has been written over. -/
theorem Recoverable.compatible (before : layout.Recoverable tree key)
    (recoverable : layout.Recoverable after key) : layout.Compatible tree key files := by
  intro file member
  have ownHas := hasSidecar_written rooted plain saved member
  have few : file.devices.size < 2 ^ 32 := by
    rcases recoverable.inPlace file.space with ⟨sidecars, listed, inPlace⟩
    rcases inPlace _ ((mem_listSidecars listed _).mpr ⟨_, _, ownHas⟩) with ⟨restored, reading, _⟩
    dsimp only at reading
    exact ((readSidecar_written_eq_ok_iff rooted plain saved member restored).mp reading).1
  refine ⟨few, fun alive path brings => ?_⟩
  rcases (bringsBack_iff fun space => (before.inPlace space).exists_listed).mp brings with
    ⟨space, sidecar, name, bytes, has, kept, back, sameId⟩
  by_contra unwritten
  have away : ∀ written ∈ files, path ≠ layout.sidecarPath key written :=
    fun written isWritten path => unwritten ⟨written, isWritten, path⟩
  rcases stays_unwritten rooted plain saved has away with ⟨stays, same⟩
  have comesBack := comesBack?_of_alive alive
  have ownId := (samePlace_of_comesBack? comesBack).id
  have ownBack : restoredAt? after (FileName.ofFile file, layout.sidecarPath key file).2 =
      some file.raised.unclaimed := by
    dsimp only
    rw [restoredAt?_written rooted plain saved member few, comesBack]
  rw [← same] at back
  have sameSidecar := recoverable.eq_of_id stays ownHas back ownBack (sameId.trans ownId.symm)
  have samePath := congrArg Prod.snd sameSidecar
  dsimp only at samePath
  exact away file member samePath

/-- After the writing no two sidecars bring back the same number. -/
theorem Recoverable.eq_of_id_written (before : layout.Recoverable tree key)
    (differ : ∀ first ∈ files, ∀ second ∈ files, first.status ≠ .deleted →
      second.status ≠ .deleted → first.id = second.id → first = second)
    (compatible : layout.Compatible tree key files) {firstSpace secondSpace : Space}
    {first second : FileName × String} {name other : String} {bytes more : List UInt8}
    (firstHas : layout.HasSidecar after firstSpace key first name bytes)
    (secondHas : layout.HasSidecar after secondSpace key second other more)
    {firstKept secondKept : DataFile} (firstBack : restoredAt? after first.2 = some firstKept)
    (secondBack : restoredAt? after second.2 = some secondKept)
    (ids : firstKept.id = secondKept.id) : first = second := by
  have few : ∀ file ∈ files, file.devices.size < 2 ^ 32 :=
    fun file member => (compatible file member).1
  have listed := fun space => (before.inPlace space).exists_listed
  rcases back_cases rooted plain saved few firstHas firstBack with
    ⟨file, member, alive, own, firstSidecar⟩ | ⟨firstStood, firstWas, firstAway⟩
  · have fileId : firstKept.id = file.id := (samePlace_of_comesBack? own).id
    rcases back_cases rooted plain saved few secondHas secondBack with
      ⟨other, otherMember, otherAlive, otherOwn, secondSidecar⟩ | ⟨stood, was, away⟩
    · have otherId : secondKept.id = other.id := (samePlace_of_comesBack? otherOwn).id
      rw [firstSidecar, secondSidecar, differ file member other otherMember alive otherAlive
        (fileId.symm.trans (ids.trans otherId))]
    · exact absurd (ids.symm.trans fileId)
        (compatible.id_ne listed member alive stood was away)
  · rcases back_cases rooted plain saved few secondHas secondBack with
      ⟨other, otherMember, otherAlive, otherOwn, _⟩ | ⟨stood, was, _⟩
    · have otherId : secondKept.id = other.id := (samePlace_of_comesBack? otherOwn).id
      exact absurd (ids.trans otherId)
        (compatible.id_ne listed otherMember otherAlive firstStood firstWas firstAway)
    · exact before.eq_of_id firstStood stood firstWas was ids

/-- A partition stays recoverable when the sidecars that are written can be read and every place
from which one of their numbers came back before has been written over. -/
theorem Recoverable.written (before : layout.Recoverable tree key)
    (listable : ∀ space, after.Listable (layout.partitionDirectory space key))
    (valid : ∀ file ∈ files, file.status ≠ .deleted → file.Valid)
    (differ : ∀ first ∈ files, ∀ second ∈ files, first.status ≠ .deleted →
      second.status ≠ .deleted → first.id = second.id → first = second)
    (compatible : layout.Compatible tree key files) : layout.Recoverable after key := by
  have few : ∀ file ∈ files, file.devices.size < 2 ^ 32 :=
    fun file member => (compatible file member).1
  have inPlace := before.allInPlace_after rooted plain saved listable few
  constructor
  case inPlace => exact inPlace
  case validated =>
    intro kept isRestored
    rw [restored, List.mem_flatMap] at isRestored
    rcases isRestored with ⟨space, inSpaces, isRestored⟩
    rcases (mem_restoredIn_iff (inPlace space).exists_listed kept).mp isRestored with
      ⟨sidecar, name, bytes, has, back⟩
    rcases back_cases rooted plain saved few has back with
      ⟨file, member, alive, own, _⟩ | ⟨stood, wasBack, _⟩
    · exact kept.validate_eq_ok_iff.mpr
        (valid_of_comesBack? own (valid file member alive))
    · apply before.validated
      rw [restored, List.mem_flatMap]
      exact ⟨space, inSpaces,
        (mem_restoredIn_iff (before.inPlace space).exists_listed kept).mpr
          ⟨sidecar, name, bytes, stood, wasBack⟩⟩
  case distinct =>
    apply distinct_restored (saved.confined.rooted rooted).wellFormed inPlace
    intro first second _ _ _ _ _ _ firstHas secondHas _ _ firstBack secondBack ids
    exact before.eq_of_id_written rooted plain saved differ compatible firstHas secondHas firstBack
      secondBack ids

/-- A tree that could be recovered from can still be after sidecars have been written exactly when
each of them can be read and every other place from which its number came back has been written
over. -/
theorem exists_recover_written_iff {earlier : Registry}
    (recovers : layout.recover tree = .ok earlier) (listedKey : key ∈ earlier.keys)
    (valid : ∀ file ∈ files, file.status ≠ .deleted → file.Valid)
    (differ : ∀ first ∈ files, ∀ second ∈ files, first.status ≠ .deleted →
      second.status ≠ .deleted → first.id = second.id → first = second) :
    (∃ recovered, layout.recover after = .ok recovered) ↔ layout.Compatible tree key files := by
  rcases recoverable_of_recover recovers with ⟨keys, listed, recoverable⟩
  have isListed := listedKey
  rw [(described_of_recover listed recovers).1] at isListed
  have before := recoverable key isListed
  constructor
  · rintro ⟨recovered, outcome⟩
    rcases recoverable_of_recover outcome with ⟨afterKeys, afterListed, every⟩
    have own := (mem_listPartitions_after rooted saved.confined listed isListed afterListed key).mpr
      isListed
    exact before.compatible rooted plain saved (every key own)
  · intro compatible
    have listable := listable_partition_after rooted saved.confined listed recoverable isListed
    rcases recover_after rooted saved.confined recovers listedKey
      (before.written rooted plain saved listable valid differ compatible) with
      ⟨recovered, outcome, _⟩
    exact ⟨recovered, outcome⟩

end Written

/-- The numbers that come back from a covered partition are those of its files. -/
theorem Covers.bringsBack_iff (rooted : Rooted layout root tree) (plain : Plain key.group)
    (covers : layout.Covers tree key partition)
    (listed : ∀ space, ∃ sidecars, layout.listSidecars tree space key = .ok sidecars) :
    layout.BringsBack tree key id path ↔
      ∃ file ∈ partition.files, file.status ≠ .deleted ∧ file.id = id ∧
        path = layout.sidecarPath key file := by
  rw [Layout.bringsBack_iff listed]
  constructor
  · rintro ⟨space, sidecar, name, bytes, has, kept, back, rfl⟩
    rcases covers.eq_of_restoredAt? rooted plain has (listed space) back with
      ⟨file, registered, own, _, sameSidecar⟩
    have samePath := congrArg Prod.snd sameSidecar
    dsimp only at samePath
    exact ⟨file, registered, comesBack?_eq_some own, (samePlace_of_comesBack? own).id.symm,
      samePath⟩
  · rintro ⟨file, registered, alive, sameId, samePath⟩
    rw [samePath, ← sameId]
    rcases covers.hasSidecar rooted plain registered with ⟨bytes, stored, decoded, same, has⟩
    have own := comesBack?_of_alive alive
    refine ⟨file.space, _, _, bytes, has, _, ?_, (samePlace_of_comesBack? own).id⟩
    have back := (has.restoredAt?_eq_some_iff rooted.wellFormed _).mpr
      ⟨stored, decoded, same.trans own⟩
    dsimp only at back
    exact back

end Layout

end SeriesStore.Disk
