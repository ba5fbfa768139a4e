import SeriesStore.Proofs.Disk.Persist
import SeriesStore.Proofs.Disk.Recovery
import SeriesStore.Proofs.File.Order

/-!
# Recovery from a tidy tree

In a tidy tree recovery finds a directory or nothing wherever it looks, it lists the
sidecars that stand and no others, and reads each of them as its file with the spans raised.
So it succeeds when no two of them bring back the same number, and then every list holds what
the sidecars of its space bring back, by ordering key and number.

Recovery looks for a partition in both spaces when it is there in one of them.  The root
must leave room for the longer of the two paths, or looking there would fail.
-/

namespace SeriesStore.Disk

open SeriesStore.Disk.Path (Plain isImpossible)
open Sidecar (Storable content)

/-- A root below which the directory of every partition can be asked for: there is room for
the names of a space, a group and a slot. -/
structure Layout.Roomy (layout : Layout) : Prop where
  no_end : '\x00' ∉ layout.root.toList
  room : layout.root.utf8ByteSize + 288 ≤ Path.pathLimit

theorem Housed.size_le {group : String} (housed : Housed group) : group.utf8ByteSize ≤ 255 := by
  have short := housed.short
  rwa [Tree.isTooLong, decide_eq_false_iff_not, Nat.not_lt] at short

namespace Layout

variable {layout : Layout}

theorem size_directoryName (space : Space) : space.directoryName.utf8ByteSize ≤ 10 := by
  cases space <;> decide

theorem size_spaceDirectory (layout : Layout) (space : Space) :
    (layout.spaceDirectory space).utf8ByteSize ≤ layout.root.utf8ByteSize + 11 := by
  have size := Path.utf8ByteSize_join_le layout.root (Path.plain_directoryName space).head?_ne
  have name := size_directoryName space
  rw [spaceDirectory]
  omega

theorem size_groupDirectory (layout : Layout) (space : Space) {group : String}
    (housed : Housed group) :
    (layout.groupDirectory space group).utf8ByteSize ≤ layout.root.utf8ByteSize + 267 := by
  have size := Path.utf8ByteSize_join_le (layout.spaceDirectory space) housed.plain.head?_ne
  have above := layout.size_spaceDirectory space
  have name := housed.size_le
  rw [groupDirectory]
  omega

theorem Roomy.possible_space (roomy : layout.Roomy) (space : Space) :
    isImpossible (layout.spaceDirectory space) = false := by
  have room := roomy.room
  have name := size_directoryName space
  have possible : isImpossible layout.root = false := by
    rw [Path.isImpossible_eq_false_iff]
    exact ⟨roomy.no_end, by omega⟩
  exact Path.isImpossible_join (Path.plain_directoryName space) possible (by omega)

theorem Roomy.possible_group (roomy : layout.Roomy) (space : Space) {group : String}
    (housed : Housed group) : isImpossible (layout.groupDirectory space group) = false := by
  have room := roomy.room
  have above := layout.size_spaceDirectory space
  have name := housed.size_le
  exact Path.isImpossible_join housed.plain (roomy.possible_space space) (by omega)

theorem Roomy.possible_partition (roomy : layout.Roomy) (space : Space) {key : PartitionKey}
    (housed : Housed key.group) :
    isImpossible (layout.partitionDirectory space key) = false := by
  have room := roomy.room
  have above := layout.size_groupDirectory space housed
  have slot := Text.utf8ByteSize_writeInt64_le key.slot
  have possible := roomy.possible_group space housed
  rw [groupDirectory] at above possible
  exact Path.isImpossible_join (Path.plain_writeInt _) possible (by omega)

end Layout

/-! ## Reading what stands -/

section Reading

variable {layout : Layout} {root : Location} {tree : Tree} {key : PartitionKey}
  {file : DataFile}

theorem Tidy.possible_sidecarPath (tidy : Tidy layout root tree)
    (stands : Stands root tree key file) :
    isImpossible (layout.sidecarPath key file) = false := by
  have prepared := (tidy.writable stands.standing).2
  rw [Layout.sidecarPath, Path.temporary_join, Path.join_preparedName] at prepared
  exact Path.isImpossible_append prepared

theorem Tidy.standing_partition (tidy : Tidy layout root tree)
    (stands : Stands root tree key file) :
    tree.node? (root ++ partitionPlace file.space key) = some .directory := by
  have standing := stands.standing
  rw [sidecarPlace] at standing
  exact tidy.parents standing

/-- A sidecar that stands is read as its file with the spans raised. -/
theorem Tidy.readSidecar (tidy : Tidy layout root tree) (stands : Stands root tree key file) :
    tree.readSidecar (layout.sidecarPath key file) = .ok file.raised := by
  have housed := (tidy.writable stands.standing).1
  have possible := tidy.possible_sidecarPath stands
  have entered := tidy.enter_partition housed (tidy.standing_partition stands)
  have standing := stands.standing
  rw [sidecarPlace, ← List.append_assoc] at standing
  rw [Layout.sidecarPath] at possible ⊢
  rw [Tree.readSidecar, Tree.read_join (Path.plain_sidecarName (FileName.ofFile file))
    (short_sidecarName _) possible entered standing]
  exact Sidecar.decode_content stands.storable

end Reading

/-- Whether a file is one that a sidecar brings back. -/
def Returns (root : Location) (tree : Tree) (key : PartitionKey) (kept : DataFile) : Prop :=
  ∃ file, Stands root tree key file ∧ comesBack? file = some kept

/-! ## What is listed -/

theorem Belongs.housed {layout : Layout} {space group : String}
    (belongs : Belongs layout [space, group] .directory) : Housed group := by
  generalize place : [space, group] = location at belongs
  cases belongs with
  | space _ => simp at place
  | group _ housed =>
      simp only [List.cons.injEq, and_true] at place
      exact place.2 ▸ housed
  | partition _ _ => simp [partitionPlace] at place

namespace Tidy

variable {layout : Layout} {root : Location} {tree : Tree} (tidy : Tidy layout root tree)
  (roomy : layout.Roomy) {key : PartitionKey}

include tidy roomy

theorem housed_of_directory {space : Space} {group : String}
    (has : Layout.HasDirectory tree (layout.spaceDirectory space) group) : Housed group := by
  rcases has with ⟨location, found, standing, _⟩
  rw [(tidy.leads_space space).directoryAt_eq_ok_iff (roomy.possible_space space)] at found
  rw [found.1, List.append_assoc] at standing
  exact (tidy.belongs (by simp) standing).housed

theorem housed_of_mem {keys : List PartitionKey} (listed : layout.listPartitions tree = .ok keys)
    (member : key ∈ keys) : Housed key.group := by
  rcases (Layout.mem_listPartitions listed key).mp member with ⟨space, name, has⟩
  exact tidy.housed_of_directory roomy has.1

/-- Recovery finds a directory or nothing wherever it looks. -/
theorem listable (path : String) (lists : layout.Lists tree path) : tree.Listable path := by
  cases lists with
  | space space => exact (tidy.leads_space space).listable (roomy.possible_space space)
  | group space shown member =>
      have housed :=
        tidy.housed_of_directory roomy ((Layout.mem_directoryNames_iff shown _).mp member)
      exact (tidy.leads_group space housed).listable (roomy.possible_group space housed)
  | partition space listed member =>
      have housed := tidy.housed_of_mem roomy listed member
      exact (tidy.leads_partition space housed).listable (roomy.possible_partition space housed)

/-- A partition with a sidecar is listed. -/
theorem mem_of_stands {file : DataFile} (stands : Stands root tree key file)
    {keys : List PartitionKey} (listed : layout.listPartitions tree = .ok keys) :
    key ∈ keys := by
  have housed := (tidy.writable stands.standing).1
  have slotStanding : tree.node? (root ++ ([file.space.directoryName, key.group] ++
      [Text.writeInt key.slot.toInt])) = some .directory :=
    tidy.parents stands.standing
  have groupStanding : tree.node? (root ++ ([file.space.directoryName] ++ [key.group])) =
      some .directory :=
    tidy.parents slotStanding
  have spaceStanding : tree.node? (root ++ [file.space.directoryName]) = some .directory :=
    tidy.parents groupStanding
  rw [Layout.mem_listPartitions listed]
  refine ⟨file.space, Text.writeInt key.slot.toInt, ?_, ?_, Text.readInt64?_writeInt key.slot⟩
  · refine ⟨root ++ [file.space.directoryName], ?_, ?_, roomy.possible_group _ housed⟩
    · rw [(tidy.leads_space _).directoryAt_eq_ok_iff (roomy.possible_space _)]
      exact ⟨rfl, spaceStanding⟩
    · rw [List.append_assoc]
      exact groupStanding
  · refine ⟨root ++ [file.space.directoryName, key.group], ?_, ?_,
      roomy.possible_partition _ housed⟩
    · rw [(tidy.leads_group _ housed).directoryAt_eq_ok_iff (roomy.possible_group _ housed)]
      exact ⟨rfl, groupStanding⟩
    · rw [List.append_assoc]
      exact slotStanding

/-- The sidecars that are there to be listed are those that stand. -/
theorem hasSidecar_iff {space : Space} (housed : Housed key.group)
    (sidecar : FileName × String) (name : String) (bytes : List UInt8) :
    layout.HasSidecar tree space key sidecar name bytes ↔
      ∃ file, Stands root tree key file ∧ file.space = space ∧ bytes = content file ∧
        name = (FileName.ofFile file).sidecarName ∧
        sidecar = (FileName.ofFile file, layout.sidecarPath key file) := by
  have leads := tidy.leads_partition space housed
  have possible := roomy.possible_partition space housed
  constructor
  · intro has
    rcases has.standing with ⟨location, found, standing⟩
    rw [leads.directoryAt_eq_ok_iff possible] at found
    rw [found.1, List.append_assoc] at standing
    rcases (tidy.belongs (by simp) standing).exists_sidecar with
      ⟨other, file, place, bytes_eq, _, storable, _⟩
    rcases sidecarPlace_eq_append_iff.mp place.symm with ⟨sameSpace, sameKey, sameName⟩
    subst sameKey sameSpace
    rw [place, bytes_eq] at standing
    rcases sidecar with ⟨ownName, path⟩
    have path_eq : path = layout.sidecarPath other file := by
      rw [Layout.sidecarPath, ← sameName]
      exact has.path_eq
    have name_eq : ownName = FileName.ofFile file := by
      have parsed := has.parsed
      rw [sameName, FileName.parse?_sidecarName] at parsed
      exact (Option.some.inj parsed).symm
    rw [path_eq, name_eq]
    exact ⟨file, ⟨storable, standing⟩, rfl, bytes_eq, sameName, rfl⟩
  · rintro ⟨file, stands, sameSpace, bytes_eq, sameName, sidecar_eq⟩
    subst sameSpace sidecar_eq
    have standing := stands.standing
    rw [sidecarPlace, ← List.append_assoc] at standing
    rw [sameName, bytes_eq]
    constructor
    case standing =>
      refine ⟨root ++ partitionPlace file.space key, ?_, standing⟩
      rw [leads.directoryAt_eq_ok_iff possible]
      exact ⟨rfl, tidy.standing_partition stands⟩
    case path_eq =>
      dsimp only
      rw [Layout.sidecarPath]
    case possible =>
      dsimp only
      exact tidy.possible_sidecarPath stands
    case named => exact FileName.isSidecarName_sidecarName _
    case parsed => exact FileName.parse?_sidecarName _

/-- A listed sidecar is that of a file that stands. -/
theorem mem_listSidecars_iff {space : Space} (housed : Housed key.group)
    {sidecars : List (FileName × String)}
    (listed : layout.listSidecars tree space key = .ok sidecars) (sidecar : FileName × String) :
    sidecar ∈ sidecars ↔ ∃ file, Stands root tree key file ∧ file.space = space ∧
      sidecar = (FileName.ofFile file, layout.sidecarPath key file) := by
  rw [Layout.mem_listSidecars listed]
  constructor
  · rintro ⟨name, bytes, has⟩
    rcases (tidy.hasSidecar_iff roomy housed _ _ _).mp has with ⟨file, stands, fits, _, _, same⟩
    exact ⟨file, stands, fits, same⟩
  · rintro ⟨file, stands, fits, same⟩
    have has := (tidy.hasSidecar_iff roomy housed sidecar (FileName.ofFile file).sidecarName
      (content file)).mpr ⟨file, stands, fits, rfl, rfl, same⟩
    exact ⟨_, _, has⟩

/-- All listed sidecars are in place. -/
theorem allInPlace (housed : Housed key.group) (space : Space) :
    layout.AllInPlace tree key space := by
  have listable := (tidy.leads_partition space housed).listable
    (roomy.possible_partition space housed)
  rcases Layout.exists_listSidecars listable with ⟨sidecars, listed⟩
  refine ⟨sidecars, listed, fun sidecar member => ?_⟩
  rcases (tidy.mem_listSidecars_iff roomy housed listed sidecar).mp member with
    ⟨file, stands, fits, same⟩
  rw [InPlace, same]
  dsimp only
  exact ⟨file.raised, tidy.readSidecar stands, fits, rfl⟩

/-! ## What comes back -/

omit roomy in
theorem restoredAt?_of_stands {file : DataFile} (stands : Stands root tree key file) :
    restoredAt? tree (layout.sidecarPath key file) = comesBack? file := by
  rw [restoredAt?, tidy.readSidecar stands, comesBack?]

theorem mem_restoredIn_iff (housed : Housed key.group) (space : Space) (kept : DataFile) :
    kept ∈ layout.restoredIn tree key space ↔
      Returns root tree key kept ∧ kept.space = space := by
  rcases tidy.allInPlace roomy housed space with ⟨sidecars, listed, _⟩
  rw [Layout.restoredIn_eq listed, List.mem_filterMap]
  constructor
  · rintro ⟨sidecar, member, restored⟩
    rcases (tidy.mem_listSidecars_iff roomy housed listed sidecar).mp member with
      ⟨file, stands, fits, same⟩
    rw [same] at restored
    dsimp only at restored
    rw [tidy.restoredAt?_of_stands stands] at restored
    exact ⟨⟨file, stands, restored⟩, (samePlace_of_comesBack? restored).space.trans fits⟩
  · rintro ⟨⟨file, stands, restored⟩, fits⟩
    have fileFits : file.space = space := (samePlace_of_comesBack? restored).space.symm.trans fits
    refine ⟨(FileName.ofFile file, layout.sidecarPath key file), ?_, ?_⟩
    · exact (tidy.mem_listSidecars_iff roomy housed listed _).mpr ⟨file, stands, fileFits, rfl⟩
    · dsimp only
      rw [tidy.restoredAt?_of_stands stands, restored]

/-- What comes back in one space comes by ordering key and number. -/
theorem pairwise_restoredIn (housed : Housed key.group)
    (differ : ∀ first second, Returns root tree key first → Returns root tree key second →
      first.id = second.id → first = second) (space : Space) :
    (layout.restoredIn tree key space).Pairwise DataFile.SortsBefore := by
  rcases tidy.allInPlace roomy housed space with ⟨sidecars, listed, _⟩
  have sorted := Layout.sorted_listSidecars listed
  have nodup : sidecars.Nodup := by
    apply Layout.nodup_listSidecars listed
    intro sidecar name bytes has
    rcases (tidy.hasSidecar_iff roomy housed _ _ _).mp has with ⟨file, _, _, _, named, _⟩
    rw [named]
    exact (Path.plain_sidecarName _).head?_ne
  rw [Layout.restoredIn_eq listed, List.pairwise_filterMap]
  apply (sorted.and nodup).imp_of_mem
  rintro first second firstMember secondMember ⟨low, apart⟩
  intro firstKept firstBack secondKept secondBack
  rcases (tidy.mem_listSidecars_iff roomy housed listed first).mp firstMember with
    ⟨firstFile, firstStands, _, firstSame⟩
  rcases (tidy.mem_listSidecars_iff roomy housed listed second).mp secondMember with
    ⟨secondFile, secondStands, _, secondSame⟩
  subst firstSame secondSame
  dsimp only at firstBack secondBack
  rw [tidy.restoredAt?_of_stands firstStands] at firstBack
  rw [tidy.restoredAt?_of_stands secondStands] at secondBack
  have firstPlace := samePlace_of_comesBack? firstBack
  have secondPlace := samePlace_of_comesBack? secondBack
  rw [← firstPlace.name, ← secondPlace.name, Layout.listedFirst] at low
  apply DataFile.sortsBefore_of_comesFirst low
  intro same
  have equal := differ _ _ ⟨_, firstStands, firstBack⟩ ⟨_, secondStands, secondBack⟩ same
  subst equal
  have files := firstStands.unique secondStands (firstPlace.trans secondPlace.symm)
  subst files
  exact apart rfl

end Tidy

end SeriesStore.Disk
