import SeriesStore.Proofs.Disk.Afterwards
import SeriesStore.Proofs.Disk.SidecarPath
import SeriesStore.Proofs.File.Reading
import SeriesStore.Proofs.Text.Signed

/-!
# Partitions and the spelling of their directories

A partition is listed for every directory of a group whose name is a numeral of its slot,
but its files are only looked for under the numeral that is written.  So a directory under
another spelling brings up a partition that may have no directory of its own, and the
sidecars in it are never seen.

When all these names are terse, the listed partitions are exactly those whose directory is
there in one of the spaces, and every sidecar below a counted directory is listed.
-/

namespace SeriesStore

namespace Disk

open SeriesStore.Disk.Path (Plain isImpossible)
open Text (DenotesInt Terse)

/-! ## Names -/

/-- A name for a group: one segment of a path that is not made of dots. -/
structure NamesGroup (group : String) : Prop where
  single : Path.Single group
  ne_dot : group ≠ "."
  ne_dots : group ≠ ".."

instance (group : String) : Decidable (NamesGroup group) :=
  decidable_of_iff (Path.Single group ∧ group ≠ "." ∧ group ≠ "..")
    ⟨fun ⟨single, ne_dot, ne_dots⟩ => ⟨single, ne_dot, ne_dots⟩,
      fun names => ⟨names.single, names.ne_dot, names.ne_dots⟩⟩

theorem Path.Plain.namesGroup {group : String} (plain : Plain group) : NamesGroup group :=
  ⟨plain.single, plain.ne_dot, plain.ne_dots⟩

/-- A name for a group is plain as soon as its path can be asked for. -/
theorem NamesGroup.plain {group left : String} (names : NamesGroup group)
    (possible : isImpossible (Path.join left group) = false) : Plain group := by
  have head : group.toList.head? ≠ some '/' := fun slash =>
    names.single.no_slash (List.mem_of_mem_head? slash)
  rw [Path.join_eq_lead_append head, Path.isImpossible_eq_false_iff, String.toList_append,
    List.mem_append, not_or] at possible
  exact ⟨names.single.ne_empty, names.ne_dot, names.ne_dots, names.single.no_slash,
    possible.1.2⟩

/-- A numeral can be the name of a directory. -/
theorem plain_of_denotesInt {name : String} {value : Int}
    (denotes : DenotesInt name.toList value) : Plain name := by
  rcases List.exists_mem_of_ne_nil _ (Text.ne_nil_of_denotesInt denotes) with ⟨char, member⟩
  have noDot : char ≠ '.' := by
    rintro rfl
    exact Text.not_mem_of_denotesInt denotes (by decide) (by decide) member
  exact Path.plain_of_mem member noDot
    (Text.not_mem_of_denotesInt denotes (by decide) (by decide))
    (Text.not_mem_of_denotesInt denotes (by decide) (by decide))

/-- What is read as the name of a file can be one. -/
theorem plain_of_parse? {text : String} {name : FileName}
    (parsed : FileName.parse? text = some name) : Plain text := by
  rcases (FileName.parse?_eq_some_iff text name).mp parsed with ⟨stem, ending, spelled⟩
  have outside {char : Char} (foreign : ¬ char.isDigit ∧ char ≠ '+') (noMark : char ≠ '-')
      (notInSidecar : char ∉ FileName.sidecarEnding.toList)
      (notInData : char ∉ FileName.dataEnding.toList) : char ∉ text.toList := by
    have notInStem := spelled.not_mem foreign noMark
    rcases ending with rfl | rfl <;> rw [String.toList_append, List.mem_append, not_or]
    · exact ⟨notInStem, notInSidecar⟩
    · exact ⟨notInStem, notInData⟩
  have letter : 't' ∈ text.toList := by
    rcases ending with rfl | rfl <;> rw [String.toList_append, List.mem_append]
    · exact .inr (by decide)
    · exact .inr (by decide)
  exact Path.plain_of_mem letter (by decide)
    (outside (by decide) (by decide) (by decide) (by decide))
    (outside (by decide) (by decide) (by decide) (by decide))

/-! ## Directories -/

/-- Whether a directory stands at a path. -/
def Tree.IsDirectory (tree : Tree) (path : String) : Prop :=
  ∃ location, tree.directoryAt path = .ok location

variable {layout : Layout} {tree : Tree} {path name : String} {space : Space} {key : PartitionKey}

open Layout (HasDirectory)

theorem Layout.HasDirectory.isDirectory (has : HasDirectory tree path name) :
    tree.IsDirectory path := by
  rcases has with ⟨location, found, _⟩
  exact ⟨location, found⟩

theorem Layout.HasDirectory.plain (wellFormed : tree.WellFormed)
    (has : HasDirectory tree path name) : Plain name := by
  rcases has with ⟨location, _, standing, _⟩
  exact (wellFormed.plain standing).1

/-- A directory stands at a path with one more name if it stands below that path. -/
theorem isDirectory_join_iff (wellFormed : tree.WellFormed) (plain : Plain name) :
    tree.IsDirectory (Path.join path name) ↔ HasDirectory tree path name := by
  constructor
  · rintro ⟨location, found⟩
    rw [Tree.directoryAt_eq_ok_iff, Path.steps_join path plain, Tree.enter_append] at found
    rcases found with ⟨possible, entered⟩
    split at entered
    · contradiction
    · rename_i parent reached
      have place := Tree.eq_of_enter (by simpa using plain) entered
      have above := Tree.node?_of_enter (Tree.node?_nil tree) reached
      have standing := Tree.node?_of_enter above entered
      rw [place] at standing
      exact ⟨parent, (Tree.directoryAt_eq_ok_iff _ _ _).mpr
        ⟨Path.isImpossible_of_join plain.head?_ne possible, reached⟩, standing, possible⟩
  · rintro ⟨location, found, standing, possible⟩
    rw [Tree.directoryAt_eq_ok_iff] at found
    have short := (wellFormed.plain standing).2
    refine ⟨location ++ [name], (Tree.directoryAt_eq_ok_iff _ _ _).mpr ⟨possible, ?_⟩⟩
    rw [Path.steps_join path plain, Tree.enter_append, found.2]
    dsimp only
    rw [Tree.enter_plain plain, if_neg (Bool.eq_false_iff.mp short), standing]

namespace Layout

/-- The directory of a name in the directory of a group. -/
def slotDirectory (layout : Layout) (space : Space) (group name : String) : String :=
  Path.join (layout.groupDirectory space group) name

/-- Whether a directory of a group counts as one of a partition: its name is a numeral of the
slot. -/
structure CountsFor (layout : Layout) (tree : Tree) (space : Space) (key : PartitionKey)
    (name : String) : Prop where
  number : DenotesInt name.toList key.slot.toInt
  standing : tree.IsDirectory (layout.slotDirectory space key.group name)

/-- A partition is listed by the directories that count as its own. -/
theorem hasPartition_iff_countsFor (wellFormed : tree.WellFormed) :
    layout.HasPartition tree space key name ↔
      NamesGroup key.group ∧ layout.CountsFor tree space key name := by
  rw [HasPartition, Text.readInt64?_eq_some_iff]
  constructor
  · rintro ⟨inSpace, inGroup, number⟩
    exact ⟨(inSpace.plain wellFormed).namesGroup, number,
      (isDirectory_join_iff wellFormed (plain_of_denotesInt number)).mpr inGroup⟩
  · rintro ⟨names, number, standing⟩
    have inGroup := (isDirectory_join_iff wellFormed (plain_of_denotesInt number)).mp standing
    have group := inGroup.isDirectory
    rcases group with ⟨location, found⟩
    have possible := ((Tree.directoryAt_eq_ok_iff _ _ _).mp found).1
    have plain := names.plain possible
    exact ⟨(isDirectory_join_iff wellFormed plain).mp ⟨location, found⟩, inGroup, number⟩

theorem countsFor_writeInt_iff :
    layout.CountsFor tree space key (Text.writeInt key.slot.toInt) ↔
      tree.IsDirectory (layout.partitionDirectory space key) := by
  constructor
  · intro counts
    exact counts.standing
  · intro standing
    refine ⟨?_, standing⟩
    rw [← Text.readInt?_eq_some_iff]
    exact Text.readInt?_writeInt _

theorem CountsFor.terse_iff (counts : layout.CountsFor tree space key name) :
    Terse name.toList ↔ name = Text.writeInt key.slot.toInt := by
  rw [← Text.eq_writeInt_iff counts.number, String.toList_inj]

/-- A partition has a directory of its own in a space if a terse name counts for it there. -/
theorem isDirectory_partitionDirectory_iff :
    tree.IsDirectory (layout.partitionDirectory space key) ↔
      ∃ name, layout.CountsFor tree space key name ∧ Terse name.toList := by
  constructor
  · intro standing
    exact ⟨_, countsFor_writeInt_iff.mpr standing, Text.terse_writeInt _⟩
  · rintro ⟨name, counts, terse⟩
    rw [← countsFor_writeInt_iff, ← counts.terse_iff.mp terse]
    exact counts

/-! ## Sidecars below a counted directory -/

/-- A file in a directory that can be read and has the name of a sidecar. -/
structure HoldsSidecar (tree : Tree) (path : String) (parsed : FileName) (name : String) :
    Prop where
  named : FileName.isSidecarName name = true
  parses : FileName.parse? name = some parsed
  readable : ∃ content, tree.read (Path.join path name) = .ok content

/-- Whether a sidecar is listed for a partition. -/
def Sees (layout : Layout) (tree : Tree) (space : Space) (key : PartitionKey)
    (sidecar : FileName × String) : Prop :=
  ∃ sidecars, layout.listSidecars tree space key = .ok sidecars ∧ sidecar ∈ sidecars

/-- The sidecars of a partition's own directory are listed. -/
theorem HoldsSidecar.sees {parsed : FileName}
    (holds : HoldsSidecar tree (layout.partitionDirectory space key) parsed name) :
    layout.Sees tree space key
      (parsed, Path.join (layout.partitionDirectory space key) name) := by
  have plain := plain_of_parse? holds.parses
  rcases holds.readable with ⟨content, reading⟩
  rw [Tree.read] at reading
  split at reading
  · contradiction
  rename_i location found
  split at reading
  · contradiction
  · contradiction
  rename_i bytes standing
  rcases Tree.fileAt_join_eq_ok plain found with ⟨possible, parent, entered, rfl⟩
  have directory := (Tree.directoryAt_eq_ok_iff _ _ _).mpr
    ⟨Path.isImpossible_of_join plain.head?_ne possible, entered⟩
  rcases exists_listSidecars (.inr ⟨parent, directory⟩) with ⟨sidecars, listed⟩
  refine ⟨sidecars, listed, (mem_listSidecars listed _).mpr ⟨name, bytes, ?_⟩⟩
  exact ⟨⟨parent, directory, standing⟩, rfl, possible, holds.named, holds.parses⟩

/-- A sidecar below a directory that counts for a partition is listed for it only if the name
of the directory is terse. -/
theorem CountsFor.sees_iff (wellFormed : tree.WellFormed)
    (counts : layout.CountsFor tree space key name) {parsed : FileName} {fileName : String}
    (holds : HoldsSidecar tree (layout.slotDirectory space key.group name) parsed fileName) :
    layout.Sees tree space key
        (parsed, Path.join (layout.slotDirectory space key.group name) fileName) ↔
      Terse name.toList := by
  rw [counts.terse_iff]
  constructor
  · rintro ⟨sidecars, listed, member⟩
    rcases (mem_listSidecars listed _).mp member with ⟨other, bytes, has⟩
    rcases has.standing with ⟨location, _, standing⟩
    have otherPlain := (wellFormed.plain standing).1
    have paths := congrArg Path.steps has.path_eq
    dsimp only at paths
    rw [Path.steps_join _ (plain_of_parse? holds.parses), slotDirectory,
      Path.steps_join _ (plain_of_denotesInt counts.number), Path.steps_join _ otherPlain,
      partitionDirectory, Path.steps_join _ (Path.plain_writeInt _), List.append_singleton_inj,
      ← groupDirectory, List.append_singleton_inj] at paths
    exact paths.1.2
  · rintro rfl
    exact holds.sees

/-! ## The listed partitions -/

/-- The directories of groups can be looked into when those of the spaces can. -/
theorem exists_listPartitions_of_spaces (wellFormed : tree.WellFormed)
    (spaces : ∀ space, tree.Listable (layout.spaceDirectory space)) :
    ∃ keys, layout.listPartitions tree = .ok keys := by
  apply exists_listPartitions_of_groups spaces
  intro space listing group shown member
  have has := (mem_directoryNames_iff shown group).mp member
  exact .inr ((isDirectory_join_iff wellFormed (has.plain wellFormed)).mpr has)

theorem listPartitions_increasing {keys : List PartitionKey}
    (listed : layout.listPartitions tree = .ok keys) :
    keys.Pairwise fun first second => PartitionKey.compareKeys first second = .lt := by
  rw [listPartitions] at listed
  split at listed
  · contradiction
  · cases listed
    exact SortedMap.keys_increasing _

theorem mem_listPartitions_iff_countsFor (wellFormed : tree.WellFormed) {keys : List PartitionKey}
    (listed : layout.listPartitions tree = .ok keys) (key : PartitionKey) :
    key ∈ keys ↔
      NamesGroup key.group ∧ ∃ space name, layout.CountsFor tree space key name := by
  rw [mem_listPartitions listed]
  simp only [hasPartition_iff_countsFor wellFormed]
  constructor
  · rintro ⟨space, name, names, counts⟩
    exact ⟨names, space, name, counts⟩
  · rintro ⟨names, space, name, counts⟩
    exact ⟨space, name, names, counts⟩

/-- Whether the listed partitions are those that have a directory of their own, and whether
all sidecars below counted directories are listed. -/
structure ListsReal (layout : Layout) (tree : Tree) (keys : List PartitionKey) : Prop where
  mem_iff : ∀ key : PartitionKey, NamesGroup key.group →
    (key ∈ keys ↔ ∃ space, tree.IsDirectory (layout.partitionDirectory space key))
  sees : ∀ (space : Space) (key : PartitionKey) (name : String), NamesGroup key.group →
    layout.CountsFor tree space key name → ∀ parsed fileName,
      HoldsSidecar tree (layout.slotDirectory space key.group name) parsed fileName →
        layout.Sees tree space key
          (parsed, Path.join (layout.slotDirectory space key.group name) fileName)

/-- A partition is listed exactly if some directory counts for it.  The listed partitions are
real exactly if every counted name is terse, apart from names beside which a terse one counts
as well and below which there is no sidecar. -/
theorem listed_partitions_are_real_iff (wellFormed : tree.WellFormed)
    (spaces : ∀ space, tree.Listable (layout.spaceDirectory space)) :
    ∃ keys, layout.listPartitions tree = .ok keys ∧
      keys.Pairwise (fun first second => PartitionKey.compareKeys first second = .lt) ∧
      (∀ key : PartitionKey, key ∈ keys ↔
        NamesGroup key.group ∧ ∃ space name, layout.CountsFor tree space key name) ∧
      (layout.ListsReal tree keys ↔
        ∀ (space : Space) (key : PartitionKey) (name : String), NamesGroup key.group →
          layout.CountsFor tree space key name → Terse name.toList ∨
            (∃ other terse, layout.CountsFor tree other key terse ∧ Terse terse.toList) ∧
              ∀ parsed fileName, ¬ HoldsSidecar tree
                (layout.slotDirectory space key.group name) parsed fileName) := by
  rcases exists_listPartitions_of_spaces wellFormed spaces with ⟨keys, listed⟩
  have mem_iff := mem_listPartitions_iff_countsFor wellFormed listed
  refine ⟨keys, listed, listPartitions_increasing listed, mem_iff, ?_⟩
  constructor
  · intro real space key name names counts
    by_cases terse : Terse name.toList
    · exact .inl terse
    · right
      constructor
      · have isListed := (mem_iff key).mpr ⟨names, space, name, counts⟩
        rcases (real.mem_iff key names).mp isListed with ⟨other, standing⟩
        exact ⟨other, isDirectory_partitionDirectory_iff.mp standing⟩
      · intro parsed fileName holds
        exact terse ((counts.sees_iff wellFormed holds).mp
          (real.sees space key name names counts parsed fileName holds))
  · intro spelled
    constructor
    case mem_iff =>
      intro key names
      simp only [mem_iff key, and_iff_right names, isDirectory_partitionDirectory_iff]
      constructor
      · rintro ⟨space, name, counts⟩
        rcases spelled space key name names counts with terse | ⟨beside, _⟩
        · exact ⟨space, name, counts, terse⟩
        · exact beside
      · rintro ⟨space, name, counts, _⟩
        exact ⟨space, name, counts⟩
    case sees =>
      intro space key name names counts parsed fileName holds
      rcases spelled space key name names counts with terse | ⟨_, empty⟩
      · exact (counts.sees_iff wellFormed holds).mpr terse
      · exact absurd holds (empty parsed fileName)

end Layout

end Disk

/-! ## A slot with zeros in front

In the small tree `disk` the only numeral is terse.  In a second tree the directory of slot 7
is spelled `007`, and a sidecar stands in it. -/

namespace Sample

open Disk

theorem name_of_countsFor_disk {space : Space} {other : PartitionKey} {name : String}
    (names : NamesGroup other.group) (counts : layout.CountsFor disk space other name) :
    name = "0" := by
  have groups : disk.listIfPresent (layout.spaceDirectory space) = .ok [("group", .directory)] := by
    cases space <;> decide +kernel
  rcases (Layout.hasPartition_iff_countsFor disk_wellFormed).mpr ⟨names, counts⟩ with
    ⟨inSpace, inGroup, number⟩
  have group := (Layout.mem_directoryNames_iff groups _).mpr inSpace
  rw [List.mem_singleton.mp group] at inGroup
  cases space with
  | sequence =>
      have slots : disk.listIfPresent (layout.groupDirectory .sequence "group") =
          .ok [("0", .directory)] := by
        decide +kernel
      exact List.mem_singleton.mp ((Layout.mem_directoryNames_iff slots _).mpr inGroup)
  | unsequence =>
      have slots : disk.listIfPresent (layout.groupDirectory .unsequence "group") =
          .ok [("old", .directory)] := by
        decide +kernel
      rw [List.mem_singleton.mp ((Layout.mem_directoryNames_iff slots _).mpr inGroup)] at number
      cases number

def seventh : PartitionKey :=
  ⟨"group", 7⟩

def misspelled : Tree where
  nodes := .ofList _
    [ (["store"], .directory),
      (["store", "sequence"], .directory),
      (["store", "sequence", "group"], .directory),
      (["store", "sequence", "group", "007"], .directory),
      (["store", "sequence", "group", "007", "2-2-1-0.tsfile.resource"],
        sidecarNode (file .sequence .closed 2 [])) ]

theorem run_misspelled :
    misspelled.WellFormed ∧ layout.listPartitions misspelled = .ok [seventh] ∧
      misspelled.directoryAt (layout.spaceDirectory .sequence) = .ok ["store", "sequence"] ∧
      misspelled.directoryAt (layout.slotDirectory .sequence "group" "007") =
        .ok ["store", "sequence", "group", "007"] ∧
      Path.join (layout.slotDirectory .sequence "group" "007") "2-2-1-0.tsfile.resource" =
        "store/sequence/group/007/2-2-1-0.tsfile.resource" ∧
      misspelled.read "store/sequence/group/007/2-2-1-0.tsfile.resource" =
        .ok (Sidecar.content (file .sequence .closed 2 [])) := by
  unfold Tree.WellFormed
  decide +kernel

/-- Where nothing is found in the second tree. -/
theorem missing_misspelled :
    misspelled.directoryAt (layout.spaceDirectory .unsequence) = .error .missing ∧
      ∀ space ∈ Space.all,
        misspelled.directoryAt (layout.partitionDirectory space seventh) = .error .missing := by
  decide +kernel

end Sample

namespace Disk.Layout

theorem listed_partitions_are_real_iff_sample :
    Sample.disk.WellFormed ∧
      (∀ space, Sample.disk.Listable (Sample.layout.spaceDirectory space)) ∧
      Sample.layout.ListsReal Sample.disk [Sample.key] := by
  have spaces (space : Space) : Sample.disk.Listable (Sample.layout.spaceDirectory space) :=
    Sample.disk_listable _ (.space space)
  rcases listed_partitions_are_real_iff Sample.disk_wellFormed spaces with
    ⟨keys, listed, _, _, real_iff⟩
  rw [Sample.listPartitions_disk] at listed
  cases listed
  refine ⟨Sample.disk_wellFormed, spaces, real_iff.mpr ?_⟩
  intro space key name names counts
  left
  rw [Sample.name_of_countsFor_disk names counts]
  decide

/-- The partition is listed, it has a directory in neither space, and the sidecar below the
directory that counts for it is not listed. -/
theorem misspelled_slot_is_listed :
    Sample.misspelled.WellFormed ∧
      (∀ space, Sample.misspelled.Listable (Sample.layout.spaceDirectory space)) ∧
      NamesGroup Sample.seventh.group ∧
      Sample.layout.listPartitions Sample.misspelled = .ok [Sample.seventh] ∧
      (¬ ∃ space,
        Sample.misspelled.IsDirectory (Sample.layout.partitionDirectory space Sample.seventh)) ∧
      Sample.layout.CountsFor Sample.misspelled .sequence Sample.seventh "007" ∧
      HoldsSidecar Sample.misspelled (Sample.layout.slotDirectory .sequence "group" "007")
        ⟨2, 2, 1, 0⟩ "2-2-1-0.tsfile.resource" ∧
      ¬ Sample.layout.Sees Sample.misspelled .sequence Sample.seventh
        (⟨2, 2, 1, 0⟩, "store/sequence/group/007/2-2-1-0.tsfile.resource") := by
  rcases Sample.run_misspelled with ⟨wellFormed, listed, inSequence, inSlot, path, reading⟩
  rw [← path] at reading
  rcases Sample.missing_misspelled with ⟨inUnsequence, absent⟩
  have counts : Sample.layout.CountsFor Sample.misspelled .sequence Sample.seventh "007" := by
    refine ⟨?_, _, inSlot⟩
    rw [← Text.readInt?_eq_some_iff]
    decide
  have holds : HoldsSidecar Sample.misspelled
      (Sample.layout.slotDirectory .sequence "group" "007") ⟨2, 2, 1, 0⟩
      "2-2-1-0.tsfile.resource" :=
    ⟨by decide, by decide, _, reading⟩
  refine ⟨wellFormed, ?_, by decide, listed, ?_, counts, holds, ?_⟩
  · intro space
    cases space with
    | sequence => exact .inr ⟨_, inSequence⟩
    | unsequence => exact .inl inUnsequence
  · rintro ⟨space, location, found⟩
    rw [absent space (by cases space <;> decide)] at found
    contradiction
  · rw [← path]
    intro sees
    exact absurd ((counts.sees_iff wellFormed holds).mp sees) (by decide)

end Disk.Layout

end SeriesStore
