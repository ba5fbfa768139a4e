import SeriesStore.Disk.Persistence
import SeriesStore.Proofs.Disk.Listing
import SeriesStore.Proofs.Disk.SidecarPath
import SeriesStore.Proofs.Sidecar.RoundTrip

/-!
# Tidy trees

A tree is tidy when nothing stands below the root of the layout but what the layout puts
there: directories of spaces, groups and slots, and sidecars at the places of their files,
each with the directory above it.  Making the directories of a partition and writing a
sidecar keep a tree tidy, also when they fail.
-/

namespace SeriesStore.Disk

open SeriesStore.Disk.Path (Plain isImpossible)
open SeriesStore.Disk.Tree (isTooLong)
open Sidecar (Storable content)

/-- A group that can have a directory. -/
structure Housed (group : String) : Prop where
  plain : Plain group
  short : isTooLong group = false

/-- Where the directory of a partition stands below the root of the layout. -/
def partitionPlace (space : Space) (key : PartitionKey) : Location :=
  [space.directoryName, key.group, Text.writeInt key.slot.toInt]

/-- Where the sidecar of a file stands below the root of the layout. -/
def sidecarPlace (key : PartitionKey) (file : DataFile) : Location :=
  partitionPlace file.space key ++ [(FileName.ofFile file).sidecarName]

/-- What may stand below the root of the layout. -/
inductive Belongs (layout : Layout) : Location → Node → Prop where
  | space (space : Space) : Belongs layout [space.directoryName] .directory
  | group (space : Space) {group : String} (housed : Housed group) :
      Belongs layout [space.directoryName, group] .directory
  | partition (space : Space) {key : PartitionKey} (housed : Housed key.group) :
      Belongs layout (partitionPlace space key) .directory
  | sidecar {key : PartitionKey} {file : DataFile} (housed : Housed key.group)
      (storable : Storable file)
      (possible : isImpossible (Path.temporary (layout.sidecarPath key file)) = false) :
      Belongs layout (sidecarPlace key file) (.file (content file))

/-- A tree in which the root of the layout stands and below it only what belongs there. -/
structure Tidy (layout : Layout) (root : Location) (tree : Tree) : Prop where
  entered : tree.enter [] (Path.steps layout.root) = .ok root
  belongs {location : Location} {node : Node} :
    location ≠ [] → tree.node? (root ++ location) = some node → Belongs layout location node
  parents {location : Location} {name : String} {node : Node} :
    tree.node? (root ++ (location ++ [name])) = some node →
      tree.node? (root ++ location) = some .directory

/-- Trees with the same files. -/
def SameFiles (before after : Tree) : Prop :=
  ∀ location content, after.node? location = some (.file content) ↔
    before.node? location = some (.file content)

theorem SameFiles.refl (tree : Tree) : SameFiles tree tree :=
  fun _ _ => Iff.rfl

theorem SameFiles.trans {before middle after : Tree} (first : SameFiles before middle)
    (second : SameFiles middle after) : SameFiles before after :=
  fun location content => (second location content).trans (first location content)

theorem sameFiles_ensure (tree : Tree) {location : Location} (ne : location ≠ []) :
    SameFiles tree (tree.ensure location) := by
  intro asked content
  rw [Tree.node?_ensure ne]
  split
  · rename_i made
    rw [made.1, made.2]
    simp
  · exact Iff.rfl

/-! ## Places -/

theorem partitionPlace_inj {first second : Space} {key other : PartitionKey}
    (same : partitionPlace first key = partitionPlace second other) :
    first = second ∧ key = other := by
  simp only [partitionPlace, List.cons.injEq, and_true] at same
  rcases key with ⟨group, slot⟩
  rcases other with ⟨otherGroup, otherSlot⟩
  rcases same with ⟨spaces, groups, slots⟩
  have keys : (⟨group, slot⟩ : PartitionKey) = ⟨otherGroup, otherSlot⟩ := by
    rw [PartitionKey.mk.injEq]
    exact ⟨groups, Path.writeInt_inj slots⟩
  exact ⟨Path.directoryName_inj spaces, keys⟩

theorem sidecarPlace_eq_append_iff {key : PartitionKey} {file : DataFile} {space : Space}
    {other : PartitionKey} {name : String} :
    sidecarPlace key file = partitionPlace space other ++ [name] ↔
      key = other ∧ file.space = space ∧ name = (FileName.ofFile file).sidecarName := by
  rw [sidecarPlace, List.append_singleton_inj]
  constructor
  · rintro ⟨partitions, names⟩
    rcases partitionPlace_inj partitions with ⟨spaces, keys⟩
    exact ⟨keys, spaces, names.symm⟩
  · rintro ⟨rfl, rfl, rfl⟩
    exact ⟨rfl, rfl⟩

theorem sidecarPlace_eq_iff {key other : PartitionKey} {file another : DataFile} :
    sidecarPlace key file = sidecarPlace other another ↔ key = other ∧ file.SamePlace another := by
  rw [sidecarPlace, sidecarPlace, List.append_singleton_inj]
  constructor
  · rintro ⟨partitions, names⟩
    rcases partitionPlace_inj partitions with ⟨spaces, keys⟩
    exact ⟨keys, spaces.symm, (FileName.sidecarName_inj names).symm⟩
  · rintro ⟨rfl, same⟩
    rw [same.space, same.name]
    exact ⟨rfl, rfl⟩

theorem steps_partitionDirectory (layout : Layout) (space : Space) {key : PartitionKey}
    (plain : Plain key.group) :
    Path.steps (layout.partitionDirectory space key) =
      Path.steps layout.root ++ partitionPlace space key := by
  rw [Layout.partitionDirectory, Layout.spaceDirectory,
    Path.steps_join _ (Path.plain_writeInt key.slot.toInt), Path.steps_join _ plain,
    Path.steps_join _ (Path.plain_directoryName space)]
  simp [partitionPlace]

/-- The path of a partition's directory ends in a name, so only its length can keep all
directories from being made. -/
theorem Layout.makeDirectories_eq (layout : Layout) (space : Space) (key : PartitionKey)
    (tree : Tree) :
    Tree.makeDirectories (layout.partitionDirectory space key) tree =
      if isImpossible (layout.partitionDirectory space key) then
        .error (.disk .invalidPath) tree
      else
        Tree.makeAlong [] (Path.steps (layout.partitionDirectory space key)) tree := by
  have noDot : Path.endsInDot (layout.partitionDirectory space key) = false :=
    Path.endsInDot_join _ (Path.plain_writeInt _)
  rw [Tree.makeDirectories]
  split
  · rfl
  · rw [if_neg (by simp [noDot])]

theorem Layout.persist_eq (layout : Layout) (key : PartitionKey) (file : DataFile) (tree : Tree) :
    layout.persist key file tree =
      match Tree.makeDirectories (layout.partitionDirectory file.space key) tree with
      | .error error made => .error error made
      | .ok _ made => Tree.writeSidecar (layout.sidecarPath key file) file made := by
  rw [Layout.persist, Tree.bind_eq]
  cases Tree.makeDirectories (layout.partitionDirectory file.space key) tree <;> rfl

theorem Belongs.length_le {layout : Layout} {location : Location}
    (belongs : Belongs layout location .directory) : location.length ≤ 3 := by
  cases belongs <;> simp [partitionPlace]

theorem Belongs.exists_sidecar {layout : Layout} {location : Location} {bytes : List UInt8}
    (belongs : Belongs layout location (.file bytes)) :
    ∃ key file, location = sidecarPlace key file ∧ bytes = content file ∧ Housed key.group ∧
      Storable file ∧ isImpossible (Path.temporary (layout.sidecarPath key file)) = false := by
  cases belongs with
  | sidecar housed storable possible => exact ⟨_, _, rfl, rfl, housed, storable, possible⟩

theorem Belongs.length_eq {layout : Layout} {location : Location} {content : List UInt8}
    (belongs : Belongs layout location (.file content)) : location.length = 4 := by
  cases belongs
  simp [sidecarPlace, partitionPlace]

/-! ## Names are short -/

theorem short_of_le {name : String} (size : name.utf8ByteSize ≤ 255) :
    isTooLong name = false := by
  rw [isTooLong, decide_eq_false_iff_not, Nat.not_lt]
  exact size

theorem short_directoryName (space : Space) : isTooLong space.directoryName = false := by
  cases space <;> decide

theorem short_slot (slot : Int64) : isTooLong (Text.writeInt slot.toInt) = false :=
  short_of_le ((Text.utf8ByteSize_writeInt64_le slot).trans (by decide))

theorem short_sidecarName (name : FileName) : isTooLong name.sidecarName = false :=
  short_of_le (name.utf8ByteSize_sidecarName_le.trans (by decide))

theorem short_preparedName (name : FileName) : isTooLong (Path.preparedName name) = false := by
  have size := name.utf8ByteSize_sidecarName_le
  have ending : ".tmp".utf8ByteSize = 4 := by decide
  apply short_of_le
  rw [Path.preparedName, String.utf8ByteSize_append, ending]
  omega

/-! ## The tree below the root -/

namespace Tidy

variable {layout : Layout} {root : Location} {tree : Tree} (tidy : Tidy layout root tree)

include tidy

theorem standing : tree.node? root = some .directory :=
  Tree.node?_of_enter (Tree.node?_nil tree) tidy.entered

theorem noFile {location : Location} (short : location.length ≤ 3) (content : List UInt8) :
    tree.node? (root ++ location) ≠ some (.file content) := by
  intro standing
  by_cases ne : location = []
  · subst ne
    rw [List.append_nil, tidy.standing] at standing
    cases standing
  · have length := (tidy.belongs ne standing).length_eq
    omega

theorem noDirectory {location : Location} (long : 3 < location.length) :
    tree.node? (root ++ location) ≠ some .directory := by
  intro standing
  have ne : location ≠ [] := by
    rintro rfl
    contradiction
  have length := (tidy.belongs ne standing).length_le
  omega

theorem below {location : Location} {name : String}
    (absent : tree.node? (root ++ location) = none) :
    tree.node? (root ++ (location ++ [name])) = none := by
  rw [Option.eq_none_iff_forall_ne_some]
  intro node standing
  rw [tidy.parents standing] at absent
  contradiction

/-- A path of a directory of the layout leads one level further down with one more name. -/
theorem leads_join {path name : String} {location : Location}
    (leads : tree.Leads path (root ++ location)) (plain : Plain name)
    (nameShort : isTooLong name = false) (short : location.length ≤ 2) :
    tree.Leads (Path.join path name) (root ++ (location ++ [name])) := by
  have deeper : (location ++ [name]).length ≤ 3 := by
    rw [List.length_append, List.length_singleton]
    omega
  rw [← List.append_assoc]
  apply leads.join plain nameShort
  · intro content
    rw [List.append_assoc]
    exact tidy.noFile deeper content
  · intro absent
    rw [List.append_assoc]
    exact tidy.below absent

theorem leads_space (space : Space) :
    tree.Leads (layout.spaceDirectory space) (root ++ [space.directoryName]) := by
  have leads : tree.Leads layout.root (root ++ []) := by
    rw [List.append_nil]
    exact .inl tidy.entered
  exact tidy.leads_join leads (Path.plain_directoryName space) (short_directoryName space)
    (by simp)

theorem leads_group (space : Space) {group : String} (housed : Housed group) :
    tree.Leads (layout.groupDirectory space group) (root ++ [space.directoryName, group]) :=
  tidy.leads_join (tidy.leads_space space) housed.plain housed.short (by simp)

theorem leads_partition (space : Space) {key : PartitionKey} (housed : Housed key.group) :
    tree.Leads (layout.partitionDirectory space key) (root ++ partitionPlace space key) :=
  tidy.leads_join (tidy.leads_group space housed) (Path.plain_writeInt _) (short_slot _)
    (by simp)

/-! ### Making directories -/

theorem ensure {location : Location} {name : String}
    (belongs : Belongs layout (location ++ [name]) .directory)
    (parent : tree.node? (root ++ location) = some .directory) :
    Tidy layout root (tree.ensure (root ++ (location ++ [name]))) := by
  have ne : root ++ (location ++ [name]) ≠ [] := by simp
  have kept : ∀ asked, tree.node? asked = some .directory →
      (tree.ensure (root ++ (location ++ [name]))).node? asked = some .directory := by
    intro asked standing
    rw [Tree.node?_ensure ne]
    split
    · rfl
    · exact standing
  constructor
  case entered => exact Tree.enter_of_directories kept tidy.entered
  case belongs =>
    intro asked node askedNe standing
    rw [Tree.node?_ensure ne] at standing
    split at standing
    · rename_i made
      cases standing
      rw [List.append_cancel_left made.1]
      exact belongs
    · exact tidy.belongs askedNe standing
  case parents =>
    intro asked last node standing
    apply kept
    rw [Tree.node?_ensure ne] at standing
    split at standing
    · rename_i made
      have same := (List.append_singleton_inj.mp (List.append_cancel_left made.1)).1
      rw [same]
      exact parent
    · exact tidy.parents standing

/-- Making a directory that belongs below one that is there leads into it. -/
theorem descend (location : Location) {name : String} (plain : Plain name)
    (short : isTooLong name = false) (belongs : Belongs layout (location ++ [name]) .directory)
    (parent : tree.node? (root ++ location) = some .directory) (rest : List String) :
    ∃ after, Tree.makeAlong (root ++ location) (name :: rest) tree =
        Tree.makeAlong (root ++ (location ++ [name])) rest after ∧
      Tidy layout root after ∧ SameFiles tree after ∧
      after.node? (root ++ (location ++ [name])) = some .directory := by
  have ne : root ++ (location ++ [name]) ≠ [] := by simp
  have noFile := tidy.noFile belongs.length_le
  refine ⟨tree.ensure (root ++ (location ++ [name])), ?_, tidy.ensure belongs parent,
    sameFiles_ensure tree ne, ?_⟩
  · rw [← List.append_assoc] at noFile ⊢
    exact Tree.makeAlong_cons plain short noFile rest
  · rw [Tree.node?_ensure ne]
    cases standing : tree.node? (root ++ (location ++ [name])) with
    | none => exact if_pos ⟨rfl, rfl⟩
    | some node =>
        cases node with
        | directory => simp
        | file bytes => exact absurd standing (noFile bytes)

/-- Making the directory of a partition fails only when its path or its group is too
long for the disk. -/
theorem makeDirectories_cases (space : Space) {key : PartitionKey} (plain : Plain key.group) :
    (∃ after, Tree.makeDirectories (layout.partitionDirectory space key) tree = .ok () after ∧
      Tidy layout root after ∧ SameFiles tree after ∧ Housed key.group ∧
      after.node? (root ++ partitionPlace space key) = some .directory) ∨
    ∃ error after,
      Tree.makeDirectories (layout.partitionDirectory space key) tree = .error error after ∧
      Tidy layout root after ∧ SameFiles tree after ∧
      (isImpossible (layout.partitionDirectory space key) = true ∨
        isTooLong key.group = true) := by
  have spacePlain := Path.plain_directoryName space
  have slotPlain := Path.plain_writeInt key.slot.toInt
  cases possible : isImpossible (layout.partitionDirectory space key) with
  | true =>
      refine .inr ⟨.disk .invalidPath, tree, ?_, tidy, .refl tree, .inl rfl⟩
      rw [layout.makeDirectories_eq, if_pos possible]
  | false =>
      rw [layout.makeDirectories_eq, if_neg (by simp [possible]),
        steps_partitionDirectory layout space plain, Tree.makeAlong_of_entered tidy.entered,
        partitionPlace]
      have parent : tree.node? (root ++ []) = some .directory := by
        rw [List.append_nil]
        exact tidy.standing
      rcases tidy.descend [] spacePlain (short_directoryName space) (.space space) parent
        [key.group, Text.writeInt key.slot.toInt] with ⟨first, made, firstTidy, firstSame, parent⟩
      rw [List.append_nil] at made
      rw [made]
      cases long : isTooLong key.group with
      | true =>
          rw [Tree.makeAlong_tooLong long]
          exact .inr ⟨_, first, rfl, firstTidy, firstSame, .inr rfl⟩
      | false =>
          have housed : Housed key.group := ⟨plain, long⟩
          rcases firstTidy.descend _ plain long (.group space housed) parent
            [Text.writeInt key.slot.toInt] with ⟨second, made, secondTidy, secondSame, parent⟩
          rw [made]
          rcases secondTidy.descend _ slotPlain (short_slot key.slot) (.partition space housed)
            parent [] with ⟨third, made, thirdTidy, thirdSame, standing⟩
          rw [made]
          exact .inl ⟨third, rfl, thirdTidy, (firstSame.trans secondSame).trans thirdSame, housed,
            standing⟩

/-! ### Writing sidecars -/

/-- Nothing stands where a sidecar is prepared. -/
theorem absent_prepared (space : Space) (key : PartitionKey) (name : FileName) :
    tree.node? (root ++ (partitionPlace space key ++ [Path.preparedName name])) = none := by
  rw [Option.eq_none_iff_forall_ne_some]
  intro node standing
  have belongs := tidy.belongs (by simp) standing
  cases node with
  | directory =>
      have length := belongs.length_le
      simp [partitionPlace] at length
  | file bytes =>
      rcases belongs.exists_sidecar with ⟨other, file, place, _⟩
      have named := (sidecarPlace_eq_append_iff.mp place.symm).2.2
      exact Path.ne_preparedName (FileName.isSidecarName_sidecarName _) name named.symm

theorem enter_partition {space : Space} {key : PartitionKey} (housed : Housed key.group)
    (standing : tree.node? (root ++ partitionPlace space key) = some .directory) :
    tree.enter [] (Path.steps (layout.partitionDirectory space key)) =
      .ok (root ++ partitionPlace space key) := by
  rcases tidy.leads_partition space housed with entered | ⟨_, absent⟩
  · exact entered
  · rw [standing] at absent
    cases absent

/-- A sidecar is written as a whole, or not at all where its temporary path cannot be asked
for. -/
theorem writeSidecar_eq {key : PartitionKey} {file : DataFile} (housed : Housed key.group)
    (storable : Storable file)
    (standing : tree.node? (root ++ partitionPlace file.space key) = some .directory) :
    Tree.writeSidecar (layout.sidecarPath key file) file tree =
      if isImpossible (Path.temporary (layout.sidecarPath key file)) then
        .error (.disk .invalidPath) tree
      else
        .ok () (tree.put (root ++ sidecarPlace key file) (.file (content file))) := by
  have entered := tidy.enter_partition housed standing
  have sidecarPlain := Path.plain_sidecarName (FileName.ofFile file)
  have path : layout.sidecarPath key file =
      Path.join (layout.partitionDirectory file.space key) (FileName.ofFile file).sidecarName :=
    rfl
  have written : Tree.writeSidecar (layout.sidecarPath key file) file tree =
      (Tree.write (Path.temporary (layout.sidecarPath key file)) (content file) >>= fun _ =>
        Tree.rename (Path.temporary (layout.sidecarPath key file))
          (layout.sidecarPath key file)) tree := by
    unfold Tree.writeSidecar
    rw [Sidecar.encode_eq_ok storable]
  rw [written]
  split
  · rename_i impossible
    rw [Tree.bind_eq, Tree.write_of_impossible impossible]
  · rename_i possible
    have preparedPlain := Path.plain_preparedName (FileName.ofFile file)
    rw [Bool.not_eq_true, path, Path.temporary_join] at possible
    have place : root ++ sidecarPlace key file =
        root ++ partitionPlace file.space key ++ [(FileName.ofFile file).sidecarName] := by
      rw [sidecarPlace, List.append_assoc]
    have prepared := Tree.fileAt_join preparedPlain (short_preparedName _) possible entered
    have targetPossible : isImpossible (layout.sidecarPath key file) = false := by
      rw [Path.join_preparedName, ← path] at possible
      exact Path.isImpossible_append possible
    have target : tree.fileAt (layout.sidecarPath key file) =
        .ok (root ++ sidecarPlace key file) := by
      rw [place]
      exact Tree.fileAt_join sidecarPlain (short_sidecarName _) targetPossible entered
    rw [path, Path.temporary_join, ← path]
    apply Tree.write_rename prepared target (by simp)
    · rw [List.append_assoc]
      exact tidy.absent_prepared _ _ _
    · rw [place]
      intro same
      exact Path.ne_preparedName (FileName.isSidecarName_sidecarName _) _
        (List.append_singleton_inj.mp same).2
    · exact tidy.noDirectory (by simp [sidecarPlace, partitionPlace])

theorem put_sidecar {key : PartitionKey} {file : DataFile} (housed : Housed key.group)
    (storable : Storable file)
    (possible : isImpossible (Path.temporary (layout.sidecarPath key file)) = false)
    (standing : tree.node? (root ++ partitionPlace file.space key) = some .directory) :
    Tidy layout root (tree.put (root ++ sidecarPlace key file) (.file (content file))) := by
  have ne : root ++ sidecarPlace key file ≠ [] := by simp [sidecarPlace]
  have noDirectory : tree.node? (root ++ sidecarPlace key file) ≠ some .directory :=
    tidy.noDirectory (by simp [sidecarPlace, partitionPlace])
  have kept : ∀ asked, tree.node? asked = some .directory →
      (tree.put (root ++ sidecarPlace key file) (.file (content file))).node? asked =
        some .directory := by
    intro asked directory
    have differ : asked ≠ root ++ sidecarPlace key file := by
      rintro rfl
      exact noDirectory directory
    rw [Tree.node?_put_of_ne tree differ, directory]
  constructor
  case entered => exact Tree.enter_of_directories kept tidy.entered
  case belongs =>
    intro asked node askedNe found
    by_cases same : root ++ asked = root ++ sidecarPlace key file
    · rw [same, Tree.node?_put_self tree ne] at found
      cases found
      rw [List.append_cancel_left same]
      exact .sidecar housed storable possible
    · rw [Tree.node?_put_of_ne tree same] at found
      exact tidy.belongs askedNe found
  case parents =>
    intro asked last node found
    apply kept
    by_cases same : root ++ (asked ++ [last]) = root ++ sidecarPlace key file
    · have parent := (List.append_singleton_inj.mp (List.append_cancel_left same)).1
      rw [parent]
      exact standing
    · rw [Tree.node?_put_of_ne tree same] at found
      exact tidy.parents found

end Tidy

end SeriesStore.Disk
