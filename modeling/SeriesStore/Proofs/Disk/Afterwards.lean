import SeriesStore.Proofs.Disk.Confined
import SeriesStore.Proofs.Disk.Recovery

/-!
# Recovery after sidecars were written

Below the root of the layout every listing is decided by what stands at the places of the
layout, whatever else the tree holds.  So trees in which the same sidecars stand in the
directories of a partition recover it alike.

Sidecars that are written are in the directories of one partition, and no partition comes
up that was not listed before.  A tree that could be recovered from still can be, then, as
long as that one partition can.
-/

namespace SeriesStore.Disk

open SeriesStore.Disk.Path (Plain isImpossible)
open SeriesStore.Disk.Tree (isTooLong)
open Layout (HasDirectory)

/-! ## Places below the root -/

theorem steps_spaceDirectory (layout : Layout) (space : Space) :
    Path.steps (layout.spaceDirectory space) =
      Path.steps layout.root ++ [space.directoryName] :=
  Path.steps_join _ (Path.plain_directoryName space)

theorem steps_groupDirectory (layout : Layout) (space : Space) {group : String}
    (plain : Plain group) :
    Path.steps (layout.groupDirectory space group) =
      Path.steps layout.root ++ [space.directoryName, group] := by
  rw [Layout.groupDirectory, Path.steps_join _ plain, steps_spaceDirectory, List.append_assoc]
  rfl

theorem plain_spacePlace (space : Space) : ∀ name ∈ [space.directoryName], Plain name := by
  simpa using Path.plain_directoryName space

theorem plain_groupPlace (space : Space) {group : String} (plain : Plain group) :
    ∀ name ∈ [space.directoryName, group], Plain name := by
  simpa using And.intro (Path.plain_directoryName space) plain

section Places

variable {layout : Layout} {root : Location} {tree : Tree} (rooted : Rooted layout root tree)
  {path : String} {way : Location} (steps : Path.steps path = Path.steps layout.root ++ way)
  (plain : ∀ name ∈ way, Plain name)

include rooted steps plain

theorem Rooted.directoryAt_eq_ok_iff (location : Location) :
    tree.directoryAt path = .ok location ↔
      isImpossible path = false ∧ location = root ++ way ∧
        tree.node? (root ++ way) = some .directory := by
  rw [Tree.directoryAt_eq_ok_iff, steps, Tree.enter_append, rooted.entered]
  dsimp only
  constructor
  · rintro ⟨possible, entered⟩
    have place := Tree.eq_of_enter plain entered
    subst place
    exact ⟨possible, rfl, Tree.node?_of_enter rooted.standing entered⟩
  · rintro ⟨possible, rfl, standing⟩
    exact ⟨possible, rooted.wellFormed.enter_of_directory rooted.standing standing⟩

/-- A path of the layout finds a directory or nothing when no file stands on the way. -/
theorem Rooted.listable_iff (short : ∀ name ∈ way, isTooLong name = false) :
    tree.Listable path ↔ isImpossible path = false ∧ tree.Clear root way := by
  have followed : isImpossible path = false →
      tree.directoryAt path = tree.enter root way := by
    intro possible
    rw [Tree.directoryAt, if_neg (by simp [possible]), steps, Tree.enter_append, rooted.entered]
  constructor
  · intro listable
    have possible : isImpossible path = false := by
      rw [Tree.Listable, Tree.directoryAt] at listable
      cases possible : isImpossible path with
      | false => rfl
      | true => simp [possible] at listable
    rw [Tree.Listable, followed possible] at listable
    exact ⟨possible, Tree.clear_of_enter rooted.wellFormed plain rooted.standing listable⟩
  · rintro ⟨possible, clear⟩
    rw [Tree.Listable, followed possible]
    rcases Tree.enter_of_clear rooted.wellFormed plain short rooted.standing clear with
      entered | ⟨missing, _⟩
    · exact .inr ⟨_, entered⟩
    · exact .inl missing

theorem Rooted.hasDirectory_iff (name : String) :
    HasDirectory tree path name ↔
      tree.node? (root ++ (way ++ [name])) = some .directory ∧
        isImpossible (Path.join path name) = false := by
  rw [HasDirectory]
  simp only [rooted.directoryAt_eq_ok_iff steps plain]
  constructor
  · rintro ⟨location, ⟨_, rfl, _⟩, standing, possible⟩
    rw [List.append_assoc] at standing
    exact ⟨standing, possible⟩
  · rintro ⟨standing, possible⟩
    rw [← List.append_assoc] at standing
    rcases rooted.wellFormed.inOrder standing with ⟨parent, named, _⟩
    exact ⟨root ++ way, ⟨Path.isImpossible_of_join named.head?_ne possible, rfl, parent⟩, standing,
      possible⟩

end Places

section Partitions

variable {layout : Layout} {root : Location} {tree : Tree} (rooted : Rooted layout root tree)
  {space : Space} {key : PartitionKey}

include rooted

theorem Rooted.hasPartition_iff (name : String) :
    layout.HasPartition tree space key name ↔
      tree.node? (root ++ [space.directoryName, key.group, name]) = some .directory ∧
        isImpossible (Path.join (layout.groupDirectory space key.group) name) = false ∧
          Text.readInt64? name.toList = some key.slot := by
  have above := rooted.hasDirectory_iff (steps_spaceDirectory layout space)
    (plain_spacePlace space) key.group
  have below (plain : Plain key.group) :=
    rooted.hasDirectory_iff (steps_groupDirectory layout space plain)
      (plain_groupPlace space plain) name
  rw [Layout.HasPartition, above]
  constructor
  · rintro ⟨⟨standing, _⟩, has, number⟩
    have plain : Plain key.group :=
      (rooted.wellFormed.names standing key.group (by simp)).1
    rcases (below plain).mp has with ⟨inGroup, possible⟩
    exact ⟨inGroup, possible, number⟩
  · rintro ⟨standing, possible, number⟩
    have names := rooted.wellFormed.names standing
    have plain : Plain key.group := (names key.group (by simp)).1
    have named : Plain name := (names name (by simp)).1
    have slot : tree.node? ((root ++ ([space.directoryName] ++ [key.group])) ++ [name]) =
        some .directory := by
      simpa using standing
    refine ⟨⟨rooted.wellFormed.parent slot, ?_⟩, (below plain).mpr ⟨by simpa using slot, possible⟩,
      number⟩
    rw [Layout.groupDirectory] at possible
    exact Path.isImpossible_of_join named.head?_ne possible

/-- The group of a listed partition has a plain name that is not too long. -/
theorem Rooted.housed {keys : List PartitionKey} (listed : layout.listPartitions tree = .ok keys)
    (member : key ∈ keys) : Housed key.group := by
  rcases (Layout.mem_listPartitions listed key).mp member with ⟨space, name, has⟩
  have standing := ((rooted.hasPartition_iff name).mp has).1
  rcases rooted.wellFormed.names standing key.group (by simp) with ⟨plain, short⟩
  exact ⟨plain, short⟩

/-- A file that stands in the directory of a partition under a name that is read as that of a
sidecar. -/
theorem Rooted.hasSidecar_iff (plain : Plain key.group) {sidecar : FileName × String}
    {name : String} {bytes : List UInt8} :
    layout.HasSidecar tree space key sidecar name bytes ↔
      tree.node? (root ++ (partitionPlace space key ++ [name])) = some (.file bytes) ∧
        sidecar.2 = Path.join (layout.partitionDirectory space key) name ∧
        isImpossible sidecar.2 = false ∧ FileName.isSidecarName name = true ∧
        FileName.parse? name = some sidecar.1 := by
  have found := rooted.directoryAt_eq_ok_iff (steps_partitionDirectory layout space plain)
    (plain_partitionPlace plain)
  constructor
  · rintro ⟨⟨location, reached, standing⟩, path_eq, possible, named, parsed⟩
    rw [((found location).mp reached).2.1, List.append_assoc] at standing
    exact ⟨standing, path_eq, possible, named, parsed⟩
  · rintro ⟨standing, path_eq, possible, named, parsed⟩
    rw [← List.append_assoc] at standing
    rcases rooted.wellFormed.inOrder standing with ⟨parent, own, _⟩
    have above : isImpossible (layout.partitionDirectory space key) = false := by
      rw [path_eq] at possible
      exact Path.isImpossible_of_join own.head?_ne possible
    exact ⟨⟨_, (found _).mpr ⟨above, rfl, parent⟩, standing⟩, path_eq, possible, named, parsed⟩

/-- The sidecar of a file, as it is listed. -/
theorem Rooted.hasSidecar_ofFile_iff (plain : Plain key.group) (file : DataFile)
    (bytes : List UInt8) :
    layout.HasSidecar tree file.space key (FileName.ofFile file, layout.sidecarPath key file)
        (FileName.ofFile file).sidecarName bytes ↔
      tree.node? (root ++ sidecarPlace key file) = some (.file bytes) ∧
        isImpossible (layout.sidecarPath key file) = false := by
  rw [rooted.hasSidecar_iff plain, ← sidecarPlace]
  dsimp only
  rw [← Layout.sidecarPath]
  have named := FileName.isSidecarName_sidecarName (FileName.ofFile file)
  have parsed := FileName.parse?_sidecarName (FileName.ofFile file)
  simp only [named, parsed, and_true, true_and]

/-- A sidecar that stands at the path of a file's sidecar is listed as that. -/
theorem Rooted.eq_ofFile_of_path (plain : Plain key.group) {sidecar : FileName × String}
    {name : String} {bytes : List UInt8}
    (has : layout.HasSidecar tree space key sidecar name bytes) {file : DataFile}
    (path : sidecar.2 = layout.sidecarPath key file) :
    partitionPlace space key ++ [name] = sidecarPlace key file ∧
      sidecar = (FileName.ofFile file, layout.sidecarPath key file) := by
  rcases (rooted.hasSidecar_iff plain).mp has with ⟨standing, path_eq, _, _, parsed⟩
  have named := (rooted.wellFormed.names standing name (by simp)).1
  have steps := congrArg Path.steps (path_eq.symm.trans path)
  rw [Path.steps_join _ named, steps_partitionDirectory layout space plain, Layout.sidecarPath,
    Path.steps_join _ (Path.plain_sidecarName _), steps_partitionDirectory layout _ plain,
    List.append_assoc, List.append_assoc] at steps
  have place := List.append_cancel_left steps
  rw [(List.append_singleton_inj.mp place).2, FileName.parse?_sidecarName] at parsed
  rcases sidecar with ⟨ownName, ownPath⟩
  dsimp only at path parsed
  rw [path, ← Option.some.inj parsed]
  exact ⟨place, rfl⟩

end Partitions

/-! ## What the sidecars of a partition bring back -/

namespace Layout

section Restored

variable {layout : Layout} {tree : Tree} (wellFormed : tree.WellFormed) {space : Space}
  {key : PartitionKey} {sidecar : FileName × String} {name : String} {bytes : List UInt8}

theorem mem_restoredIn_iff (listed : ∃ sidecars, layout.listSidecars tree space key = .ok sidecars)
    (kept : DataFile) :
    kept ∈ layout.restoredIn tree key space ↔
      ∃ sidecar name bytes, layout.HasSidecar tree space key sidecar name bytes ∧
        restoredAt? tree sidecar.2 = some kept := by
  rcases listed with ⟨sidecars, listed⟩
  rw [restoredIn_eq listed, List.mem_filterMap]
  simp only [mem_listSidecars listed]
  constructor
  · rintro ⟨sidecar, ⟨name, bytes, has⟩, back⟩
    exact ⟨sidecar, name, bytes, has, back⟩
  · rintro ⟨sidecar, name, bytes, has, back⟩
    exact ⟨sidecar, ⟨name, bytes, has⟩, back⟩

include wellFormed

theorem HasSidecar.readSidecar (has : layout.HasSidecar tree space key sidecar name bytes) :
    tree.readSidecar sidecar.2 = Sidecar.decode bytes := by
  rw [Tree.readSidecar, has.read wellFormed]

theorem HasSidecar.restoredAt?_eq_some_iff
    (has : layout.HasSidecar tree space key sidecar name bytes) (kept : DataFile) :
    restoredAt? tree sidecar.2 = some kept ↔
      ∃ file, Sidecar.decode bytes = .ok file ∧ revived? file = some kept := by
  rw [restoredAt?, has.readSidecar wellFormed]
  cases Sidecar.decode bytes <;> simp

theorem nodup_listSidecars_of_wellFormed {sidecars : List (FileName × String)}
    (listed : layout.listSidecars tree space key = .ok sidecars) : sidecars.Nodup := by
  apply nodup_listSidecars listed
  intro sidecar name bytes has
  rcases has.standing with ⟨location, _, standing⟩
  exact (wellFormed.plain standing).1.head?_ne

/-- A number comes back once when no two sidecars bring it back. -/
theorem count_restored_le_one (inPlace : ∀ space, layout.AllInPlace tree key space) (id : FileId)
    (apart : ∀ first second name other bytes more firstSpace secondSpace,
      layout.HasSidecar tree firstSpace key first name bytes →
      layout.HasSidecar tree secondSpace key second other more →
      ∀ firstKept secondKept, restoredAt? tree first.2 = some firstKept →
        restoredAt? tree second.2 = some secondKept → firstKept.id = id → secondKept.id = id →
          first = second) :
    ((layout.restored tree key).map DataFile.id).count id ≤ 1 := by
  have listed := fun space => (inPlace space).exists_listed
  have within (space : Space) : ((layout.restoredIn tree key space).map DataFile.id).Pairwise
      fun first second => first = id → second ≠ id := by
    rcases listed space with ⟨sidecars, listed⟩
    rw [restoredIn_eq listed, List.pairwise_map, List.pairwise_filterMap]
    apply (nodup_listSidecars_of_wellFormed wellFormed listed).imp_of_mem
    intro first second firstMember secondMember differ firstKept firstBack secondKept secondBack
      firstId secondId
    rcases (mem_listSidecars listed first).mp firstMember with ⟨_, _, firstHas⟩
    rcases (mem_listSidecars listed second).mp secondMember with ⟨_, _, secondHas⟩
    exact differ (apart _ _ _ _ _ _ _ _ firstHas secondHas _ _ firstBack secondBack firstId
      secondId)
  have across : ((layout.restored tree key).map DataFile.id).Pairwise
      fun first second => first = id → second ≠ id := by
    rw [restored_eq_append, List.map_append, List.pairwise_append]
    refine ⟨within .sequence, within .unsequence, ?_⟩
    rintro _ inSequence _ inUnsequence firstId secondId
    rcases List.mem_map.mp inSequence with ⟨first, firstMember, rfl⟩
    rcases List.mem_map.mp inUnsequence with ⟨second, secondMember, rfl⟩
    rcases (mem_restoredIn_iff (listed _) _).mp firstMember with ⟨_, _, _, firstHas, firstBack⟩
    rcases (mem_restoredIn_iff (listed _) _).mp secondMember with ⟨_, _, _, secondHas, secondBack⟩
    have sidecars := apart _ _ _ _ _ _ _ _ firstHas secondHas _ _ firstBack secondBack firstId
      secondId
    rw [sidecars, secondBack] at firstBack
    cases firstBack
    have spaces := (space_of_mem_restoredIn (inPlace _) firstMember).symm.trans
      (space_of_mem_restoredIn (inPlace _) secondMember)
    contradiction
  by_contra twice
  have pair : (List.replicate 2 id).Sublist ((layout.restored tree key).map DataFile.id) :=
    List.replicate_sublist_iff.mpr (Nat.lt_of_not_le twice)
  have apartTwice := across.sublist pair
  rw [List.replicate_succ, List.pairwise_cons] at apartTwice
  exact apartTwice.1 id (by simp) rfl rfl

/-- No number comes back twice when no two sidecars bring the same one back. -/
theorem distinct_restored (inPlace : ∀ space, layout.AllInPlace tree key space)
    (apart : ∀ first second name other bytes more firstSpace secondSpace,
      layout.HasSidecar tree firstSpace key first name bytes →
      layout.HasSidecar tree secondSpace key second other more →
      ∀ firstKept secondKept, restoredAt? tree first.2 = some firstKept →
        restoredAt? tree second.2 = some secondKept → firstKept.id = secondKept.id →
          first = second) :
    ((layout.restored tree key).map DataFile.id).Nodup := by
  rw [List.nodup_iff_count_le_one]
  intro id
  apply count_restored_le_one wellFormed inPlace
  intro first second _ _ _ _ _ _ firstHas secondHas _ _ firstBack secondBack firstId secondId
  exact apart _ _ _ _ _ _ _ _ firstHas secondHas _ _ firstBack secondBack
    (firstId.trans secondId.symm)

end Restored

section Same

variable {layout : Layout} {tree after : Tree} {key : PartitionKey}
  (wellFormed : tree.WellFormed) (afterWellFormed : after.WellFormed)
  (same : ∀ space sidecar name bytes, layout.HasSidecar after space key sidecar name bytes ↔
    layout.HasSidecar tree space key sidecar name bytes)

include wellFormed afterWellFormed same

theorem listSidecars_perm {space : Space} {sidecars others : List (FileName × String)}
    (listed : layout.listSidecars tree space key = .ok sidecars)
    (afterListed : layout.listSidecars after space key = .ok others) :
    others.Perm sidecars ∧
      ∀ sidecar ∈ sidecars, after.readSidecar sidecar.2 = tree.readSidecar sidecar.2 := by
  constructor
  · rw [List.perm_ext_iff_of_nodup (nodup_listSidecars_of_wellFormed afterWellFormed afterListed)
      (nodup_listSidecars_of_wellFormed wellFormed listed)]
    intro sidecar
    rw [mem_listSidecars listed, mem_listSidecars afterListed]
    exact exists₂_congr fun name bytes => same space sidecar name bytes
  · intro sidecar member
    rcases (mem_listSidecars listed sidecar).mp member with ⟨name, bytes, has⟩
    rw [has.readSidecar wellFormed, ((same _ _ _ _).mpr has).readSidecar afterWellFormed]

/-- Where the same sidecars stand, a partition is recoverable when it was. -/
theorem Recoverable.of_sameSidecars (recoverable : layout.Recoverable tree key)
    (listable : ∀ space, after.Listable (layout.partitionDirectory space key)) :
    layout.Recoverable after key := by
  have inPlace : ∀ space, layout.AllInPlace after key space ∧
      (layout.restoredIn after key space).Perm (layout.restoredIn tree key space) := by
    intro space
    rcases recoverable.inPlace space with ⟨sidecars, listed, inPlace⟩
    rcases exists_listSidecars (listable space) with ⟨others, afterListed⟩
    rcases listSidecars_perm wellFormed afterWellFormed same listed afterListed with
      ⟨perm, reading⟩
    constructor
    · refine ⟨others, afterListed, fun sidecar member => ?_⟩
      have before := perm.mem_iff.mp member
      rw [InPlace, reading sidecar before]
      exact inPlace sidecar before
    · rw [restoredIn_eq listed, restoredIn_eq afterListed]
      have back : ∀ sidecar ∈ sidecars,
          restoredAt? after sidecar.2 = restoredAt? tree sidecar.2 := by
        intro sidecar member
        rw [restoredAt?, restoredAt?, reading sidecar member]
      rw [← List.filterMap_congr back]
      exact perm.filterMap _
  have restored : (layout.restored after key).Perm (layout.restored tree key) :=
    List.Perm.flatMap_left _ fun space _ => (inPlace space).2
  constructor
  case inPlace => exact fun space => (inPlace space).1
  case validated =>
    exact fun file member => recoverable.validated file (restored.mem_iff.mp member)
  case distinct => exact (restored.map DataFile.id).nodup_iff.mpr recoverable.distinct

end Same

end Layout

/-! ## Trees that recovery has been through -/

section Recovered

variable {layout : Layout} {tree : Tree}

theorem Tree.listable_of_listIfPresent {path : String} {listing : List (String × Node)}
    (shown : tree.listIfPresent path = .ok listing) : tree.Listable path := by
  rw [Tree.listIfPresent, Tree.list] at shown
  rw [Tree.Listable]
  cases found : tree.directoryAt path with
  | ok location => exact .inr ⟨location, rfl⟩
  | error fault =>
      rw [found] at shown
      cases fault <;> simp at shown ⊢

theorem Layout.AllInPlace.listable {key : PartitionKey} {space : Space}
    (inPlace : layout.AllInPlace tree key space) :
    tree.Listable (layout.partitionDirectory space key) := by
  rcases inPlace with ⟨sidecars, listed, _⟩
  rcases Layout.listSidecars_eq_ok listed with ⟨listing, shown, _⟩
  exact Tree.listable_of_listIfPresent shown

theorem Layout.listable_spaceDirectory {keys : List PartitionKey}
    (listed : layout.listPartitions tree = .ok keys) (space : Space) :
    tree.Listable (layout.spaceDirectory space) := by
  rw [Layout.listPartitions] at listed
  split at listed
  · contradiction
  · rename_i found gathered
    have spaceListed : space ∈ Space.all := by cases space <;> decide
    rcases exists_of_gather gathered spaceListed with ⟨own, ownListed⟩
    rw [Layout.spacePartitions] at ownListed
    split at ownListed
    · contradiction
    · rename_i listing shown
      exact Tree.listable_of_listIfPresent shown

/-- Recovery has listed the partitions, and each of them is recoverable. -/
theorem Layout.recoverable_of_recover {earlier : Registry}
    (outcome : layout.recover tree = .ok earlier) :
    ∃ keys, layout.listPartitions tree = .ok keys ∧
      ∀ key ∈ keys, layout.Recoverable tree key := by
  cases listed : layout.listPartitions tree with
  | error fault =>
      rw [Layout.recover, listed] at outcome
      contradiction
  | ok keys =>
      refine ⟨keys, rfl, fun key member => ?_⟩
      rw [← Layout.exists_describes_iff]
      exact (Layout.exists_recover_iff listed).mp ⟨earlier, outcome⟩ key member

end Recovered

/-! ## Trees into which sidecars have been written -/

section Written

variable {layout : Layout} {root : Location} {tree after : Tree} {key : PartitionKey}
  {keys : List PartitionKey} (rooted : Rooted layout root tree)
  (confined : Confined root key tree after)

/-- Above the sidecars no file has come up, so a clear way stays clear. -/
theorem Confined.clear (confined : Confined root key tree after) {way : Location}
    (length : way.length ≤ 3) (clear : tree.Clear root way) : after.Clear root way := by
  intro front isFront content standing
  have outside : ¬ Inside root key (root ++ front) := by
    apply not_inside_of_length_le
    have shorter := isFront.length_le
    rw [List.length_append]
    omega
  rcases confined.elsewhere _ outside with same | ⟨_, directory, _⟩
  · rw [same] at standing
    exact clear front isFront content standing
  · rw [directory] at standing
    cases standing

include rooted confined

/-- A partition that is listed after the writing was listed before, unless it is the one that
was written to. -/
theorem hasPartition_of_after {space : Space} {other : PartitionKey} {name : String}
    (has : layout.HasPartition after space other name) :
    layout.HasPartition tree space other name ∨ other = key := by
  rw [(confined.rooted rooted).hasPartition_iff] at has
  rw [rooted.hasPartition_iff]
  rcases has with ⟨standing, possible, number⟩
  have outside : ¬ Inside root key (root ++ [space.directoryName, other.group, name]) :=
    not_inside_of_length_le (by simp)
  rcases confined.elsewhere _ outside with same | ⟨_, _, within, front⟩
  · rw [same] at standing
    exact .inl ⟨standing, possible, number⟩
  · right
    rw [List.prefix_append_right_inj, partitionPlace] at front
    have place := front.eq_of_length rfl
    simp only [List.cons.injEq, and_true] at place
    rcases place with ⟨_, groups, rfl⟩
    rw [Text.readInt64?_writeInt] at number
    have slots := Option.some.inj number
    rcases other with ⟨group, slot⟩
    rcases key with ⟨keyGroup, keySlot⟩
    cases groups
    cases slots
    rfl

theorem hasPartition_after {space : Space} {other : PartitionKey} {name : String}
    (has : layout.HasPartition tree space other name) :
    layout.HasPartition after space other name := by
  rw [rooted.hasPartition_iff] at has
  rw [(confined.rooted rooted).hasPartition_iff]
  exact ⟨confined.directories _ has.1, has.2⟩

theorem mem_listPartitions_after (listed : layout.listPartitions tree = .ok keys)
    (member : key ∈ keys) {afterKeys : List PartitionKey}
    (afterListed : layout.listPartitions after = .ok afterKeys) (other : PartitionKey) :
    other ∈ afterKeys ↔ other ∈ keys := by
  rw [Layout.mem_listPartitions afterListed, Layout.mem_listPartitions listed]
  constructor
  · rintro ⟨space, name, has⟩
    rcases hasPartition_of_after rooted confined has with before | rfl
    · exact ⟨space, name, before⟩
    · exact (Layout.mem_listPartitions listed other).mp member
  · rintro ⟨space, name, has⟩
    exact ⟨space, name, hasPartition_after rooted confined has⟩

/-- The directories of a partition that is listed can be looked into as before. -/
theorem listable_partition_after (listed : layout.listPartitions tree = .ok keys)
    (recoverable : ∀ key ∈ keys, layout.Recoverable tree key) {other : PartitionKey}
    (member : other ∈ keys) (space : Space) :
    after.Listable (layout.partitionDirectory space other) := by
  have housed := rooted.housed listed member
  have steps := steps_partitionDirectory layout space housed.plain
  have plain : ∀ name ∈ partitionPlace space other, Plain name := plain_partitionPlace housed.plain
  have short : ∀ name ∈ partitionPlace space other, isTooLong name = false := by
    simp only [partitionPlace, List.forall_mem_cons]
    exact ⟨short_directoryName space, housed.short, short_slot _, by simp⟩
  have before := ((recoverable other member).inPlace space).listable
  rw [rooted.listable_iff steps plain short] at before
  rw [(confined.rooted rooted).listable_iff steps plain short]
  exact ⟨before.1, confined.clear (by simp [partitionPlace]) before.2⟩

/-- After the writing recovery finds a directory or nothing wherever it looks. -/
theorem listable_after (listed : layout.listPartitions tree = .ok keys)
    (recoverable : ∀ key ∈ keys, layout.Recoverable tree key) (member : key ∈ keys)
    (path : String) (lists : layout.Lists after path) : after.Listable path := by
  have afterRooted := confined.rooted rooted
  cases lists with
  | space space =>
      have steps := steps_spaceDirectory layout space
      have plain := plain_spacePlace space
      have short : ∀ name ∈ [space.directoryName], isTooLong name = false := by
        simpa using short_directoryName space
      have before := Layout.listable_spaceDirectory listed space
      rw [rooted.listable_iff steps plain short] at before
      rw [afterRooted.listable_iff steps plain short]
      exact ⟨before.1, confined.clear (by simp) before.2⟩
  | @group space listing group shown listedGroup =>
      have has := (Layout.mem_directoryNames_iff shown group).mp listedGroup
      rw [afterRooted.hasDirectory_iff (steps_spaceDirectory layout space)
        (plain_spacePlace space)] at has
      have plain := (afterRooted.wellFormed.names has.1 group (by simp)).1
      right
      exact ⟨_, (afterRooted.directoryAt_eq_ok_iff (steps_groupDirectory layout space plain)
        (plain_groupPlace space plain) _).mpr ⟨has.2, rfl, has.1⟩⟩
  | @partition space afterKeys other afterListed isListed =>
      have before :=
        (mem_listPartitions_after rooted confined listed member afterListed other).mp isListed
      exact listable_partition_after rooted confined listed recoverable before space

/-- In the directories of another partition the same sidecars stand as before. -/
theorem hasSidecar_after_iff {other : PartitionKey} (plain : Plain other.group)
    (differ : other ≠ key) (space : Space) (sidecar : FileName × String) (name : String)
    (bytes : List UInt8) :
    layout.HasSidecar after space other sidecar name bytes ↔
      layout.HasSidecar tree space other sidecar name bytes := by
  rw [(confined.rooted rooted).hasSidecar_iff plain, rooted.hasSidecar_iff plain]
  have outside : ¬ Inside root key (root ++ (partitionPlace space other ++ [name])) := by
    rintro ⟨within, inner, same⟩
    have places := (List.append_singleton_inj.mp (List.append_cancel_left same)).1
    exact differ (partitionPlace_inj places).2
  rcases confined.elsewhere _ outside with same | ⟨_, _, onWay⟩
  · rw [same]
  · have length := onWay.length_le
    simp [partitionPlace] at length

/-- The other partitions are recoverable as before. -/
theorem recoverable_elsewhere (listed : layout.listPartitions tree = .ok keys)
    (before : ∀ key ∈ keys, layout.Recoverable tree key) {other : PartitionKey}
    (member : other ∈ keys) (differ : other ≠ key) : layout.Recoverable after other :=
  (before other member).of_sameSidecars rooted.wellFormed (confined.rooted rooted).wellFormed
    (hasSidecar_after_iff rooted confined (rooted.housed listed member).plain differ)
    (listable_partition_after rooted confined listed before member)

/-- After sidecars of a partition have been written, recovery succeeds if it did before and
the partition is recoverable. -/
theorem recover_after {earlier : Registry} (recovers : layout.recover tree = .ok earlier)
    (member : key ∈ earlier.keys) (recoverable : layout.Recoverable after key) :
    ∃ recovered, layout.recover after = .ok recovered ∧
      ∃ partition, recovered.partition? key = some partition ∧
        layout.Restores after key partition := by
  rcases Layout.recoverable_of_recover recovers with ⟨keys, listed, before⟩
  rw [(Layout.described_of_recover listed recovers).1] at member
  rcases Layout.exists_listPartitions (listable_after rooted confined listed before member) with
    ⟨afterKeys, afterListed⟩
  have same := mem_listPartitions_after rooted confined listed member afterListed
  have every : ∀ other ∈ afterKeys, ∃ partition, layout.Describes after other partition := by
    intro other isListed
    rw [Layout.exists_describes_iff]
    by_cases own : other = key
    · exact own ▸ recoverable
    · exact recoverable_elsewhere rooted confined listed before ((same other).mp isListed) own
  rcases (Layout.exists_recover_iff afterListed).mpr every with ⟨recovered, outcome⟩
  rcases (Layout.described_of_recover afterListed outcome).2 key ((same key).mpr member) with
    ⟨partition, present, described⟩
  exact ⟨recovered, outcome, partition, present, described.restores⟩

end Written

/-! ### The sidecars that were written -/

section Saved

variable {layout : Layout} {root : Location} {tree after : Tree} {key : PartitionKey}
  {files : List DataFile} (rooted : Rooted layout root tree) (plain : Plain key.group)
  (saved : Saved layout root key files tree after) {space : Space} {sidecar : FileName × String}
  {name : String} {bytes : List UInt8}

include rooted plain saved

theorem hasSidecar_written {file : DataFile} (member : file ∈ files) :
    layout.HasSidecar after file.space key (FileName.ofFile file, layout.sidecarPath key file)
      (FileName.ofFile file).sidecarName (Sidecar.content file) :=
  ((saved.confined.rooted rooted).hasSidecar_ofFile_iff plain file _).mpr
    ⟨saved.own file member, saved.possible file member⟩

/-- A sidecar that has not been written over stands as before. -/
theorem hasSidecar_unwritten_iff
    (away : ∀ file ∈ files, partitionPlace space key ++ [name] ≠ sidecarPlace key file) :
    layout.HasSidecar after space key sidecar name bytes ↔
      layout.HasSidecar tree space key sidecar name bytes := by
  rw [(saved.confined.rooted rooted).hasSidecar_iff plain, rooted.hasSidecar_iff plain]
  constructor
  · rintro ⟨standing, path_eq, possible, named, parsed⟩
    rw [saved.others space name named away] at standing
    exact ⟨standing, path_eq, possible, named, parsed⟩
  · rintro ⟨standing, path_eq, possible, named, parsed⟩
    rw [← saved.others space name named away] at standing
    exact ⟨standing, path_eq, possible, named, parsed⟩

/-- A sidecar that stands afterwards has been written, or it stood there before and has not
been written over. -/
theorem hasSidecar_cases (has : layout.HasSidecar after space key sidecar name bytes) :
    (∃ file ∈ files, space = file.space ∧ bytes = Sidecar.content file ∧
      sidecar = (FileName.ofFile file, layout.sidecarPath key file)) ∨
    layout.HasSidecar tree space key sidecar name bytes ∧
      ∀ file ∈ files, partitionPlace space key ++ [name] ≠ sidecarPlace key file := by
  by_cases written : ∃ file ∈ files, partitionPlace space key ++ [name] = sidecarPlace key file
  · rcases written with ⟨file, member, place⟩
    rcases (sidecarPlace_eq_append_iff.mp place.symm) with ⟨_, sameSpace, sameName⟩
    subst sameSpace sameName
    rcases ((saved.confined.rooted rooted).hasSidecar_iff plain).mp has with
      ⟨standing, path_eq, _, _, parsed⟩
    rw [place, saved.own file member] at standing
    cases standing
    rw [FileName.parse?_sidecarName] at parsed
    rcases sidecar with ⟨ownName, ownPath⟩
    dsimp only at path_eq parsed
    rw [path_eq, ← Option.some.inj parsed, ← Layout.sidecarPath]
    exact .inl ⟨file, member, rfl, rfl, rfl⟩
  · simp only [not_exists, not_and] at written
    exact .inr ⟨(hasSidecar_unwritten_iff rooted plain saved written).mp has, written⟩

end Saved

end SeriesStore.Disk
