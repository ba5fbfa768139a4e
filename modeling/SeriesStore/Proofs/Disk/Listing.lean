import SeriesStore.Disk.Layout
import SeriesStore.Proofs.Disk.Tree

/-!
# What a layout lists

A partition is listed when a directory of its slot stands in a directory of its group in
either space, and a sidecar is listed when a file of its name stands in the directory of
its partition.  A listing fails only where one of the directories that it looks into is
something else.  In an orderly tree every listed sidecar can be read.
-/

namespace SeriesStore.Disk

open SeriesStore.Disk.Path (isImpossible)
open SeriesStore.Disk.Tree (Listable)

theorem exists_gather {α β ε : Type} {find : α → Except ε (List β)} {items : List α}
    (total : ∀ item ∈ items, ∃ own, find item = .ok own) :
    ∃ found, gather find items = .ok found := by
  induction items with
  | nil => exact ⟨[], rfl⟩
  | cons item rest ih =>
      rw [List.forall_mem_cons] at total
      rcases total with ⟨⟨own, first⟩, others⟩
      rcases ih others with ⟨more, gathered⟩
      exact ⟨own ++ more, by simp only [gather, first, gathered]⟩

theorem exists_of_gather {α β ε : Type} {find : α → Except ε (List β)} {items : List α}
    {found : List β} (gathered : gather find items = .ok found) {item : α}
    (member : item ∈ items) : ∃ own, find item = .ok own := by
  induction items generalizing found with
  | nil => contradiction
  | cons first rest ih =>
      rw [gather] at gathered
      split at gathered
      · contradiction
      · rename_i own leads
        split at gathered
        · contradiction
        · rename_i others more
          rcases List.mem_cons.mp member with rfl | member
          · exact ⟨own, leads⟩
          · exact ih more member

theorem nodup_fileNames {listing : List (String × Node)} (nodup : (listing.map Prod.fst).Nodup) :
    (fileNames listing).Nodup := by
  rw [List.Nodup, List.pairwise_map] at nodup
  rw [fileNames, List.Nodup, List.pairwise_filterMap]
  apply nodup.imp
  rintro ⟨first, firstNode⟩ ⟨second, secondNode⟩ differ name isFirst _ isSecond rfl
  cases firstNode <;> cases secondNode <;> cases isFirst <;> cases isSecond
  exact differ rfl

namespace Layout

variable {layout : Layout} {tree : Tree}

/-- The directory of a group in one space. -/
def groupDirectory (layout : Layout) (space : Space) (group : String) : String :=
  Path.join (layout.spaceDirectory space) group

/-- The directories into which recovery looks. -/
inductive Lists (layout : Layout) (tree : Tree) : String → Prop where
  | space (space : Space) : Lists layout tree (layout.spaceDirectory space)
  | group (space : Space) {listing : List (String × Node)} {group : String}
      (listed : tree.listIfPresent (layout.spaceDirectory space) = .ok listing)
      (member : group ∈ directoryNames listing) :
      Lists layout tree (layout.groupDirectory space group)
  | partition (space : Space) {keys : List PartitionKey} {key : PartitionKey}
      (listed : layout.listPartitions tree = .ok keys) (member : key ∈ keys) :
      Lists layout tree (layout.partitionDirectory space key)

/-! ## Partitions -/

/-- A directory that stands in another one and can be asked for. -/
def HasDirectory (tree : Tree) (path name : String) : Prop :=
  ∃ location, tree.directoryAt path = .ok location ∧
    tree.node? (location ++ [name]) = some .directory ∧
    isImpossible (Path.join path name) = false

theorem mem_directoryNames_iff {path : String} {listing : List (String × Node)}
    (listed : tree.listIfPresent path = .ok listing) (name : String) :
    name ∈ directoryNames listing ↔ HasDirectory tree path name := by
  rw [mem_directoryNames, Tree.mem_listIfPresent listed, HasDirectory]

theorem mem_groupPartitions {space : Space} {group : String} {keys : List PartitionKey}
    (listed : layout.groupPartitions tree space group = .ok keys) (key : PartitionKey) :
    key ∈ keys ↔ key.group = group ∧
      ∃ name, HasDirectory tree (layout.groupDirectory space group) name ∧
        Text.readInt64? name.toList = some key.slot := by
  rw [groupPartitions] at listed
  split at listed
  · contradiction
  · rename_i listing shown
    cases listed
    simp only [List.mem_filterMap, mem_directoryNames_iff shown, Option.map_eq_some_iff]
    constructor
    · rintro ⟨name, standing, slot, number, rfl⟩
      exact ⟨rfl, name, standing, number⟩
    · rintro ⟨rfl, name, standing, number⟩
      exact ⟨name, standing, key.slot, number, rfl⟩

/-- The directory names by which a partition is listed. -/
def HasPartition (layout : Layout) (tree : Tree) (space : Space) (key : PartitionKey)
    (name : String) : Prop :=
  HasDirectory tree (layout.spaceDirectory space) key.group ∧
    HasDirectory tree (layout.groupDirectory space key.group) name ∧
    Text.readInt64? name.toList = some key.slot

theorem mem_spacePartitions {space : Space} {keys : List PartitionKey}
    (listed : layout.spacePartitions tree space = .ok keys) (key : PartitionKey) :
    key ∈ keys ↔ ∃ name, layout.HasPartition tree space key name := by
  rw [spacePartitions] at listed
  split at listed
  · contradiction
  · rename_i listing shown
    rw [mem_gather listed]
    constructor
    · rintro ⟨group, groupListed, own, ownListed, member⟩
      rcases (mem_groupPartitions ownListed key).mp member with ⟨rfl, name, standing, number⟩
      exact ⟨name, (mem_directoryNames_iff shown _).mp groupListed, standing, number⟩
    · rintro ⟨name, groupStanding, standing, number⟩
      have groupListed := (mem_directoryNames_iff shown _).mpr groupStanding
      rcases exists_of_gather listed groupListed with ⟨own, ownListed⟩
      exact ⟨_, groupListed, own, ownListed,
        (mem_groupPartitions ownListed key).mpr ⟨rfl, name, standing, number⟩⟩

theorem mem_listPartitions {keys : List PartitionKey}
    (listed : layout.listPartitions tree = .ok keys) (key : PartitionKey) :
    key ∈ keys ↔ ∃ space name, layout.HasPartition tree space key name := by
  rw [listPartitions] at listed
  split at listed
  · contradiction
  · rename_i found gathered
    cases listed
    rw [SortedMap.mem_keys_ofList, List.map_map]
    change key ∈ found.map id ↔ _
    rw [List.map_id, mem_gather gathered]
    constructor
    · rintro ⟨space, _, own, ownListed, member⟩
      exact ⟨space, (mem_spacePartitions ownListed key).mp member⟩
    · rintro ⟨space, standing⟩
      have spaceListed : space ∈ Space.all := by cases space <;> decide
      rcases exists_of_gather gathered spaceListed with ⟨own, ownListed⟩
      exact ⟨space, spaceListed, own, ownListed, (mem_spacePartitions ownListed key).mpr standing⟩

/-- The directories of spaces and groups are all that a listing of partitions looks into. -/
theorem exists_listPartitions_of_groups
    (spaces : ∀ space, tree.Listable (layout.spaceDirectory space))
    (groups : ∀ space listing group,
      tree.listIfPresent (layout.spaceDirectory space) = .ok listing →
        group ∈ directoryNames listing → tree.Listable (layout.groupDirectory space group)) :
    ∃ keys, layout.listPartitions tree = .ok keys := by
  have total : ∀ space ∈ Space.all, ∃ keys, layout.spacePartitions tree space = .ok keys := by
    intro space _
    rcases (spaces space).exists_listing with ⟨listing, shown⟩
    rw [spacePartitions, shown]
    apply exists_gather
    intro group member
    rcases (groups space listing group shown member).exists_listing with ⟨slots, slotsShown⟩
    rw [groupDirectory] at slotsShown
    rw [groupPartitions, slotsShown]
    exact ⟨_, rfl⟩
  rcases exists_gather total with ⟨found, gathered⟩
  rw [listPartitions, gathered]
  exact ⟨_, rfl⟩

theorem exists_listPartitions (listable : ∀ path, layout.Lists tree path → tree.Listable path) :
    ∃ keys, layout.listPartitions tree = .ok keys :=
  exists_listPartitions_of_groups (fun space => listable _ (.space space))
    fun space _ _ shown member => listable _ (.group space shown member)

/-! ## Sidecars -/

theorem exists_listSidecars {space : Space} {key : PartitionKey}
    (listable : tree.Listable (layout.partitionDirectory space key)) :
    ∃ sidecars, layout.listSidecars tree space key = .ok sidecars := by
  rcases listable.exists_listing with ⟨listing, shown⟩
  rw [listSidecars, shown]
  exact ⟨_, rfl⟩

/-- A sidecar that stands in the directory of its partition. -/
structure HasSidecar (layout : Layout) (tree : Tree) (space : Space) (key : PartitionKey)
    (sidecar : FileName × String) (name : String) (content : List UInt8) : Prop where
  standing : ∃ location, tree.directoryAt (layout.partitionDirectory space key) = .ok location ∧
    tree.node? (location ++ [name]) = some (.file content)
  path_eq : sidecar.2 = Path.join (layout.partitionDirectory space key) name
  possible : isImpossible sidecar.2 = false
  named : FileName.isSidecarName name = true
  parsed : FileName.parse? name = some sidecar.1

/-- The sidecar as which a file of a partition's directory is listed. -/
def sidecarOf? (layout : Layout) (space : Space) (key : PartitionKey) (name : String) :
    Option (FileName × String) :=
  if FileName.isSidecarName name then
    (FileName.parse? name).map fun parsed =>
      (parsed, Path.join (layout.partitionDirectory space key) name)
  else
    none

theorem hasSidecar_iff {space : Space} {key : PartitionKey} {listing : List (String × Node)}
    (shown : tree.listIfPresent (layout.partitionDirectory space key) = .ok listing)
    (name : String) (sidecar : FileName × String) :
    name ∈ fileNames listing ∧ layout.sidecarOf? space key name = some sidecar ↔
      ∃ content, layout.HasSidecar tree space key sidecar name content := by
  simp only [mem_fileNames, Tree.mem_listIfPresent shown]
  constructor
  · rintro ⟨⟨content, location, found, standing, possible⟩, kept⟩
    rw [sidecarOf?] at kept
    split at kept
    · rename_i named
      rcases Option.map_eq_some_iff.mp kept with ⟨parsed, parses, rfl⟩
      exact ⟨content, ⟨location, found, standing⟩, rfl, possible, named, parses⟩
    · contradiction
  · rintro ⟨content, ⟨location, found, standing⟩, path_eq, possible, named, parses⟩
    rcases sidecar with ⟨parsed, path⟩
    dsimp only at path_eq possible parses
    subst path_eq
    refine ⟨⟨content, location, found, standing, possible⟩, ?_⟩
    rw [sidecarOf?, if_pos named, parses]
    rfl

theorem listSidecars_eq_ok {space : Space} {key : PartitionKey}
    {sidecars : List (FileName × String)}
    (listed : layout.listSidecars tree space key = .ok sidecars) :
    ∃ listing, tree.listIfPresent (layout.partitionDirectory space key) = .ok listing ∧
      sidecars = ((fileNames listing).filterMap (layout.sidecarOf? space key)).mergeSort
        listedFirst := by
  rw [listSidecars] at listed
  split at listed
  · contradiction
  · rename_i listing shown
    cases listed
    exact ⟨listing, shown, rfl⟩

theorem mem_listSidecars {space : Space} {key : PartitionKey}
    {sidecars : List (FileName × String)}
    (listed : layout.listSidecars tree space key = .ok sidecars) (sidecar : FileName × String) :
    sidecar ∈ sidecars ↔
      ∃ name content, layout.HasSidecar tree space key sidecar name content := by
  rcases listSidecars_eq_ok listed with ⟨listing, shown, rfl⟩
  rw [List.mem_mergeSort, List.mem_filterMap]
  exact exists_congr fun name => hasSidecar_iff shown name sidecar

/-- A sidecar that stands where it is listed can be read. -/
theorem HasSidecar.read {space : Space} {key : PartitionKey} {sidecar : FileName × String}
    {name : String} {content : List UInt8}
    (has : layout.HasSidecar tree space key sidecar name content) (wellFormed : tree.WellFormed) :
    tree.read sidecar.2 = .ok content := by
  rcases has.standing with ⟨location, found, standing⟩
  rcases wellFormed.plain standing with ⟨plain, short⟩
  have possible := has.possible
  rw [has.path_eq] at possible ⊢
  rw [Tree.directoryAt_eq_ok_iff] at found
  exact Tree.read_join plain short possible found.2 standing

theorem read_of_mem_listSidecars (wellFormed : tree.WellFormed) {space : Space}
    {key : PartitionKey} {sidecars : List (FileName × String)}
    (listed : layout.listSidecars tree space key = .ok sidecars) {sidecar : FileName × String}
    (member : sidecar ∈ sidecars) : ∃ content, tree.read sidecar.2 = .ok content := by
  rcases (mem_listSidecars listed sidecar).mp member with ⟨name, content, has⟩
  exact ⟨content, has.read wellFormed⟩

/-- No sidecar is listed twice, as long as no name stands for a path of its own. -/
theorem nodup_listSidecars {space : Space} {key : PartitionKey}
    {sidecars : List (FileName × String)}
    (listed : layout.listSidecars tree space key = .ok sidecars)
    (relative : ∀ sidecar name content, layout.HasSidecar tree space key sidecar name content →
      name.toList.head? ≠ some '/') : sidecars.Nodup := by
  rcases listSidecars_eq_ok listed with ⟨listing, shown, rfl⟩
  rw [(List.mergeSort_perm _ _).nodup_iff, List.Nodup, List.pairwise_filterMap]
  apply (nodup_fileNames (Tree.nodup_listIfPresent shown)).imp_of_mem
  rintro first second firstMember secondMember differ sidecar isFirst _ isSecond rfl
  rcases (hasSidecar_iff shown first sidecar).mp ⟨firstMember, isFirst⟩ with ⟨_, firstHas⟩
  rcases (hasSidecar_iff shown second sidecar).mp ⟨secondMember, isSecond⟩ with ⟨_, secondHas⟩
  have paths := firstHas.path_eq.symm.trans secondHas.path_eq
  exact differ (Path.join_inj (relative _ _ _ firstHas) (relative _ _ _ secondHas) paths)

/-- Sidecars are listed by ordering key and number. -/
theorem sorted_listSidecars {space : Space} {key : PartitionKey}
    {sidecars : List (FileName × String)}
    (listed : layout.listSidecars tree space key = .ok sidecars) :
    sidecars.Pairwise fun first second => listedFirst first second := by
  rcases listSidecars_eq_ok listed with ⟨listing, _, rfl⟩
  apply List.pairwise_mergeSort
  · intro first second third low high
    simp only [listedFirst, Bool.or_eq_true, Bool.and_eq_true, decide_eq_true_eq, beq_iff_eq,
      UInt64.lt_iff_toNat_lt, UInt64.le_iff_toNat_le, ← UInt64.toNat_inj] at low high ⊢
    omega
  · intro first second
    simp only [listedFirst, Bool.or_eq_true, Bool.and_eq_true, decide_eq_true_eq, beq_iff_eq,
      UInt64.lt_iff_toNat_lt, UInt64.le_iff_toNat_le, ← UInt64.toNat_inj]
    omega

end Layout

end SeriesStore.Disk
