import SeriesStore.Disk.Tree
import SeriesStore.File.Name

/-!
# The layout of the store on disk

Below the root there is one directory for each space, in it one for each
storage group, in that one for each slot, and in there the sidecars:

    sequence/{group}/{slot}/{ordering key}-{number}-{inner}-{cross}.tsfile.resource

A listing takes what is there for what it says.  Directories whose name is no
number and files whose name is not that of a sidecar are passed over, and a
missing directory is an empty one.
-/

namespace SeriesStore.Disk

/-- The layout of a store below a root directory. -/
structure Layout where
  root : String
deriving DecidableEq

/-- Lists what every item leads to, up to the first failure. -/
def gather {α β ε : Type} (find : α → Except ε (List β)) : List α → Except ε (List β)
  | [] => .ok []
  | item :: rest =>
      match find item with
      | .error error => .error error
      | .ok found =>
          match gather find rest with
          | .error error => .error error
          | .ok others => .ok (found ++ others)

/-- The names of the directories in a listing. -/
def directoryNames (listing : List (String × Node)) : List String :=
  listing.filterMap fun entry =>
    match entry.2 with
    | .directory => some entry.1
    | .file _ => none

/-- The names of the files in a listing. -/
def fileNames (listing : List (String × Node)) : List String :=
  listing.filterMap fun entry =>
    match entry.2 with
    | .directory => none
    | .file _ => some entry.1

/-- What is gathered is what the items lead to. -/
theorem mem_gather {α β ε : Type} {find : α → Except ε (List β)} {items : List α}
    {found : List β} (gathered : gather find items = .ok found) (value : β) :
    value ∈ found ↔ ∃ item ∈ items, ∃ own, find item = .ok own ∧ value ∈ own := by
  induction items generalizing found with
  | nil =>
      cases gathered
      simp
  | cons item rest ih =>
      simp only [gather] at gathered
      cases first : find item with
      | error error => simp [first] at gathered
      | ok own =>
          cases others : gather find rest with
          | error error => simp [first, others] at gathered
          | ok more =>
              simp only [first, others, Except.ok.injEq] at gathered
              subst gathered
              simp [first, ih others]

theorem mem_directoryNames (listing : List (String × Node)) (name : String) :
    name ∈ directoryNames listing ↔ (name, .directory) ∈ listing := by
  simp only [directoryNames, List.mem_filterMap]
  constructor
  · rintro ⟨⟨found, node⟩, member, kept⟩
    cases node with
    | directory =>
        cases kept
        exact member
    | file content => contradiction
  · intro member
    exact ⟨_, member, rfl⟩

theorem mem_fileNames (listing : List (String × Node)) (name : String) :
    name ∈ fileNames listing ↔ ∃ content, (name, .file content) ∈ listing := by
  simp only [fileNames, List.mem_filterMap]
  constructor
  · rintro ⟨⟨found, node⟩, member, kept⟩
    cases node with
    | directory => contradiction
    | file content =>
        cases kept
        exact ⟨content, member⟩
  · rintro ⟨content, member⟩
    exact ⟨_, member, rfl⟩

namespace Layout

/-- The directory of all groups of a space. -/
def spaceDirectory (layout : Layout) (space : Space) : String :=
  Path.join layout.root space.directoryName

/-- The directory of a partition in one space. -/
def partitionDirectory (layout : Layout) (space : Space) (key : PartitionKey) : String :=
  Path.join (Path.join (layout.spaceDirectory space) key.group) (Text.writeInt key.slot.toInt)

/-- The path of the sidecar of a file. -/
def sidecarPath (layout : Layout) (key : PartitionKey) (file : DataFile) : String :=
  Path.join (layout.partitionDirectory file.space key) (FileName.ofFile file).sidecarName

/-- The partitions of one group in one space. -/
def groupPartitions (layout : Layout) (tree : Tree) (space : Space) (group : String) :
    Except DiskFault (List PartitionKey) :=
  match tree.listIfPresent (Path.join (layout.spaceDirectory space) group) with
  | .error fault => .error fault
  | .ok listing =>
      .ok ((directoryNames listing).filterMap fun name =>
        (Text.readInt64? name.toList).map fun slot => ⟨group, slot⟩)

/-- The partitions of one space. -/
def spacePartitions (layout : Layout) (tree : Tree) (space : Space) :
    Except DiskFault (List PartitionKey) :=
  match tree.listIfPresent (layout.spaceDirectory space) with
  | .error fault => .error fault
  | .ok listing => gather (layout.groupPartitions tree space) (directoryNames listing)

/-- The partitions that have a directory in either space, each once and in
order. -/
def listPartitions (layout : Layout) (tree : Tree) : Except DiskFault (List PartitionKey) :=
  match gather (layout.spacePartitions tree) Space.all with
  | .error fault => .error fault
  | .ok found =>
      .ok (SortedMap.ofList PartitionKey.compareKeys (found.map fun key => (key, ()))).keys

/-- Whether one sidecar is listed before another: by ordering key, then by
number. -/
def listedFirst (first second : FileName × String) : Bool :=
  first.1.orderingKey < second.1.orderingKey ||
    (first.1.orderingKey == second.1.orderingKey && first.1.id ≤ second.1.id)

/-- The sidecars of a partition in one space with their paths, by ordering key and
number; equal ones by path. -/
def listSidecars (layout : Layout) (tree : Tree) (space : Space) (key : PartitionKey) :
    Except DiskFault (List (FileName × String)) :=
  match tree.listIfPresent (layout.partitionDirectory space key) with
  | .error fault => .error fault
  | .ok listing =>
      .ok (((fileNames listing).filterMap fun name =>
        if FileName.isSidecarName name then
          (FileName.parse? name).map fun parsed =>
            (parsed, Path.join (layout.partitionDirectory space key) name)
        else
          none).mergeSort listedFirst)

end Layout

end SeriesStore.Disk
