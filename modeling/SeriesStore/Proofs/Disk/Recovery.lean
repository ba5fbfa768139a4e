import SeriesStore.Proofs.Disk.Listing
import SeriesStore.Proofs.Disk.Restored
import SeriesStore.Proofs.Partition.Fill
import SeriesStore.Proofs.Registry.Consistent

/-!
# What recovery accepts and what it brings back

A sidecar is in place when it says the space and the number that its directory and its
name say.  Recovery takes the listed sidecars one after the other, and each of its three
loops succeeds exactly when all sidecars are in place and the files that they bring back
may come in together.  So the outcome does not depend on where in a loop a fault is met:
a partition is recoverable or not as a whole.
-/

namespace SeriesStore

namespace Disk

/-- A sidecar that is read as a file of the space and number of its place. -/
def InPlace (tree : Tree) (space : Space) (sidecar : FileName × String) : Prop :=
  ∃ file, tree.readSidecar sidecar.2 = .ok file ∧ file.space = space ∧ file.id = sidecar.1.id

/-! ## Sidecar by sidecar -/

theorem recoverSidecar_eq_ok_iff (tree : Tree) (space : Space) (partition recovered : Partition)
    (name : FileName) (path : String) :
    recoverSidecar tree space partition name path = .ok recovered ↔
      InPlace tree space (name, path) ∧
        Partition.Gains partition recovered (restoredAt? tree path).toList := by
  constructor
  · intro outcome
    refine ⟨?_, gains_of_recoverSidecar outcome⟩
    rw [recoverSidecar] at outcome
    split at outcome
    · contradiction
    · rename_i file reading
      split at outcome
      · contradiction
      · rename_i fits
        rw [not_or, ne_eq, ne_eq, not_not, not_not] at fits
        exact ⟨file, reading, fits.1, fits.2⟩
  · rintro ⟨⟨file, reading, spaceFits, idFits⟩, fresh, rfl⟩
    rw [restoredAt?, reading] at fresh ⊢
    dsimp only at fresh ⊢
    rw [recoverSidecar, reading]
    dsimp only
    rw [if_neg (by simp [spaceFits, idFits]), restored?_eq]
    cases revived : revived? file with
    | none => rfl
    | some kept =>
        rw [revived] at fresh
        have valid := fresh.valid kept (by simp)
        have free := fresh.free kept (by simp)
        dsimp only
        rw [addRestored, kept.validate_eq_ok_iff.mpr valid]
        dsimp only
        rw [if_neg (by simp [free])]
        rfl

theorem recoverSidecars_eq_ok_iff (tree : Tree) (space : Space) (partition recovered : Partition)
    (sidecars : List (FileName × String)) :
    recoverSidecars tree space partition sidecars = .ok recovered ↔
      (∀ sidecar ∈ sidecars, InPlace tree space sidecar) ∧
        Partition.Gains partition recovered
          (sidecars.filterMap fun sidecar => restoredAt? tree sidecar.2) := by
  induction sidecars generalizing partition with
  | nil =>
      rw [recoverSidecars]
      constructor
      · intro outcome
        cases outcome
        exact ⟨by simp, .refl _⟩
      · rintro ⟨_, _, rfl⟩
        rfl
  | cons sidecar rest ih =>
      rcases sidecar with ⟨name, path⟩
      have brought : ((name, path) :: rest).filterMap (fun sidecar => restoredAt? tree sidecar.2) =
          (restoredAt? tree path).toList ++
            rest.filterMap fun sidecar => restoredAt? tree sidecar.2 := by
        rw [List.filterMap_cons]
        cases restoredAt? tree path <;> rfl
      rw [recoverSidecars, brought, Partition.gains_append_iff, List.forall_mem_cons]
      have first := recoverSidecar_eq_ok_iff tree space partition
      constructor
      · intro outcome
        split at outcome
        · contradiction
        · rename_i middle taken
          rcases (first middle name path).mp taken with ⟨inPlace, gains⟩
          rcases (ih middle).mp outcome with ⟨others, more⟩
          exact ⟨⟨inPlace, others⟩, middle, gains, more⟩
      · rintro ⟨⟨inPlace, others⟩, middle, gains, more⟩
        rw [(first middle name path).mpr ⟨inPlace, gains⟩]
        exact (ih middle).mpr ⟨others, more⟩

namespace Layout

variable {layout : Layout} {tree : Tree} {key : PartitionKey}

/-- The sidecars of a partition in one space are listed and all of them are in place. -/
def AllInPlace (layout : Layout) (tree : Tree) (key : PartitionKey) (space : Space) : Prop :=
  ∃ sidecars, layout.listSidecars tree space key = .ok sidecars ∧
    ∀ sidecar ∈ sidecars, InPlace tree space sidecar

theorem AllInPlace.exists_listed {space : Space} (inPlace : layout.AllInPlace tree key space) :
    ∃ sidecars, layout.listSidecars tree space key = .ok sidecars := by
  rcases inPlace with ⟨sidecars, listed, _⟩
  exact ⟨sidecars, listed⟩

theorem restored_eq_append (layout : Layout) (tree : Tree) (key : PartitionKey) :
    layout.restored tree key =
      layout.restoredIn tree key .sequence ++ layout.restoredIn tree key .unsequence := by
  simp [restored, Space.all]

theorem restoredIn_eq {space : Space} {sidecars : List (FileName × String)}
    (listed : layout.listSidecars tree space key = .ok sidecars) :
    layout.restoredIn tree key space =
      sidecars.filterMap fun sidecar => restoredAt? tree sidecar.2 := by
  rw [restoredIn, listed]

theorem recoverSpaces_eq_ok_iff (layout : Layout) (tree : Tree) (key : PartitionKey)
    (partition recovered : Partition) (spaces : List Space) :
    layout.recoverSpaces tree key partition spaces = .ok recovered ↔
      (∀ space ∈ spaces, layout.AllInPlace tree key space) ∧
        Partition.Gains partition recovered (spaces.flatMap (layout.restoredIn tree key)) := by
  induction spaces generalizing partition with
  | nil =>
      rw [recoverSpaces]
      constructor
      · intro outcome
        cases outcome
        exact ⟨by simp, .refl _⟩
      · rintro ⟨_, _, rfl⟩
        rfl
  | cons space rest ih =>
      rw [recoverSpaces, List.flatMap_cons, Partition.gains_append_iff, List.forall_mem_cons]
      constructor
      · intro outcome
        split at outcome
        · contradiction
        · rename_i sidecars listed
          split at outcome
          · contradiction
          · rename_i middle taken
            rcases (recoverSidecars_eq_ok_iff _ _ _ _ _).mp taken with ⟨inPlace, gains⟩
            rcases (ih middle).mp outcome with ⟨others, more⟩
            rw [restoredIn_eq listed]
            exact ⟨⟨⟨sidecars, listed, inPlace⟩, others⟩, middle, gains, more⟩
      · rintro ⟨⟨⟨sidecars, listed, inPlace⟩, others⟩, middle, gains, more⟩
        rw [restoredIn_eq listed] at gains
        rw [listed]
        dsimp only
        rw [(recoverSidecars_eq_ok_iff _ _ _ _ _).mpr ⟨inPlace, gains⟩]
        exact (ih middle).mpr ⟨others, more⟩

/-! ## Partition by partition -/

/-- The partition that the sidecars of a key describe. -/
def Describes (layout : Layout) (tree : Tree) (key : PartitionKey) (partition : Partition) :
    Prop :=
  (∀ space, layout.AllInPlace tree key space) ∧
    Partition.Gains .empty partition (layout.restored tree key)

theorem describes_iff (layout : Layout) (tree : Tree) (key : PartitionKey)
    (partition : Partition) :
    layout.Describes tree key partition ↔
      layout.recoverSpaces tree key .empty Space.all = .ok partition := by
  have everySpace : (∀ space ∈ Space.all, layout.AllInPlace tree key space) ↔
      ∀ space, layout.AllInPlace tree key space :=
    forall_congr' fun space => imp_iff_right (by cases space <;> decide)
  rw [recoverSpaces_eq_ok_iff, everySpace, Describes, restored]

/-- Recovery succeeds when every key is described, and then each key has the described
partition. -/
theorem recoverPartitions_eq_ok_iff (layout : Layout) (tree : Tree)
    (registry recovered : Registry) (keys : List PartitionKey) :
    layout.recoverPartitions tree registry keys = .ok recovered ↔
      (∀ key ∈ keys, ∃ partition, layout.Describes tree key partition ∧
        recovered.partition? key = some partition) ∧
      ∀ key, key ∉ keys → recovered.partition? key = registry.partition? key := by
  induction keys generalizing registry with
  | nil =>
      rw [recoverPartitions]
      constructor
      · intro outcome
        cases outcome
        exact ⟨by simp, fun _ _ => rfl⟩
      · rintro ⟨_, others⟩
        have same : registry = recovered :=
          Registry.ext_partition? fun key => (others key List.not_mem_nil).symm
        rw [same]
  | cons first rest ih =>
      rw [recoverPartitions]
      constructor
      · intro outcome
        split at outcome
        · contradiction
        · rename_i partition taken
          rcases (ih _).mp outcome with ⟨described, others⟩
          have own : ∃ partition, layout.Describes tree first partition ∧
              recovered.partition? first = some partition := by
            by_cases again : first ∈ rest
            · exact described first again
            · have present := others first again
              rw [Registry.partition?_put_self] at present
              exact ⟨partition, (describes_iff _ _ _ _).mpr taken, present⟩
          refine ⟨List.forall_mem_cons.mpr ⟨own, described⟩, fun key outside => ?_⟩
          rw [List.mem_cons, not_or] at outside
          rw [others key outside.2, Registry.partition?_put_of_ne _ outside.1]
      · rintro ⟨described, others⟩
        rw [List.forall_mem_cons] at described
        rcases described with ⟨⟨partition, own, present⟩, described⟩
        rw [(describes_iff _ _ _ _).mp own]
        apply (ih _).mpr
        refine ⟨described, fun key outside => ?_⟩
        by_cases same : key = first
        · rw [same, present, Registry.partition?_put_self]
        · have outsideBoth : key ∉ first :: rest := by simp [same, outside]
          rw [others key outsideBoth, Registry.partition?_put_of_ne _ same]

theorem exists_recoverPartitions (layout : Layout) (tree : Tree) (registry : Registry)
    {keys : List PartitionKey}
    (described : ∀ key ∈ keys, ∃ partition, layout.Describes tree key partition) :
    ∃ recovered, layout.recoverPartitions tree registry keys = .ok recovered := by
  induction keys generalizing registry with
  | nil => exact ⟨registry, rfl⟩
  | cons first rest ih =>
      rw [List.forall_mem_cons] at described
      rcases described with ⟨⟨partition, own⟩, others⟩
      rw [recoverPartitions, (describes_iff _ _ _ _).mp own]
      exact ih _ others

theorem exists_recover_iff {keys : List PartitionKey}
    (listed : layout.listPartitions tree = .ok keys) :
    (∃ registry, layout.recover tree = .ok registry) ↔
      ∀ key ∈ keys, ∃ partition, layout.Describes tree key partition := by
  rw [recover, listed]
  constructor
  · rintro ⟨registry, outcome⟩ key member
    rcases ((recoverPartitions_eq_ok_iff _ _ _ _ _).mp outcome).1 key member with
      ⟨partition, described, _⟩
    exact ⟨partition, described⟩
  · exact exists_recoverPartitions layout tree .empty

/-- The recovered partitions are the listed ones, each as its sidecars describe it. -/
theorem described_of_recover {keys : List PartitionKey} {registry : Registry}
    (listed : layout.listPartitions tree = .ok keys)
    (outcome : layout.recover tree = .ok registry) :
    registry.keys = keys ∧
      ∀ key ∈ keys, ∃ partition, registry.partition? key = some partition ∧
        layout.Describes tree key partition := by
  rw [recover, listed] at outcome
  rcases (recoverPartitions_eq_ok_iff _ _ _ _ _).mp outcome with ⟨described, others⟩
  constructor
  · have registered (key : PartitionKey) : key ∈ registry.keys ↔ key ∈ keys := by
      rw [Registry.keys, SortedMap.mem_keys_iff]
      change (∃ partition, registry.partition? key = some partition) ↔ _
      constructor
      · rintro ⟨partition, present⟩
        by_contra outside
        rw [others key outside] at present
        contradiction
      · intro member
        rcases described key member with ⟨partition, _, present⟩
        exact ⟨partition, present⟩
    rw [listPartitions] at listed
    split at listed
    · contradiction
    · cases listed
      exact SortedMap.keys_ext registered
  · intro key member
    rcases described key member with ⟨partition, own, present⟩
    exact ⟨partition, present, own⟩

/-! ## What makes a partition recoverable -/

/-- A partition whose listed sidecars can be recovered: all of them are in place, and the
files that they bring back, which are those that are not deleted and without a claim, are well
formed and differ in their numbers, across both spaces. -/
structure Recoverable (layout : Layout) (tree : Tree) (key : PartitionKey) : Prop where
  inPlace (space : Space) : layout.AllInPlace tree key space
  validated : ∀ file ∈ layout.restored tree key, file.validate = .ok ()
  distinct : ((layout.restored tree key).map DataFile.id).Nodup

theorem exists_describes_iff (layout : Layout) (tree : Tree) (key : PartitionKey) :
    (∃ partition, layout.Describes tree key partition) ↔ layout.Recoverable tree key := by
  constructor
  · rintro ⟨partition, inPlace, fresh, _⟩
    constructor
    case inPlace => exact inPlace
    case validated =>
      exact fun file member => file.validate_eq_ok_iff.mpr (fresh.valid file member)
    case distinct => exact fresh.distinct
  · intro recoverable
    refine ⟨_, recoverable.inPlace, ?_, rfl⟩
    constructor
    case valid =>
      exact fun file member => file.validate_eq_ok_iff.mp (recoverable.validated file member)
    case free => exact fun _ _ => rfl
    case distinct => exact recoverable.distinct

/-- A partition that holds what the sidecars in the directories of a key bring back, the files
that are not deleted and without a claim: each once, and in the list of its space. -/
structure Restores (layout : Layout) (tree : Tree) (key : PartitionKey)
    (partition : Partition) : Prop where
  sequence : partition.sequence.Perm (layout.restoredIn tree key .sequence)
  unsequence : partition.unsequence.Perm (layout.restoredIn tree key .unsequence)
  sequence_space : ∀ file ∈ partition.sequence, file.space = .sequence
  unsequence_space : ∀ file ∈ partition.unsequence, file.space = .unsequence
  distinct : (partition.files.map DataFile.id).Nodup

theorem space_of_mem_restoredIn {space : Space} (inPlace : layout.AllInPlace tree key space)
    {file : DataFile} (member : file ∈ layout.restoredIn tree key space) :
    file.space = space := by
  rcases inPlace with ⟨sidecars, listed, inPlace⟩
  rw [restoredIn_eq listed] at member
  rcases List.mem_filterMap.mp member with ⟨sidecar, sidecarMember, brought⟩
  rcases inPlace sidecar sidecarMember with ⟨stored, reading, rfl, _⟩
  rw [restoredAt?, reading] at brought
  exact (samePlace_of_revived? brought).space

/-- Of the files that come back those of one space are those of its directory. -/
theorem ofSpace_restored (inPlace : ∀ space, layout.AllInPlace tree key space)
    (space : Space) :
    Partition.ofSpace space (layout.restored tree key) = layout.restoredIn tree key space := by
  have own (other : Space) (same : other = space) :
      Partition.ofSpace space (layout.restoredIn tree key other) =
        layout.restoredIn tree key other := by
    rw [Partition.ofSpace, List.filter_eq_self]
    intro file member
    simpa [same] using space_of_mem_restoredIn (inPlace other) member
  have foreign (other : Space) (differ : other ≠ space) :
      Partition.ofSpace space (layout.restoredIn tree key other) = [] := by
    rw [Partition.ofSpace, List.filter_eq_nil_iff]
    intro file member
    simpa [space_of_mem_restoredIn (inPlace other) member] using differ
  rw [restored_eq_append, Partition.ofSpace, List.filter_append]
  cases space with
  | sequence =>
      change Partition.ofSpace _ _ ++ Partition.ofSpace _ _ = _
      rw [own .sequence rfl, foreign .unsequence (by decide), List.append_nil]
  | unsequence =>
      change Partition.ofSpace _ _ ++ Partition.ofSpace _ _ = _
      rw [own .unsequence rfl, foreign .sequence (by decide), List.nil_append]

theorem Describes.restores {partition : Partition}
    (described : layout.Describes tree key partition) :
    layout.Restores tree key partition := by
  rcases described with ⟨inPlace, fresh, rfl⟩
  have consistent := Partition.consistent_empty.insertAll fresh
  have sequence := Partition.sequence_insertAll_perm .empty (layout.restored tree key)
  have unsequence := Partition.unsequence_insertAll .empty (layout.restored tree key)
  rw [ofSpace_restored inPlace] at sequence unsequence
  constructor
  case sequence => exact sequence
  case unsequence => exact .of_eq unsequence
  case sequence_space => exact consistent.sequence_space
  case unsequence_space => exact consistent.unsequence_space
  case distinct => exact consistent.distinct

/-- Recovery from a tree in which it finds directories or nothing where it looks for
directories.  It then succeeds exactly when every listed partition is recoverable, and
brings back those partitions with the files of their sidecars and nothing else. -/
theorem recovery_is_exact (wellFormed : tree.WellFormed)
    (listable : ∀ path, layout.Lists tree path → tree.Listable path) :
    ∃ keys, layout.listPartitions tree = .ok keys ∧
      (∀ key ∈ keys, ∀ space, ∃ sidecars, layout.listSidecars tree space key = .ok sidecars ∧
        ∀ sidecar ∈ sidecars, ∃ content, tree.read sidecar.2 = .ok content) ∧
      ((∃ registry, layout.recover tree = .ok registry) ↔
        ∀ key ∈ keys, layout.Recoverable tree key) ∧
      ∀ registry, layout.recover tree = .ok registry →
        registry.keys = keys ∧
          ∀ key ∈ keys, ∃ partition, registry.partition? key = some partition ∧
            layout.Restores tree key partition := by
  rcases exists_listPartitions listable with ⟨keys, listed⟩
  refine ⟨keys, listed, ?_, ?_, ?_⟩
  · intro key member space
    rcases exists_listSidecars (listable _ (.partition space listed member)) with
      ⟨sidecars, sidecarsListed⟩
    exact ⟨sidecars, sidecarsListed, fun sidecar =>
      read_of_mem_listSidecars wellFormed sidecarsListed⟩
  · rw [exists_recover_iff listed]
    exact forall₂_congr fun key _ => exists_describes_iff layout tree key
  · intro registry outcome
    rcases described_of_recover listed outcome with ⟨keys_eq, described⟩
    refine ⟨keys_eq, fun key member => ?_⟩
    rcases described key member with ⟨partition, present, own⟩
    exact ⟨partition, present, own.restores⟩

end Layout

end Disk

/-! ## A small tree

The directory of the partition in the sequence space holds the sidecars of a file that is
being merged and of one that has been deleted, and a file that is no sidecar.  In the
unsequence space the partition has no directory, but there is one of another name. -/

namespace Sample

open Disk

def layout : Layout :=
  ⟨"store"⟩

def sidecarNode (file : DataFile) : Node :=
  match Sidecar.encode file with
  | .ok content => .file content
  | .error _ => .directory

def disk : Tree where
  nodes := .ofList _
    [ (["store"], .directory),
      (["store", "sequence"], .directory),
      (["store", "sequence", "group"], .directory),
      (["store", "sequence", "group", "0"], .directory),
      (["store", "sequence", "group", "0", "2-2-1-0.tsfile.resource"],
        sidecarNode (file .sequence .compacting 2 [])),
      (["store", "sequence", "group", "0", "3-3-1-0.tsfile.resource"],
        sidecarNode (file .sequence .deleted 3 [])),
      (["store", "sequence", "group", "0", "notes"], .file []),
      (["store", "unsequence"], .directory),
      (["store", "unsequence", "group"], .directory),
      (["store", "unsequence", "group", "old"], .directory) ]

theorem disk_wellFormed : disk.WellFormed := by
  unfold Tree.WellFormed
  decide +kernel

theorem listPartitions_disk : layout.listPartitions disk = .ok [key] := by
  decide +kernel

theorem disk_listable (path : String) (lists : layout.Lists disk path) : disk.Listable path := by
  have groups (space : Space) :
      disk.listIfPresent (layout.spaceDirectory space) = .ok [("group", .directory)] := by
    cases space <;> decide +kernel
  cases lists with
  | space space =>
      right
      exact ⟨["store", space.directoryName], by cases space <;> decide +kernel⟩
  | group space listed member =>
      rw [groups space] at listed
      cases listed
      cases List.mem_singleton.mp member
      right
      exact ⟨["store", space.directoryName, "group"], by cases space <;> decide +kernel⟩
  | partition space listed member =>
      rw [listPartitions_disk] at listed
      cases listed
      cases List.mem_singleton.mp member
      cases space with
      | sequence =>
          right
          exact ⟨["store", "sequence", "group", "0"], by decide +kernel⟩
      | unsequence =>
          left
          decide +kernel

/-- The listed sidecars of the partition. -/
def sidecars : Space → List (FileName × String)
  | .sequence =>
      [ (⟨2, 2, 1, 0⟩, "store/sequence/group/0/2-2-1-0.tsfile.resource"),
        (⟨3, 3, 1, 0⟩, "store/sequence/group/0/3-3-1-0.tsfile.resource") ]
  | .unsequence => []

theorem listSidecars_disk (space : Space) :
    layout.listSidecars disk space key = .ok (sidecars space) := by
  have sorted : (sidecars space).mergeSort Layout.listedFirst = sidecars space :=
    List.mergeSort_of_pairwise (by cases space <;> decide)
  cases space with
  | sequence =>
      have shown : disk.listIfPresent (layout.partitionDirectory .sequence key) =
          .ok [("2-2-1-0.tsfile.resource", sidecarNode (file .sequence .compacting 2 [])),
            ("3-3-1-0.tsfile.resource", sidecarNode (file .sequence .deleted 3 [])),
            ("notes", .file [])] := by
        decide +kernel
      rw [Layout.listSidecars, shown, ← sorted]
      apply congrArg fun listed => Except.ok (List.mergeSort listed Layout.listedFirst)
      decide +kernel
  | unsequence =>
      have shown : disk.listIfPresent (layout.partitionDirectory .unsequence key) = .ok [] := by
        decide +kernel
      rw [Layout.listSidecars, shown, ← sorted]
      rfl

theorem readSidecar_merging :
    disk.readSidecar "store/sequence/group/0/2-2-1-0.tsfile.resource" =
      .ok (file .sequence .compacting 2 []) := by
  decide +kernel

theorem readSidecar_deleted :
    disk.readSidecar "store/sequence/group/0/3-3-1-0.tsfile.resource" =
      .ok (file .sequence .deleted 3 []) := by
  decide +kernel

theorem restoredIn_disk :
    layout.restoredIn disk key .sequence = [file .sequence .closed 2 []] ∧
      layout.restoredIn disk key .unsequence = [] := by
  have merging : revived? (file .sequence .compacting 2 []) =
      some (file .sequence .closed 2 []) := by
    decide
  have deleted : revived? (file .sequence .deleted 3 []) = none := by
    decide
  simp [Layout.restoredIn_eq (listSidecars_disk _), sidecars, restoredAt?, readSidecar_merging,
    readSidecar_deleted, merging, deleted]

theorem restored_disk : layout.restored disk key = [file .sequence .closed 2 []] := by
  rw [Layout.restored_eq_append, restoredIn_disk.1, restoredIn_disk.2, List.append_nil]

theorem recoverable_disk : layout.Recoverable disk key := by
  constructor
  case inPlace =>
    intro space
    refine ⟨sidecars space, listSidecars_disk space, ?_⟩
    cases space with
    | sequence =>
        simp only [sidecars, List.forall_mem_cons]
        exact ⟨⟨_, readSidecar_merging, rfl, rfl⟩, ⟨_, readSidecar_deleted, rfl, rfl⟩, by simp⟩
    | unsequence => simp [sidecars]
  case validated =>
    rw [restored_disk]
    decide
  case distinct =>
    rw [restored_disk]
    decide

end Sample

namespace Disk.Layout

theorem recovery_is_exact_sample :
    ∃ registry, Sample.layout.recover Sample.disk = .ok registry ∧
      registry.keys = [Sample.key] ∧
      registry.partition? Sample.key = some ⟨[Sample.file .sequence .closed 2 []], []⟩ := by
  rcases recovery_is_exact Sample.disk_wellFormed Sample.disk_listable with
    ⟨keys, listed, _, recovers, exact⟩
  rw [Sample.listPartitions_disk] at listed
  cases listed
  have recoverable : ∀ key ∈ [Sample.key], Sample.layout.Recoverable Sample.disk key := by
    simpa using Sample.recoverable_disk
  rcases recovers.mpr recoverable with ⟨registry, outcome⟩
  rcases exact registry outcome with ⟨keys_eq, partitions⟩
  rcases partitions _ List.mem_cons_self with ⟨⟨inSequence, inUnsequence⟩, present, restores⟩
  have sequence := restores.sequence
  have unsequence := restores.unsequence
  rw [Sample.restoredIn_disk.1, List.perm_singleton] at sequence
  rw [Sample.restoredIn_disk.2, List.perm_nil] at unsequence
  dsimp only at sequence unsequence
  rw [sequence, unsequence] at present
  exact ⟨registry, outcome, keys_eq, present⟩

end Disk.Layout

end SeriesStore
