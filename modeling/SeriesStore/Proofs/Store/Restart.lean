import SeriesStore.Proofs.Registry.Claiming
import SeriesStore.Proofs.Store.Ledger

/-!
# Restarts

A sidecar says nothing about when its file came in, so recovery lists the unsequence files by
ordering key and number, in whatever order they had arrived.  The order of arrival survives a
restart exactly when the files had come in that way.

What is selected after a restart is what had been selected before it from the same files, had the
unsequence files been given by ordering key and number.
-/

namespace SeriesStore

open Disk Selection
open SeriesStore.Disk.Path (Plain)
open Sidecar (Storable)

/-- The registered files that are saved. -/
def Registry.savedPart (registry : Registry) (saved : List (PartitionKey × FileId))
    (key : PartitionKey) : Partition where
  sequence := (registry.snapshot key).sequence.filter fun file => saved.contains (key, file.id)
  unsequence := (registry.snapshot key).unsequence.filter fun file => saved.contains (key, file.id)

namespace Store

variable {layout : Layout} {root : Location} {store after : Store} {key : PartitionKey}
  {id : FileId} {saved entries : List (PartitionKey × FileId)}

/-- Writes the sidecars of registered files one after the other. -/
def persistEach (layout : Layout) : List (PartitionKey × FileId) → Step Unit
  | [] => pure ()
  | (key, id) :: rest => do
      persist layout key id
      persistEach layout rest

/-- Whether the groups are plain and the registered files under the given numbers have a sidecar
that can be read. -/
def Savable (registry : Registry) (entries : List (PartitionKey × FileId)) : Prop :=
  ∀ entry ∈ entries, Plain entry.1.group ∧
    ∀ file ∈ (registry.snapshot entry.1).partition.find? entry.2, Storable file

instance (registry : Registry) (entries : List (PartitionKey × FileId)) :
    Decidable (Savable registry entries) :=
  inferInstanceAs (Decidable (∀ entry ∈ entries, Plain entry.1.group ∧
    ∀ file ∈ (registry.snapshot entry.1).partition.find? entry.2, Storable file))

/-- Whether the sidecars that stand are those of the registered files under the given numbers. -/
def SavedOnly (root : Location) (store : Store) (saved : List (PartitionKey × FileId)) : Prop :=
  ∀ key file, Stands root store.disk key file ↔
    (key, file.id) ∈ saved ∧ (store.registry.snapshot key).partition.find? file.id = some file

/-! ## Saving files -/

theorem persist_eq_ok_iff :
    persist layout key id store = .ok () after ↔
      ∃ file disk, (store.registry.snapshot key).partition.find? id = some file ∧
        layout.persist key file store.disk = .ok () disk ∧ after = ⟨store.registry, disk⟩ := by
  simp only [← Registry.file_eq_ok_iff]
  rw [persist]
  cases store.registry.file key id with
  | error error => simp
  | ok file =>
      dsimp only
      rw [onDisk]
      cases writing : layout.persist key file store.disk with
      | error error disk => simp [writing]
      | ok value disk => simp [writing, eq_comm]

theorem persistEach_cons_eq_ok_iff {rest : List (PartitionKey × FileId)} :
    persistEach layout ((key, id) :: rest) store = .ok () after ↔
      ∃ middle, persist layout key id store = .ok () middle ∧
        persistEach layout rest middle = .ok () after := by
  rw [persistEach]
  change EStateM.bind (persist layout key id) _ store = _ ↔ _
  rw [EStateM.bind]
  cases persist layout key id store with
  | error error middle => simp
  | ok value middle => simp

theorem SavedOnly.wrote {file : DataFile} {disk : Tree} (only : SavedOnly root store saved)
    (found : (store.registry.snapshot key).partition.find? file.id = some file)
    (written : Wrote root store.disk disk key file) :
    SavedOnly root ⟨store.registry, disk⟩ (saved ++ [(key, file.id)]) := by
  intro other another
  rw [written, only, List.mem_append, List.mem_singleton, Prod.mk.injEq]
  constructor
  · rintro (⟨rfl, rfl⟩ | ⟨_, isSaved, registered⟩)
    · exact ⟨.inr ⟨rfl, rfl⟩, found⟩
    · exact ⟨.inl isSaved, registered⟩
  · rintro ⟨isSaved | ⟨rfl, sameId⟩, registered⟩
    · by_cases here : other = key ∧ file.SamePlace another
      · rcases here with ⟨rfl, place⟩
        rw [place.id, found] at registered
        exact .inl ⟨rfl, (Option.some.inj registered).symm⟩
      · exact .inr ⟨here, isSaved, registered⟩
    · rw [sameId, found] at registered
      exact .inl ⟨rfl, (Option.some.inj registered).symm⟩

/-- Saving files one after the other leaves their sidecars and those that stood before. -/
theorem SavedOnly.persistEach (only : SavedOnly root store saved)
    (tidy : Tidy layout root store.disk) (savable : Savable store.registry entries)
    (outcome : persistEach layout entries store = .ok () after) :
    after.registry = store.registry ∧ Tidy layout root after.disk ∧
      SavedOnly root after (saved ++ entries) := by
  -- The files saved so far are those saved before and a first part of the entries.
  induction entries generalizing store saved with
  | nil =>
      cases outcome
      rw [List.append_nil]
      exact ⟨rfl, tidy, only⟩
  | cons entry rest ih =>
      rcases entry with ⟨key, id⟩
      rw [Savable, List.forall_mem_cons] at savable
      rcases savable with ⟨⟨plain, storable⟩, others⟩
      rcases persistEach_cons_eq_ok_iff.mp outcome with ⟨middle, saving, savingRest⟩
      rcases persist_eq_ok_iff.mp saving with ⟨file, disk, found, writing, rfl⟩
      have id_eq := (Partition.mem_of_find?_eq_some found).2
      subst id_eq
      rcases tidy.persist_cases plain (storable file found) with
        ⟨made, succeeded, madeTidy, written⟩ | ⟨error, made, failed, _⟩
      · rw [succeeded] at writing
        cases writing
        rcases ih (only.wrote found written) madeTidy others savingRest with
          ⟨registry_eq, afterTidy, afterOnly⟩
        rw [List.append_assoc] at afterOnly
        exact ⟨registry_eq, afterTidy, afterOnly⟩
      · rw [failed] at writing
        contradiction

/-! ## What comes back -/

/-- The sidecars of saved files bring those files back. -/
theorem SavedOnly.shows (only : SavedOnly root store saved) (reachable : store.registry.Reachable) :
    Shows root store.disk (store.registry.savedPart saved) := by
  intro key back
  have distinct := (reachable.sound key).distinct
  have isPart (file : DataFile) : file ∈ (store.registry.savedPart saved key).files ↔
      Stands root store.disk key file := by
    rw [only, Partition.Distinct.find?_eq_some_iff distinct, Partition.mem_files,
      Partition.mem_files, Registry.savedPart, List.mem_filter, List.mem_filter, ← or_and_right]
    simp [Snapshot.sequence, Snapshot.unsequence, and_comm]
  simp only [isPart]
  rfl

/-- Recovery from an otherwise empty root brings back the files that have been saved there, each
list by ordering key and number. -/
theorem recover_persistEach {registry : Registry} {disk : Tree} (roomy : layout.Roomy)
    (vacant : layout.Vacant root disk) (reachable : registry.Reachable)
    (savable : Savable registry entries)
    (saving : persistEach layout entries ⟨registry, disk⟩ = .ok () after) :
    ∃ recovered, layout.recover after.disk = .ok recovered ∧
      ∀ key, (recovered.snapshot key).partition =
        restoredPartition (registry.savedPart entries key) := by
  have only : SavedOnly root ⟨registry, disk⟩ [] := by
    intro key file
    simp [vacant.not_stands key file]
  rcases only.persistEach vacant.tidy savable saving with ⟨registry_eq, tidy, afterOnly⟩
  have shown := afterOnly.shows (registry_eq ▸ reachable)
  rw [registry_eq, List.nil_append] at shown
  refine shown.recover_eq_ok (fun key => ?_) tidy roomy
  exact (reachable.sound key).of_sublist List.filter_sublist List.filter_sublist

/-- A partition that can be recovered from what has been saved: all its files have been saved
under an otherwise empty root, maybe among others, and none of them is deleted. -/
structure Restartable (layout : Layout) (root : Location) (disk : Tree) (registry : Registry)
    (entries : List (PartitionKey × FileId)) (key : PartitionKey) (store : Store) : Prop where
  roomy : layout.Roomy
  vacant : layout.Vacant root disk
  reachable : registry.Reachable
  savable : Savable registry entries
  saving : persistEach layout entries ⟨registry, disk⟩ = .ok () store
  complete : ∀ file ∈ (registry.snapshot key).partition.files, (key, file.id) ∈ entries
  alive : ∀ file ∈ (registry.snapshot key).partition.files, file.status ≠ .deleted

section Restart

variable {disk : Tree} {registry : Registry}
  (restartable : Restartable layout root disk registry entries key store)

include restartable

theorem Restartable.savedPart_eq :
    registry.savedPart entries key = (registry.snapshot key).partition := by
  have isSaved {file : DataFile} (member : file ∈ (registry.snapshot key).partition.files) :
      entries.contains (key, file.id) :=
    List.contains_iff_mem.mpr (restartable.complete file member)
  rw [Registry.savedPart, Partition.mk.injEq]
  constructor
  · exact List.filter_eq_self.mpr fun file member =>
      isSaved (Partition.sequence_subset_files _ member)
  · exact List.filter_eq_self.mpr fun file member =>
      isSaved (Partition.unsequence_subset_files _ member)

theorem Restartable.recovers :
    ∃ recovered, layout.recover store.disk = .ok recovered ∧
      (recovered.snapshot key).partition =
        restoredPartition (registry.snapshot key).partition := by
  rcases recover_persistEach restartable.roomy restartable.vacant restartable.reachable
    restartable.savable restartable.saving with ⟨recovered, outcome, partitions⟩
  refine ⟨recovered, outcome, ?_⟩
  rw [partitions, restartable.savedPart_eq]

end Restart

/-! ## Selecting after a restart -/

/-- A selection sorts the sequence files itself and takes the unsequence files as they are given,
so nothing else is seen of the order of a partition. -/
theorem select_of_sorted {snapshot sorted : Snapshot} {log sortedLog : List FileId}
    (consistent : snapshot.partition.Consistent log)
    (sortedConsistent : sorted.partition.Consistent sortedLog)
    (alive : ∀ file ∈ snapshot.partition.files, file.status ≠ .deleted)
    (sorted_eq : sorted.partition =
      ⟨snapshot.sequence.mergeSort DataFile.comesFirst,
        snapshot.unsequence.mergeSort DataFile.comesFirst⟩) (config : Config) :
    select config sorted =
      selectFrom config snapshot snapshot.sequence
        (snapshot.unsequence.mergeSort DataFile.comesFirst) := by
  have sequence_eq : sorted.sequence = snapshot.sequence.mergeSort DataFile.comesFirst :=
    congrArg Partition.sequence sorted_eq
  have unsequence_eq : sorted.unsequence = snapshot.unsequence.mergeSort DataFile.comesFirst :=
    congrArg Partition.unsequence sorted_eq
  have sortedAlive : ∀ file ∈ sorted.partition.files, file.status ≠ .deleted := by
    intro file member
    apply alive
    rw [sorted_eq, Partition.mem_files, List.mem_mergeSort, List.mem_mergeSort] at member
    exact (Partition.mem_files _ _).mpr member
  have again : (snapshot.sequence.mergeSort DataFile.comesFirst).mergeSort DataFile.comesFirst =
      snapshot.sequence.mergeSort DataFile.comesFirst := by
    have distinct := (recorded_of_consistent consistent).1.distinct
    exact List.mergeSort_of_pairwise
      ((DataFile.pairwise_sortsBefore_mergeSort distinct).imp DataFile.SortsBefore.comesFirst)
  rw [select, selectFrom, selectFrom, resolveInput_of_consistent sortedConsistent sortedAlive,
    resolveInput_of_perm consistent alive (List.mergeSort_perm _ _), sequence_eq, unsequence_eq,
    again]

/-- The unsequence files come back by ordering key and number, so they come back in the order in
which they had arrived exactly when that was the order of their arrival.  Without claimed files
and without growing spans that end before they start, what is selected afterwards is what had been
selected before, had the unsequence files been given in that order. -/
theorem arrival_order_survives_iff {disk : Tree} {registry : Registry}
    (restartable : Restartable layout root disk registry entries key store) :
    ∃ recovered, layout.recover store.disk = .ok recovered ∧
      (recovered.snapshot key).unsequence.map DataFile.id =
        ((registry.snapshot key).unsequence.mergeSort DataFile.comesFirst).map DataFile.id ∧
      ((recovered.snapshot key).unsequence.map DataFile.id =
          (registry.snapshot key).unsequence.map DataFile.id ↔
        (registry.snapshot key).unsequence.Pairwise DataFile.SortsBefore) ∧
      ((∀ file ∈ (registry.snapshot key).partition.files, file.status.isClaimed = false) →
        (∀ file ∈ (registry.snapshot key).partition.files, file.SpansWellFormed) →
        ∀ config, ∃ candidates,
          select config (recovered.snapshot key) = .ok candidates ∧
          selectFrom config (registry.snapshot key) (registry.snapshot key).sequence
            ((registry.snapshot key).unsequence.mergeSort DataFile.comesFirst) =
              .ok candidates ∧
          ((registry.snapshot key).unsequence.Pairwise DataFile.SortsBefore →
            select config (registry.snapshot key) = .ok candidates)) := by
  have alive := restartable.alive
  rcases restartable.reachable.consistent key with ⟨log, consistent⟩
  rcases restartable.recovers with ⟨recovered, outcome, partition_eq⟩
  rcases (Registry.Reachable.recovered outcome).consistent key with ⟨_, recoveredConsistent⟩
  have distinct := (recorded_of_consistent consistent).2.distinct
  have ids : (recovered.snapshot key).unsequence.map DataFile.id =
      ((registry.snapshot key).unsequence.mergeSort DataFile.comesFirst).map DataFile.id := by
    rw [Snapshot.unsequence, partition_eq]
    apply map_id_restoredFiles
    exact fun file member => alive file (Partition.unsequence_subset_files _ member)
  refine ⟨recovered, outcome, ids, ?_, ?_⟩
  · rw [ids]
    exact DataFile.map_id_mergeSort_eq_iff distinct
  · intro unclaimed spans config
    rw [restoredPartition_of_unclaimed alive unclaimed spans] at partition_eq
    have selected := select_of_sorted consistent recoveredConsistent alive partition_eq config
    have resolved := resolveInput_of_perm consistent alive
      (List.mergeSort_perm (registry.snapshot key).unsequence DataFile.comesFirst)
    rcases exists_selectFrom resolved config with ⟨candidates, chosen⟩
    refine ⟨candidates, selected.trans chosen, chosen, fun increasing => ?_⟩
    rw [List.mergeSort_of_pairwise (increasing.imp DataFile.SortsBefore.comesFirst)] at chosen
    exact chosen

end Store

/-! ## Files that arrive the other way round

Of two late files the one with the higher number arrives first. -/

namespace Sample

def early : DataFile :=
  file .sequence .closed 1 [("a", ⟨0, 100⟩)]

def arrivedFirst : DataFile :=
  file .unsequence .closed 12 [("a", ⟨10, 20⟩)]

def arrivedSecond : DataFile :=
  file .unsequence .closed 11 [("a", ⟨15, 30⟩)]

/-- The registry when all three files have come in. -/
def arrived : Registry :=
  ((Registry.empty.serve (.addAll key .sequence [early])).serve
    (.addAll key .unsequence [arrivedFirst])).serve (.addAll key .unsequence [arrivedSecond])

def toSave : List (PartitionKey × FileId) :=
  [(key, 1), (key, 12), (key, 11)]

/-- The store when all three files have been saved. -/
def stored : Store :=
  leftBehind (Store.persistEach layout toSave ⟨arrived, blank⟩)

theorem run_arrived :
    (arrived.snapshot key).partition = ⟨[early], [arrivedFirst, arrivedSecond]⟩ ∧
      returned? (Store.persistEach layout toSave ⟨arrived, blank⟩) = some () := by
  decide +kernel

theorem restartable_arrived :
    Store.Restartable layout ["store"] blank arrived toSave key stored where
  roomy := roomy_layout
  vacant := vacant_blank
  reachable := ((Registry.Reachable.empty.served _).served _).served _
  savable := by decide +kernel
  saving := eq_ok_of_returned? run_arrived.2
  complete := by
    rw [run_arrived.1]
    decide
  alive := by
    rw [run_arrived.1]
    decide

theorem mergeSort_arrived :
    [arrivedFirst, arrivedSecond].mergeSort DataFile.comesFirst =
      [arrivedSecond, arrivedFirst] := by
  cbv

theorem restoredPartition_arrived :
    restoredPartition ⟨[early], [arrivedFirst, arrivedSecond]⟩ =
      ⟨[early], [arrivedSecond, arrivedFirst]⟩ := by
  rw [restoredPartition_of_unclaimed (by decide) (by decide) (by decide), mergeSort_arrived,
    List.mergeSort_singleton]

end Sample

namespace Store

theorem arrival_order_survives_iff_sample :
    Restartable Sample.layout ["store"] Sample.blank Sample.arrived Sample.toSave Sample.key
        Sample.stored ∧
      ∃ recovered, Sample.layout.recover Sample.stored.disk = .ok recovered ∧
        (recovered.snapshot Sample.key).unsequence.map DataFile.id = [11, 12] := by
  rcases arrival_order_survives_iff Sample.restartable_arrived with
    ⟨recovered, outcome, ids, _⟩
  refine ⟨Sample.restartable_arrived, recovered, outcome, ?_⟩
  rw [ids, Snapshot.unsequence, Sample.run_arrived.1, Sample.mergeSort_arrived]
  rfl

/-- The two late files change places, and they are merged in the other order. -/
theorem arrival_order_is_lost :
    Restartable Sample.layout ["store"] Sample.blank Sample.arrived Sample.toSave Sample.key
        Sample.stored ∧
      (∀ file ∈ (Sample.arrived.snapshot Sample.key).partition.files,
        file.status.isClaimed = false) ∧
      (Sample.arrived.snapshot Sample.key).unsequence.map DataFile.id = [12, 11] ∧
      select {} (Sample.arrived.snapshot Sample.key) =
        .ok [⟨[Sample.early], [Sample.arrivedFirst, Sample.arrivedSecond], 240⟩] ∧
      ∃ recovered, Sample.layout.recover Sample.stored.disk = .ok recovered ∧
        (recovered.snapshot Sample.key).unsequence.map DataFile.id = [11, 12] ∧
        select {} (recovered.snapshot Sample.key) =
          .ok [⟨[Sample.early], [Sample.arrivedSecond, Sample.arrivedFirst], 240⟩] := by
  rcases Sample.restartable_arrived.recovers with ⟨recovered, outcome, partition_eq⟩
  rw [Sample.run_arrived.1, Sample.restoredPartition_arrived] at partition_eq
  have before : Sample.arrived.snapshot Sample.key =
      ⟨Sample.key, [Sample.early], [Sample.arrivedFirst, Sample.arrivedSecond]⟩ := by
    rw [Snapshot.mk.injEq]
    exact ⟨rfl, Sample.run_arrived.1⟩
  have after : recovered.snapshot Sample.key =
      ⟨Sample.key, [Sample.early], [Sample.arrivedSecond, Sample.arrivedFirst]⟩ := by
    rw [Snapshot.mk.injEq]
    exact ⟨rfl, partition_eq⟩
  refine ⟨Sample.restartable_arrived, ?_, ?_, ?_, recovered, outcome, ?_, ?_⟩
  · rw [before]
    decide
  · rw [before]
    rfl
  · rw [before]
    cbv
  · rw [after]
    rfl
  · rw [after]
    cbv

end Store

end SeriesStore
