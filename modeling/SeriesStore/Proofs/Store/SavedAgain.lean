import SeriesStore.Proofs.Disk.Rewritten
import SeriesStore.Proofs.Store.Restart

/-!
# Recovered files that are saved again

Recovery asks of a sidecar that its space and its number are those of its place.  It does not ask
for the ordering key and the levels in its name, nor for the spelling of that name, which are those
of the path to which the file is written.

So a recovered file can be saved again without harm exactly when its sidecar stands at that path.
Otherwise the tree holds two sidecars of one number afterwards and recovery refuses it.
-/

namespace SeriesStore

open Disk

namespace Store

variable {layout : Layout} {tree : Tree} {registry : Registry} {key : PartitionKey} {id : FileId}
  {after : Store}

/-- A file that has been recovered came back from one sidecar.  After it has been saved again,
recovery gives the same registry if that sidecar stands where the file is saved.  If it stands
elsewhere, recovery fails since it finds the number of the file twice. -/
theorem recovered_file_saved_again (wellFormed : tree.WellFormed)
    (recovers : layout.recover tree = .ok registry)
    (saving : persist layout key id ⟨registry, tree⟩ = .ok () after) :
    after.registry = registry ∧
      ∃ file path, registry.file key id = .ok file ∧
        (∀ other, layout.BringsBack tree key id other ↔ other = path) ∧
        layout.recover after.disk =
          if path = layout.sidecarPath key file then .ok registry
          else .error (.malformed id .listedTwice) := by
  rcases persist_eq_ok_iff.mp saving with ⟨file, disk, found, writing, rfl⟩
  have id_eq := (Partition.mem_of_find?_eq_some found).2
  subst id_eq
  rcases Layout.exists_brings_of_recover recovers found with ⟨registered, sidecar, brings⟩
  rcases Layout.exists_rewriting wellFormed recovers registered brings writing with
    ⟨root, rewriting⟩
  refine ⟨rfl, file, sidecar.2, (Registry.file_eq_ok_iff _ _ _ _).mpr found,
    rewriting.bringsBack_iff, ?_⟩
  split
  · rename_i path
    exact rewriting.recover_eq_ok path
  · rename_i path
    exact rewriting.recover_eq_error path

end Store

/-! ## A sidecar under the name of another key

The file of the small tree `disk` comes back from the path of its own sidecar.  In a second tree the
name of that sidecar says 5, although the ordering key of the file is 2. -/

namespace Sample

/-- The file that comes back. -/
def shelved : DataFile :=
  file .sequence .closed 2 []

/-- Where its sidecar stands in the second tree. -/
def strayPath : String :=
  "store/sequence/group/0/5-2-1-0.tsfile.resource"

def stray : Tree where
  nodes := .ofList _
    [ (["store"], .directory),
      (["store", "sequence"], .directory),
      (["store", "sequence", "group"], .directory),
      (["store", "sequence", "group", "0"], .directory),
      (["store", "sequence", "group", "0", "5-2-1-0.tsfile.resource"], sidecarNode shelved) ]

theorem run_stray :
    stray.WellFormed ∧ layout.listPartitions stray = .ok [key] ∧
      stray.listIfPresent (layout.partitionDirectory .sequence key) =
        .ok [("5-2-1-0.tsfile.resource", sidecarNode shelved)] ∧
      stray.listIfPresent (layout.partitionDirectory .unsequence key) = .ok [] ∧
      stray.readSidecar strayPath = .ok shelved := by
  unfold Tree.WellFormed
  decide +kernel

/-- The listed sidecars of the partition. -/
def straySidecars : Space → List (FileName × String)
  | .sequence => [(⟨5, 2, 1, 0⟩, strayPath)]
  | .unsequence => []

theorem listSidecars_stray (space : Space) :
    layout.listSidecars stray space key = .ok (straySidecars space) := by
  have sorted : (straySidecars space).mergeSort Layout.listedFirst = straySidecars space :=
    List.mergeSort_of_pairwise (by cases space <;> decide)
  rcases run_stray with ⟨_, _, inSequence, inUnsequence, _⟩
  cases space with
  | sequence =>
      rw [Layout.listSidecars, inSequence, ← sorted]
      apply congrArg fun listed => Except.ok (List.mergeSort listed Layout.listedFirst)
      decide +kernel
  | unsequence =>
      rw [Layout.listSidecars, inUnsequence, ← sorted]
      rfl

theorem readSidecar_stray : stray.readSidecar strayPath = .ok shelved :=
  run_stray.2.2.2.2

theorem restoredAt?_stray : restoredAt? stray strayPath = some shelved := by
  rw [restoredAt?, readSidecar_stray]
  rfl

theorem restored_stray : layout.restored stray key = [shelved] := by
  simp [Layout.restored_eq_append, Layout.restoredIn_eq (listSidecars_stray _), straySidecars,
    restoredAt?_stray]

theorem recoverable_stray : layout.Recoverable stray key := by
  constructor
  case inPlace =>
    intro space
    refine ⟨straySidecars space, listSidecars_stray space, ?_⟩
    cases space with
    | sequence =>
        simp only [straySidecars, List.forall_mem_singleton]
        exact ⟨_, readSidecar_stray, rfl, rfl⟩
    | unsequence => simp [straySidecars]
  case validated =>
    rw [restored_stray]
    decide
  case distinct =>
    rw [restored_stray]
    decide

/-- Recovery from a tree that brings back the file alone. -/
theorem exists_recover_shelved {tree : Tree} (listed : layout.listPartitions tree = .ok [key])
    (recoverable : layout.Recoverable tree key)
    (restored : layout.restored tree key = [shelved]) :
    ∃ registry, layout.recover tree = .ok registry ∧ key ∈ registry.keys ∧
      (registry.snapshot key).partition.find? 2 = some shelved := by
  have described : ∀ other ∈ [key], ∃ partition, layout.Describes tree other partition := by
    rw [List.forall_mem_singleton, Layout.exists_describes_iff]
    exact recoverable
  rcases (Layout.exists_recover_iff listed).mpr described with ⟨registry, recovers⟩
  have registered : key ∈ registry.keys := by
    rw [(Layout.described_of_recover listed recovers).1]
    exact List.mem_cons_self
  refine ⟨registry, recovers, registered, ?_⟩
  rw [Layout.snapshot_of_recover recovers registered, restored]
  decide

theorem persist_shelved {tree : Tree} {registry : Registry}
    (found : (registry.snapshot key).partition.find? 2 = some shelved)
    (writing : returned? (layout.persist key shelved tree) = some ()) :
    Store.persist layout key 2 ⟨registry, tree⟩ =
      .ok () ⟨registry, leftBehind (layout.persist key shelved tree)⟩ :=
  Store.persist_eq_ok_iff.mpr ⟨shelved, _, found, eq_ok_of_returned? writing, rfl⟩

theorem run_saving :
    layout.sidecarPath key shelved = "store/sequence/group/0/2-2-1-0.tsfile.resource" ∧
      returned? (layout.persist key shelved disk) = some () ∧
      returned? (layout.persist key shelved stray) = some () := by
  decide +kernel

/-- In the small tree the file comes back from where it is saved. -/
theorem bringsBack_disk :
    layout.BringsBack disk key 2 (layout.sidecarPath key shelved) := by
  refine ⟨.sequence, sidecars .sequence, ⟨2, 2, 1, 0⟩, listSidecars_disk .sequence, ?_, shelved,
    ?_, rfl⟩
  · rw [run_saving.1]
    exact List.mem_cons_self
  · rw [run_saving.1, restoredAt?, readSidecar_merging]
    rfl

theorem strayPath_ne : strayPath ≠ layout.sidecarPath key shelved := by
  rw [run_saving.1, strayPath]
  simp

end Sample

namespace Store

theorem recovered_file_saved_again_sample :
    Sample.disk.WellFormed ∧ ∃ registry after,
      Sample.layout.recover Sample.disk = .ok registry ∧
        persist Sample.layout Sample.key 2 ⟨registry, Sample.disk⟩ = .ok () after ∧
        Sample.layout.recover after.disk = .ok registry := by
  rcases Sample.exists_recover_shelved Sample.listPartitions_disk Sample.recoverable_disk
    Sample.restored_disk with ⟨registry, recovers, _, found⟩
  have saving := Sample.persist_shelved found Sample.run_saving.2.1
  refine ⟨Sample.disk_wellFormed, registry, _, recovers, saving, ?_⟩
  rcases recovered_file_saved_again Sample.disk_wellFormed recovers saving with
    ⟨_, file, path, registered, brings, again⟩
  have file_eq := (Registry.file_eq_ok_iff _ _ _ _).mp registered
  rw [found] at file_eq
  cases Option.some.inj file_eq
  rw [again, if_pos ((brings _).mp Sample.bringsBack_disk).symm]

/-- A file that has come back from a sidecar of another name is found twice after it has been
saved again. -/
theorem saved_again_is_found_twice :
    Sample.stray.WellFormed ∧ ∃ registry after,
      Sample.layout.recover Sample.stray = .ok registry ∧
        persist Sample.layout Sample.key 2 ⟨registry, Sample.stray⟩ = .ok () after ∧
        Sample.layout.recover after.disk = .error (.malformed 2 .listedTwice) := by
  rcases Sample.run_stray with ⟨wellFormed, listedPartitions, _⟩
  have written := Sample.run_saving.2.2
  rcases Sample.exists_recover_shelved listedPartitions Sample.recoverable_stray
    Sample.restored_stray with ⟨registry, recovers, registered, found⟩
  have saving := Sample.persist_shelved found written
  have listed := (Layout.mem_listSidecars (Sample.listSidecars_stray .sequence)
    (⟨5, 2, 1, 0⟩, Sample.strayPath)).mp List.mem_cons_self
  rcases Layout.exists_rewriting wellFormed recovers registered
    ⟨listed, Sample.restoredAt?_stray⟩ (Sample.eq_ok_of_returned? written) with ⟨root, rewriting⟩
  exact ⟨wellFormed, registry, _, recovers, saving, rewriting.recover_eq_error Sample.strayPath_ne⟩

end Store

end SeriesStore
