import SeriesStore.Proofs.Partition.Steady
import SeriesStore.Proofs.Registry.Atomic
import SeriesStore.Proofs.Registry.Consistent

/-!
# What sidecars see of a registry

A request that takes no file out leaves every registered file where its sidecar expects
it.  What a sidecar says of a file stays true unless the file has come in or has been
written or sealed since.
-/

namespace SeriesStore.Registry

/-- Whether all registered files stay registered where they are, and come back as before
but for some of them. -/
def Steady (touched : List (PartitionKey × FileId)) (before after : Registry) : Prop :=
  ∀ key, Partition.Steady (fun id => (key, id) ∈ touched) (before.snapshot key).partition
    (after.snapshot key).partition

namespace Steady

variable {touched more : List (PartitionKey × FileId)} {before middle after : Registry}

theorem refl (touched : List (PartitionKey × FileId)) (registry : Registry) :
    Steady touched registry registry :=
  fun _ => .refl _ _

theorem trans (first : Steady touched before middle) (second : Steady touched middle after) :
    Steady touched before after :=
  fun key => (first key).trans (second key)

theorem mono (steady : Steady touched before after) (wider : touched ⊆ more) :
    Steady more before after :=
  fun key => (steady key).mono fun _ inside => wider inside

end Steady

theorem steady_put {touched : List (PartitionKey × FileId)} {registry : Registry}
    {key : PartitionKey} {left : Partition}
    (steady : Partition.Steady (fun id => (key, id) ∈ touched)
      (registry.snapshot key).partition left) :
    Steady touched registry (registry.put key left) := by
  intro asked
  by_cases same : asked = key
  · subst same
    rw [partition_snapshot (partition?_put_self _ _ _)]
    exact steady
  · have untouched : (registry.put key left).snapshot asked = registry.snapshot asked := by
      rw [snapshot, snapshot, partition?_put_of_ne registry same]
    rw [untouched]
    exact .refl _ _

theorem steady_within {α : Type} {step : Partition.Step α}
    {touched : List (PartitionKey × FileId)} (registry : Registry) (key : PartitionKey)
    (steady : ∀ partition, Partition.Steady (fun id => (key, id) ∈ touched) partition
      (leftBehind (step partition))) :
    Steady touched registry (leftBehind (within key step registry)) := by
  rw [within]
  split
  · exact .refl touched registry
  · rename_i partition present
    rw [leftBehind_run]
    apply steady_put
    rw [partition_snapshot present]
    exact steady partition

/-- Moves to other statuses than deleted are not seen. -/
theorem steady_of_shifts {step : Partition.Step Unit} {target : Status}
    (alive : target ≠ .deleted) (registry : Registry) (key : PartitionKey)
    (shifts : ∀ partition, Partition.Shifts target partition (leftBehind (step partition))) :
    Steady [] registry (leftBehind (within key step registry)) :=
  registry.steady_within key fun partition =>
    (Partition.steady_shifts alive (shifts partition)).mono fun _ => False.elim

theorem steady_coversGroups : CoversGroups (Steady []) where
  refl := Steady.refl []
  trans := Steady.trans
  claim registry key ids :=
    steady_of_shifts (by decide) registry key (Partition.claim_shifts ids)
  release registry key ids :=
    steady_of_shifts (by decide) registry key (Partition.move_shifts .closed (by decide) ids)

theorem steady_addAll (registry : Registry) (key : PartitionKey) (space : Space)
    (files : List DataFile) :
    Steady [] registry (leftBehind (registry.addAll key space files)) := by
  rcases registry.leftBehind_addAll key space files with unchanged | changed
  · rw [unchanged]
    exact .refl [] registry
  · rw [changed]
    apply steady_put
    rw [Partition.addAll_eq]
    generalize (registry.snapshot key).partition = partition
    cases checked : Partition.expectNew space partition.contains [] files with
    | error error => exact .refl _ _
    | ok _ =>
        exact (Partition.steady_insertAll (Partition.fresh_of_expectNew checked)).mono
          fun _ => False.elim

/-! ## What a request makes out of date -/

/-- The file that a step on one file is about, if it succeeds. -/
def concerned {ε σ α : Type} (key : PartitionKey) (id : FileId) :
    EStateM.Result ε σ α → List (PartitionKey × FileId)
  | .ok .. => [(key, id)]
  | .error .. => []

/-- The files whose sidecars a request makes out of date: those that it registers, and the
one that it writes or seals. -/
def outdated (registry : Registry) : Request → List (PartitionKey × FileId)
  | .addAll key space files =>
      (broughtIn files (registry.addAll key space files)).map fun file => (key, file.id)
  | .recordWrite key id device time =>
      concerned key id (registry.recordWrite key id device time)
  | .sealFile key id ends => concerned key id (registry.sealFile key id ends)
  | _ => []

/-- Whether a request is one that takes files out. -/
def Request.takesOut : Request → Bool
  | .delete .. | .finish .. | .finishAndPersist .. => true
  | _ => false

theorem steady_concerned {α : Type} {step : Partition.Step α} {id : FileId}
    (atomic : Partition.Atomic step)
    (steady : ∀ partition, Partition.Steady (· = id) partition (leftBehind (step partition)))
    (registry : Registry) (key : PartitionKey) :
    Steady (concerned key id (within key step registry)) registry
      (leftBehind (within key step registry)) := by
  have touching : Steady [(key, id)] registry (leftBehind (within key step registry)) :=
    registry.steady_within key fun partition =>
      (steady partition).mono fun other same => by simp [same]
  cases outcome : within key step registry with
  | ok value after =>
      rw [outcome] at touching
      exact touching
  | error error after =>
      have unchanged := atomic_within key atomic registry error after outcome
      subst unchanged
      exact .refl _ _

/-- A request that takes no file out is seen only in the files that it makes out of date. -/
theorem steady_serve (registry : Registry) {request : Request}
    (keeps : request.takesOut = false) :
    Steady (registry.outdated request) registry (registry.serve request) := by
  cases request with
  | addAll key space files =>
      exact (registry.steady_addAll key space files).mono (List.nil_subset _)
  | recordWrite key id device time =>
      exact steady_concerned (Partition.atomic_update _ _)
        (Partition.steady_recordWrite id device time) registry key
  | sealFile key id ends =>
      exact steady_concerned (Partition.atomic_update _ _)
        (Partition.steady_sealFile id ends) registry key
  | claim key ids => exact steady_coversGroups.claim registry key ids
  | release key ids => exact steady_coversGroups.release registry key ids
  | start key ids =>
      exact steady_of_shifts (by decide) registry key
        (Partition.move_shifts .compacting (by decide) ids)
  | abort key ids =>
      exact steady_of_shifts (by decide) registry key
        (Partition.move_shifts .closed (by decide) ids)
  | selectAndClaim config key => exact steady_coversGroups.selectAndClaim registry config key
  | runRound config => exact steady_coversGroups.visit registry config .empty registry.keys
  | delete key id => contradiction
  | finish key ids outputs => contradiction
  | finishAndPersist layout disk key ids outputs => contradiction

/-! ## Steps that succeed -/

/-- A step that succeeds has done to the partition of its key what it says, and nothing to
the others. -/
theorem of_within_eq_ok {α : Type} {step : Partition.Step α} {registry after : Registry}
    {key : PartitionKey} {value : α} (outcome : within key step registry = .ok value after) :
    key ∈ after.keys ∧
      step (registry.snapshot key).partition = .ok value (after.snapshot key).partition ∧
      ∀ other, other ≠ key → after.snapshot other = registry.snapshot other := by
  rw [within] at outcome
  split at outcome
  · contradiction
  · rename_i partition present
    rw [run] at outcome
    split at outcome
    · rename_i left taken
      cases outcome
      have put_self := partition?_put_self registry key left
      rw [keys, SortedMap.mem_keys_iff, partition_snapshot present, partition_snapshot put_self]
      refine ⟨⟨left, put_self⟩, taken, fun other ne => ?_⟩
      rw [snapshot, snapshot, partition?_put_of_ne registry ne]
    · contradiction

end SeriesStore.Registry
