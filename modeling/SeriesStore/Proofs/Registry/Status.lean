import SeriesStore.Proofs.Partition.Status
import SeriesStore.Proofs.Registry.Reachable

/-!
# Statuses in a registry

What steps do to the statuses of a partition they do to those under its key, and
they leave the other keys alone.  A step on the members of a group finds the
partition registered when one of the members is.
-/

namespace SeriesStore.Registry

/-- The status with which a number is registered under a key. -/
def status? (registry : Registry) (key : PartitionKey) (id : FileId) : Option Status :=
  (registry.snapshot key).partition.status? id

/-- Whether all registered files but those of some numbers under one key stay
registered with their statuses. -/
def KeepsOutside (key : PartitionKey) (ids : List FileId) (before after : Registry) : Prop :=
  ∀ asked id, (asked = key → id ∉ ids) → ∀ status, before.status? asked id = some status →
    after.status? asked id = some status

theorem KeepsOutside.refl (key : PartitionKey) (ids : List FileId) (registry : Registry) :
    KeepsOutside key ids registry registry :=
  fun _ _ _ _ registered => registered

theorem status?_put_self (registry : Registry) (key : PartitionKey) (partition : Partition)
    (id : FileId) : (registry.put key partition).status? key id = partition.status? id := by
  rw [status?, partition_snapshot (partition?_put_self _ _ _)]

theorem exists_partition_of_status? {registry : Registry} {key : PartitionKey} {id : FileId}
    {status : Status} (registered : registry.status? key id = some status) :
    ∃ partition, registry.partition? key = some partition := by
  cases present : registry.partition? key with
  | none =>
      rw [status?, snapshot, present] at registered
      contradiction
  | some partition => exact ⟨partition, rfl⟩

/-- The view of a file is that of the registered file. -/
theorem file_eq_ok_iff (registry : Registry) (key : PartitionKey) (id : FileId)
    (file : DataFile) :
    registry.file key id = .ok file ↔
      (registry.snapshot key).partition.find? id = some file := by
  rw [Registry.file, snapshot]
  cases registry.partition? key with
  | none =>
      constructor <;> intro absent <;> contradiction
  | some partition =>
      rw [Option.getD_some]
      dsimp only
      cases partition.find? id <;> simp

theorem keepsOutside_put {registry : Registry} {key : PartitionKey} {ids : List FileId}
    {left : Partition}
    (keeps : Partition.KeepsOutside ids (registry.snapshot key).partition left) :
    KeepsOutside key ids registry (registry.put key left) := by
  intro asked id outside status registered
  by_cases same : asked = key
  · subst same
    rw [status?_put_self]
    exact keeps id (outside rfl) status registered
  · rw [status?, snapshot, partition?_put_of_ne registry same]
    exact registered

theorem keepsOutside_within {α : Type} {step : Partition.Step α} {ids : List FileId}
    (keeps : ∀ partition, Partition.KeepsOutside ids partition (leftBehind (step partition)))
    (registry : Registry) (key : PartitionKey) :
    KeepsOutside key ids registry (leftBehind (within key step registry)) := by
  rw [within]
  split
  · exact .refl key ids registry
  · rename_i partition present
    rw [leftBehind_run]
    apply keepsOutside_put
    rw [partition_snapshot present]
    exact keeps partition

/-- Adding files changes the partition of their key, or it is refused and nothing changes. -/
theorem leftBehind_addAll (registry : Registry) (key : PartitionKey) (space : Space)
    (files : List DataFile) :
    leftBehind (registry.addAll key space files) = registry ∨
      leftBehind (registry.addAll key space files) =
        registry.put key
          (leftBehind (Partition.addAll space files (registry.snapshot key).partition)) := by
  rw [addAll, snapshot]
  split
  · rename_i partition present
    rw [leftBehind_run, present]
    exact .inr rfl
  · rename_i absent
    rw [absent, Option.getD_none]
    split
    · rename_i value partition outcome
      rw [outcome]
      exact .inr rfl
    · exact .inl rfl

theorem keepsOutside_addAll (registry : Registry) (key : PartitionKey) (space : Space)
    (files : List DataFile) :
    KeepsOutside key [] registry (leftBehind (registry.addAll key space files)) := by
  rcases registry.leftBehind_addAll key space files with unchanged | changed
  · rw [unchanged]
    exact .refl key [] registry
  · rw [changed]
    exact keepsOutside_put (Partition.keepsOutside_addAll space files _)

/-- A step on a registered partition that fails without a change changes nothing. -/
theorem within_eq_error {α : Type} {registry : Registry} {key : PartitionKey}
    {partition : Partition} {step : Partition.Step α} {error : Error}
    (present : registry.partition? key = some partition)
    (outcome : step partition = .error error partition) :
    within key step registry = .error error registry := by
  rw [within, present]
  dsimp only
  rw [run, outcome]
  dsimp only
  rw [put_of_partition?_eq_some present]

theorem within_eq_ok {α : Type} {registry : Registry} {key : PartitionKey}
    {partition left : Partition} {step : Partition.Step α} {value : α}
    (present : registry.partition? key = some partition)
    (outcome : step partition = .ok value left) :
    within key step registry = .ok value (registry.put key left) := by
  rw [within, present]
  dsimp only
  rw [run, outcome]

/-- A step succeeds when it does so on the partition of its key, and puts what it leaves in
the place of that partition. -/
theorem within_eq_ok_iff {α : Type} (registry after : Registry) (key : PartitionKey)
    (step : Partition.Step α) (value : α) :
    within key step registry = .ok value after ↔
      ∃ partition left, registry.partition? key = some partition ∧
        step partition = .ok value left ∧ after = registry.put key left := by
  constructor
  · intro outcome
    rw [within] at outcome
    split at outcome
    · contradiction
    · rename_i partition present
      rw [run] at outcome
      split at outcome
      · rename_i left taken
        cases outcome
        exact ⟨partition, left, present, taken, rfl⟩
      · contradiction
  · rintro ⟨partition, left, present, outcome, rfl⟩
    exact within_eq_ok present outcome

/-- A claim succeeds when every member is closed and changes nothing otherwise. -/
theorem claim_cases (registry : Registry) (key : PartitionKey) {ids : List FileId}
    (distinct : ids.Nodup) :
    (∃ error, registry.claim key ids = .error error registry) ∨
      (∀ id ∈ ids, registry.status? key id = some .closed) ∧
        ∃ after, registry.claim key ids = .ok () after ∧
          ∀ id ∈ ids, after.status? key id = some .candidate := by
  cases present : registry.partition? key with
  | none =>
      refine .inl ⟨.partitionNotFound key, ?_⟩
      rw [claim, within, present]
  | some partition =>
      rcases Partition.claim_cases distinct with ⟨error, refused⟩ | ⟨closed, left, claimed, done⟩
      · exact .inl ⟨error, within_eq_error present refused⟩
      · refine .inr ⟨?_, registry.put key left, within_eq_ok present claimed, ?_⟩
        · rw [← partition_snapshot present] at closed
          exact closed
        · intro id member
          rw [status?_put_self]
          exact done id member

section Members

variable {registry : Registry} {key : PartitionKey} {ids : List FileId} (some_member : ids ≠ [])
  (distinct : ids.Nodup)

include some_member distinct

theorem move_eq_ok {source : Status} (target : Status)
    (members : ∀ id ∈ ids, registry.status? key id = some source)
    (allowed : source.canBecome target) :
    ∃ after, within key (Partition.move source target ids) registry = .ok () after ∧
      ∀ id ∈ ids, after.status? key id = some target := by
  rcases List.exists_mem_of_ne_nil ids some_member with ⟨first, member⟩
  rcases exists_partition_of_status? (members first member) with ⟨partition, present⟩
  unfold status? at members
  rw [partition_snapshot present] at members
  rcases Partition.move_eq_ok distinct members allowed with ⟨left, moved, done⟩
  refine ⟨registry.put key left, within_eq_ok present moved, fun id member => ?_⟩
  rw [status?_put_self]
  exact done id member

/-- Finishing a group of compacting members fails only on the outputs and changes
nothing then. -/
theorem finish_cases_of_compacting
    (members : ∀ id ∈ ids, registry.status? key id = some .compacting)
    (outputs : List DataFile) :
    (∃ removed after, registry.finish key ids outputs = .ok removed after) ∨
      ∃ error, registry.finish key ids outputs = .error error registry ∧
        Partition.Refused .sequence
          (fun id => (registry.status? key id).isSome && !ids.contains id) outputs error := by
  rcases List.exists_mem_of_ne_nil ids some_member with ⟨first, member⟩
  rcases exists_partition_of_status? (members first member) with ⟨partition, present⟩
  have status_eq : ∀ id, registry.status? key id = partition.status? id := by
    intro id
    rw [status?, partition_snapshot present]
  simp only [status_eq] at members ⊢
  rcases Partition.finish_cases_of_compacting distinct members outputs with
    ⟨removed, left, finished⟩ | ⟨error, failed, refused⟩
  · exact .inl ⟨removed, _, within_eq_ok present finished⟩
  · refine .inr ⟨error, within_eq_error present failed, ?_⟩
    have reason : Partition.Refused .sequence
        (fun id => partition.contains id && !ids.contains id) ([] ++ outputs) error :=
      Partition.refused_of_expectNew refused (by simp)
    simpa [Partition.contains, Partition.status?] using reason

end Members

end SeriesStore.Registry
