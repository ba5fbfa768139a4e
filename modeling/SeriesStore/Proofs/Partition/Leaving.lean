import SeriesStore.Proofs.Partition.Group
import SeriesStore.Proofs.Partition.Steady

/-!
# Files that leave

Deleting a file and retiring the members of a group mark files as deleted and then take
them out.  What has been marked leaves no trace: the lists are the old ones without the
files of the given numbers, in the old order (`Partition.without`), and what comes back is
what was registered but for the status.
-/

namespace SeriesStore

/-- The statuses from which a file may be deleted. -/
theorem Status.canBecome_deleted_iff (status : Status) :
    status.canBecome .deleted ↔ status = .closed ∨ status = .compacting := by
  cases status <;> simp [canBecome]

namespace Partition

/-- The partition without the files of some numbers. -/
def without (partition : Partition) (ids : List FileId) : Partition where
  sequence := partition.sequence.filter fun file => file.id ∉ ids
  unsequence := partition.unsequence.filter fun file => file.id ∉ ids

variable {partition : Partition} {ids : List FileId} {id : FileId}

theorem mem_files_without (partition : Partition) (ids : List FileId) (file : DataFile) :
    file ∈ (partition.without ids).files ↔ file ∈ partition.files ∧ file.id ∉ ids := by
  simp only [mem_files, without, List.mem_filter, decide_eq_true_iff]
  exact or_and_right.symm

@[simp]
theorem without_nil (partition : Partition) : partition.without [] = partition := by
  simp [without]

/-- Taking out one file and then others is taking all of them out. -/
theorem without_erase (partition : Partition) (id : FileId) (ids : List FileId) :
    (partition.erase id).without ids = partition.without (id :: ids) := by
  have twice : ∀ files : List DataFile,
      (files.filter fun file => file.id != id).filter (fun file => file.id ∉ ids) =
        files.filter fun file => file.id ∉ id :: ids := by
    intro files
    rw [List.filter_filter]
    apply List.filter_congr
    intro file _
    rw [Bool.eq_iff_iff]
    simp [and_comm]
  simp only [without, erase, twice]

/-- Files that leave may have been changed before. -/
theorem filter_map_of_outside {change : DataFile → DataFile}
    (same : ∀ file, (change file).id = file.id)
    (outside : ∀ file, file.id ∉ ids → change file = file) (files : List DataFile) :
    (files.map change).filter (fun file => file.id ∉ ids) =
      files.filter fun file => file.id ∉ ids := by
  induction files with
  | nil => rfl
  | cons file rest ih =>
      rw [List.map_cons, List.filter_cons, List.filter_cons, same, ih]
      by_cases leaves : file.id ∈ ids
      · simp only [leaves, not_true_eq_false, decide_false, Bool.false_eq_true, if_false]
      · rw [outside file leaves]

theorem without_withStatus (partition : Partition) (status : Status) (ids : List FileId) :
    (partition.withStatus status ids).without ids = partition.without ids := by
  have outside : ∀ file : DataFile, file.id ∉ ids → file.withStatus status ids = file :=
    fun file notMember => DataFile.withStatus_of_not_mem status notMember
  simp only [without, withStatus,
    filter_map_of_outside (DataFile.id_withStatus status ids) outside]

theorem erase_eq_without (partition : Partition) (id : FileId) :
    partition.erase id = partition.without [id] := by
  rw [← without_nil (partition.erase id), without_erase]

/-- Marking a file makes no difference for what stays when it is taken out. -/
theorem erase_replace (partition : Partition) (file : DataFile) :
    (partition.replace file).erase file.id = partition.erase file.id := by
  have outside : ∀ other : DataFile, other.id ∉ [file.id] →
      (if other.id = file.id then file else other) = other := by
    intro other notMember
    rw [if_neg fun same => notMember (List.mem_singleton.mpr same)]
  have same : ∀ other : DataFile, (if other.id = file.id then file else other).id = other.id := by
    intro other
    split
    · rename_i isFile
      exact isFile.symm
    · rfl
  simp only [erase_eq_without, without, replace, filter_map_of_outside same outside]

/-- A registered file is deleted just when the lifecycle allows it, and then it is the only
one that leaves. -/
theorem delete_eq {file : DataFile} (found : partition.find? id = some file) :
    delete id partition =
      if file.status = .closed ∨ file.status = .compacting then
        .ok { file with status := .deleted } (partition.erase id)
      else
        .error (.illegalTransition id file.status .deleted) partition := by
  have own := (mem_of_find?_eq_some found).2
  have allowed_iff := file.status.canBecome_deleted_iff
  split
  · rename_i allowed
    have move : file.transition .deleted = .ok { file with status := .deleted } :=
      (DataFile.transition_eq_ok_iff _ _ _).mpr ⟨allowed_iff.mpr allowed, rfl⟩
    have marked := (update_eq_ok_iff id _ _ _ _).mpr ⟨file, found, move, rfl⟩
    apply (bind_eq_ok_iff _ _ _ _ _).mpr ⟨_, _, marked, _⟩
    rw [take, find?_replace, found, Option.map_some, if_pos rfl, ← own]
    dsimp only
    rw [← erase_replace partition { file with status := .deleted }]
  · rename_i refused
    have move : file.transition .deleted = .error (.illegalTransition id file.status .deleted) := by
      rw [DataFile.transition, if_neg fun allowed => refused (allowed_iff.mp allowed), own]
    rw [delete, bind_eq, update, found]
    dsimp only
    rw [move]

theorem delete_eq_error_of_absent (absent : partition.find? id = none) :
    delete id partition = .error (.fileNotFound id) partition := by
  rw [delete, bind_eq, update, absent]

/-- What is taken out was registered, and the other files stay. -/
theorem eq_without_of_takeAll {left : Partition} {removed : List DataFile}
    (outcome : takeAll ids partition = .ok removed left) :
    left = partition.without ids ∧ removed.map some = ids.map partition.find? := by
  constructor
  · induction ids generalizing partition removed with
    | nil =>
        cases outcome
        exact (without_nil _).symm
    | cons id rest ih =>
        rw [takeAll, bind_eq_ok_iff] at outcome
        rcases outcome with ⟨file, middle, taken, outcome⟩
        rcases (bind_eq_ok_iff _ _ _ _ _).mp outcome with ⟨others, last, more, done⟩
        cases done
        rw [ih more, take_eq_ok taken, without_erase]
  · rcases of_takeAll_eq_ok outcome with ⟨rfl, _, found, _⟩
    rw [List.map_map]
    exact List.map_congr_left fun file member => (found file member).symm

/-- Retiring a group takes its members out and returns them as deleted. -/
theorem eq_without_of_retire {left : Partition} {removed : List DataFile}
    (distinct : partition.Distinct) (outcome : retire ids partition = .ok removed left) :
    left = partition.without ids ∧
      removed.map some = ids.map fun id =>
        (partition.find? id).map fun own => { own with status := .deleted } := by
  rcases (bind_eq_ok_iff _ _ _ _ _).mp outcome with ⟨_, marked, moved, taken⟩
  rw [eq_withStatus_of_transitionAll distinct moved] at taken
  rcases eq_without_of_takeAll taken with ⟨rfl, removed_eq⟩
  refine ⟨without_withStatus partition .deleted ids, ?_⟩
  rw [removed_eq]
  apply List.map_congr_left
  intro id member
  rw [find?_withStatus]
  cases found : partition.find? id with
  | none => rfl
  | some own =>
      have isMember : own.id ∈ ids := by rwa [(mem_of_find?_eq_some found).2]
      rw [Option.map_some, Option.map_some, DataFile.withStatus_of_mem .deleted isMember]

end Partition

end SeriesStore
