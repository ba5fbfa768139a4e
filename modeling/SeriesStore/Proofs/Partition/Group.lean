import SeriesStore.Proofs.Partition.Status

/-!
# Moving a group of files

A step on the members of a group looks at each of them before it changes the first,
and then moves one after the other.  In a partition in which every number occurs once
all of this amounts to one change of the lists: the members take the new status at
their places, and every other file stays as it is (`Partition.withStatus`).

So moving a group there and back again restores the partition, and a step on a group
whose members differ never fails between two moves.
-/

namespace SeriesStore

/-- The file with another status if it is one of the given numbers. -/
def DataFile.withStatus (status : Status) (ids : List FileId) (file : DataFile) : DataFile :=
  if file.id ∈ ids then { file with status := status } else file

namespace DataFile

variable (status other : Status) (ids more : List FileId) (file : DataFile)

@[simp]
theorem id_withStatus : (file.withStatus status ids).id = file.id := by
  rw [withStatus]
  split <;> rfl

theorem withStatus_of_mem {ids : List FileId} {file : DataFile} (member : file.id ∈ ids) :
    file.withStatus status ids = { file with status := status } :=
  if_pos member

theorem withStatus_of_not_mem {ids : List FileId} {file : DataFile} (outside : file.id ∉ ids) :
    file.withStatus status ids = file :=
  if_neg outside

theorem withStatus_append :
    file.withStatus status (ids ++ more) = (file.withStatus status ids).withStatus status more := by
  simp only [withStatus, List.mem_append]
  by_cases first : file.id ∈ ids <;> by_cases second : file.id ∈ more <;> simp [first, second]

/-- The later status counts when it is given to all that have got the earlier one. -/
theorem withStatus_withStatus {ids more : List FileId} (all : ids ⊆ more) :
    (file.withStatus other ids).withStatus status more = file.withStatus status more := by
  simp only [withStatus]
  by_cases first : file.id ∈ ids
  · simp [first, all first]
  · simp [first]

end DataFile

namespace Partition

/-- A partition in which every number occurs once. -/
def Distinct (partition : Partition) : Prop :=
  (partition.files.map DataFile.id).Nodup

/-- The partition in which the files of some numbers have another status. -/
def withStatus (partition : Partition) (status : Status) (ids : List FileId) : Partition where
  sequence := partition.sequence.map (DataFile.withStatus status ids)
  unsequence := partition.unsequence.map (DataFile.withStatus status ids)

variable {partition : Partition} {status other : Status} {ids more : List FileId}

theorem files_withStatus (partition : Partition) (status : Status) (ids : List FileId) :
    (partition.withStatus status ids).files =
      partition.files.map (DataFile.withStatus status ids) :=
  List.map_append.symm

theorem find?_withStatus (partition : Partition) (status : Status) (ids : List FileId)
    (id : FileId) :
    (partition.withStatus status ids).find? id =
      (partition.find? id).map (DataFile.withStatus status ids) := by
  have sameNumber : (fun file : DataFile => file.id == id) ∘ DataFile.withStatus status ids =
      fun file => file.id == id := by
    funext file
    rw [Function.comp_apply, DataFile.id_withStatus]
  rw [find?, files_withStatus, List.find?_map, sameNumber]
  rfl

theorem Distinct.withStatus (distinct : partition.Distinct) (status : Status)
    (ids : List FileId) : (partition.withStatus status ids).Distinct := by
  have sameNumbers : DataFile.id ∘ DataFile.withStatus status ids = DataFile.id := by
    funext file
    exact DataFile.id_withStatus status ids file
  rw [Distinct, files_withStatus, List.map_map, sameNumbers]
  exact distinct

/-- In a partition without repeated numbers the files are those that can be found. -/
theorem Distinct.find?_eq_some_iff (distinct : partition.Distinct) (id : FileId)
    (file : DataFile) :
    partition.find? id = some file ↔ file ∈ partition.files ∧ file.id = id := by
  constructor
  · exact mem_of_find?_eq_some
  · rintro ⟨member, rfl⟩
    rcases Option.isSome_iff_exists.mp ((contains_iff _ _).mpr ⟨file, member, rfl⟩) with
      ⟨other, found⟩
    rcases mem_of_find?_eq_some found with ⟨otherMember, same⟩
    rw [found, List.inj_on_of_nodup_map distinct otherMember member same]

/-- Partitions are equal when the same is done to each file. -/
theorem map_files_congr {change other : DataFile → DataFile}
    (same : ∀ file ∈ partition.files, change file = other file) :
    (⟨partition.sequence.map change, partition.unsequence.map change⟩ : Partition) =
      ⟨partition.sequence.map other, partition.unsequence.map other⟩ := by
  congr 1
  · exact List.map_congr_left fun file member => same file (sequence_subset_files _ member)
  · exact List.map_congr_left fun file member => same file (unsequence_subset_files _ member)

@[simp]
theorem withStatus_nil (partition : Partition) (status : Status) :
    partition.withStatus status [] = partition := by
  have same : DataFile.withStatus status [] = id := by
    funext file
    exact DataFile.withStatus_of_not_mem status List.not_mem_nil
  rw [withStatus, same, List.map_id, List.map_id]

theorem withStatus_append (partition : Partition) (status : Status) (ids more : List FileId) :
    partition.withStatus status (ids ++ more) =
      (partition.withStatus status ids).withStatus status more := by
  simp only [withStatus, List.map_map]
  apply map_files_congr
  intro file _
  exact file.withStatus_append status ids more

theorem withStatus_withStatus (partition : Partition) (status other : Status) (all : ids ⊆ more) :
    (partition.withStatus other ids).withStatus status more =
      partition.withStatus status more := by
  simp only [withStatus, List.map_map]
  apply map_files_congr
  intro file _
  exact file.withStatus_withStatus status other all

/-- Giving files the status that they have changes nothing. -/
theorem withStatus_of_status? (distinct : partition.Distinct)
    (has : ∀ id ∈ ids, partition.status? id = some status) :
    partition.withStatus status ids = partition := by
  have same : ∀ file ∈ partition.files, file.withStatus status ids = id file := by
    intro file member
    by_cases isMember : file.id ∈ ids
    · rcases (status?_eq_some_iff _ _ _).mp (has file.id isMember) with ⟨own, found, rfl⟩
      have own_eq : own = file := by
        have asked := (distinct.find?_eq_some_iff file.id file).mpr ⟨member, rfl⟩
        exact Option.some.inj (found.symm.trans asked)
      rw [DataFile.withStatus_of_mem _ isMember, own_eq]
      rfl
    · exact DataFile.withStatus_of_not_mem status isMember
  calc partition.withStatus status ids
      = ⟨partition.sequence.map id, partition.unsequence.map id⟩ := map_files_congr same
    _ = partition := by rw [List.map_id, List.map_id]

theorem status?_withStatus_of_mem {id : FileId} (member : id ∈ ids)
    (registered : partition.status? id = some other) :
    (partition.withStatus status ids).status? id = some status := by
  rcases (status?_eq_some_iff _ _ _).mp registered with ⟨file, found, rfl⟩
  have isMember : file.id ∈ ids := by rwa [(mem_of_find?_eq_some found).2]
  rw [status?, find?_withStatus, found, Option.map_some, Option.map_some,
    DataFile.withStatus_of_mem status isMember]

theorem status?_withStatus_of_not_mem {id : FileId} (outside : id ∉ ids) :
    (partition.withStatus status ids).status? id = partition.status? id := by
  rw [status?, status?, find?_withStatus]
  cases found : partition.find? id with
  | none => rfl
  | some file =>
      have isOutside : file.id ∉ ids := by rwa [(mem_of_find?_eq_some found).2]
      rw [Option.map_some, DataFile.withStatus_of_not_mem status isOutside]

/-! ## Moves -/

/-- Where every number occurs once, moving a file is giving its number the status. -/
theorem replace_eq_withStatus (distinct : partition.Distinct) {id : FileId} {file : DataFile}
    (found : partition.find? id = some file) :
    partition.replace { file with status := status } = partition.withStatus status [id] := by
  apply map_files_congr
  intro other member
  rcases mem_of_find?_eq_some found with ⟨isMember, rfl⟩
  by_cases same : other.id = file.id
  · rw [if_pos same, DataFile.withStatus_of_mem status (List.mem_singleton.mpr same),
      List.inj_on_of_nodup_map distinct member isMember same]
  · have outside : other.id ∉ [file.id] := fun isSame => same (List.mem_singleton.mp isSame)
    rw [if_neg same, DataFile.withStatus_of_not_mem status outside]

/-- Putting a file in its own place changes nothing. -/
theorem replace_self (distinct : partition.Distinct) {id : FileId}
    {file : DataFile} (found : partition.find? id = some file) :
    partition.replace file = partition := by
  have has : ∀ asked ∈ [id], partition.status? asked = some file.status := by
    intro asked member
    rw [List.mem_singleton.mp member]
    exact (status?_eq_some_iff _ _ _).mpr ⟨file, found, rfl⟩
  calc partition.replace file
      = partition.withStatus file.status [id] := replace_eq_withStatus distinct found
    _ = partition := withStatus_of_status? distinct has

/-- Of two files that are put in one place the later stays. -/
theorem replace_replace (partition : Partition) {first second : DataFile}
    (same : first.id = second.id) :
    (partition.replace first).replace second = partition.replace second := by
  simp only [replace, List.map_map]
  apply map_files_congr
  intro file _
  by_cases own : file.id = second.id <;> simp [same, own]

/-- Moving the members one after the other gives all of them the status. -/
theorem eq_withStatus_of_transitionAll (distinct : partition.Distinct) {left : Partition}
    (outcome : transitionAll status ids partition = .ok () left) :
    left = partition.withStatus status ids := by
  induction ids generalizing partition with
  | nil =>
      cases outcome
      exact (withStatus_nil _ status).symm
  | cons id rest ih =>
      rw [transitionAll, bind_eq_ok_iff] at outcome
      rcases outcome with ⟨moved, middle, first, others⟩
      rcases (update_eq_ok_iff _ _ _ _ _).mp first with ⟨file, found, move, rfl⟩
      rcases (DataFile.transition_eq_ok_iff _ _ _).mp move with ⟨_, rfl⟩
      rw [replace_eq_withStatus distinct found] at others
      rw [ih (distinct.withStatus status [id]) others, ← withStatus_append]
      rfl

theorem transitionAll_eq_withStatus (distinct : partition.Distinct) (differ : ids.Nodup)
    (movable : ∀ id ∈ ids, ∃ own, partition.status? id = some own ∧ own.canBecome status) :
    transitionAll status ids partition = .ok () (partition.withStatus status ids) := by
  rcases transitionAll_eq_ok differ movable with ⟨left, moved, _⟩
  rw [moved, eq_withStatus_of_transitionAll distinct moved]

/-- A claim of closed members makes candidates of them. -/
theorem claim_eq_withStatus (distinct : partition.Distinct) (differ : ids.Nodup)
    (closed : ∀ id ∈ ids, partition.status? id = some .closed) :
    claim ids partition = .ok () (partition.withStatus .candidate ids) := by
  have checked : partition.expectUnchanged ids = .ok () := by
    rw [expectUnchanged_eq_ok_iff]
    exact fun id member => (status?_eq_some_iff _ _ _).mp (closed id member)
  rw [claim, check_bind, checked]
  exact transitionAll_eq_withStatus distinct differ fun id member =>
    ⟨.closed, closed id member, rfl⟩

/-- Members that have the status from which they are moved get the other one. -/
theorem move_eq_withStatus (distinct : partition.Distinct) (differ : ids.Nodup)
    {source : Status} (members : ∀ id ∈ ids, partition.status? id = some source)
    (allowed : source.canBecome status) :
    move source status ids partition = .ok () (partition.withStatus status ids) := by
  have checked : partition.expectStatus source status ids = .ok () := by
    rw [expectStatus_eq_ok_iff]
    exact fun id member => (status?_eq_some_iff _ _ _).mp (members id member)
  rw [move, check_bind, checked]
  exact transitionAll_eq_withStatus distinct differ fun id member =>
    ⟨source, members id member, allowed⟩

end Partition

end SeriesStore
