import SeriesStore.File.Basic

/-!
# Partitions

A partition holds the files of one storage group and one slot of time in two
lists: sequence files by ordering key, equal keys in order of arrival, and
unsequence files in order of arrival.  A number occurs at most once in both
lists together.

## Steps

What changes a partition is a `Step`: it may fail after it has changed
something, and the error comes with the partition as it is then.  The steps of
this module check everything before they change anything; that a failing step
leaves the partition as it was is therefore a fact about them and not about
their type.
-/

namespace SeriesStore

/-- The files of a partition. -/
structure Partition where
  sequence : List DataFile
  unsequence : List DataFile
deriving DecidableEq

namespace Partition

/-- A change of a partition that may fail on the way. -/
abbrev Step := EStateM Error Partition

/-- The partition without files. -/
def empty : Partition :=
  ⟨[], []⟩

/-- All files, sequence files first. -/
def files (partition : Partition) : List DataFile :=
  partition.sequence ++ partition.unsequence

/-- The file of the given number. -/
def find? (partition : Partition) (id : FileId) : Option DataFile :=
  partition.files.find? fun file => file.id == id

/-- Whether the partition has a file of the given number. -/
def contains (partition : Partition) (id : FileId) : Bool :=
  (partition.find? id).isSome

/-- Puts a file behind all files whose ordering key is not larger. -/
def placeByKey (file : DataFile) (files : List DataFile) : List DataFile :=
  files.takeWhile (fun other => other.orderingKey ≤ file.orderingKey) ++
    file :: files.dropWhile (fun other => other.orderingKey ≤ file.orderingKey)

/-- Adds a file to the list of its space. -/
def insert (partition : Partition) (file : DataFile) : Partition :=
  match file.space with
  | .sequence => { partition with sequence := placeByKey file partition.sequence }
  | .unsequence => { partition with unsequence := partition.unsequence ++ [file] }

/-- Adds files one after the other. -/
def insertAll (partition : Partition) (files : List DataFile) : Partition :=
  files.foldl insert partition

/-- Puts a file in the place of the file with its number. -/
def replace (partition : Partition) (file : DataFile) : Partition where
  sequence := partition.sequence.map fun other => if other.id = file.id then file else other
  unsequence := partition.unsequence.map fun other => if other.id = file.id then file else other

/-- Removes the file of the given number. -/
def erase (partition : Partition) (id : FileId) : Partition where
  sequence := partition.sequence.filter fun file => file.id != id
  unsequence := partition.unsequence.filter fun file => file.id != id

/-! ## Steps on one file -/

/-- Replaces one file by a changed one and returns the changed file. -/
def update (id : FileId) (change : DataFile → Except Error DataFile) : Step DataFile :=
  fun partition =>
    match partition.find? id with
    | none => .error (.fileNotFound id) partition
    | some file =>
        match change file with
        | .error error => .error error partition
        | .ok changed => .ok changed (partition.replace changed)

/-- A write of a device, which only an unclosed file takes. -/
def writtenTo (device : String) (time : Timestamp) (file : DataFile) : Except Error DataFile :=
  if file.status = .unclosed then
    .ok (file.record device time)
  else
    .error (.fileSealed file.id)

/-- Records a write into a file. -/
def recordWrite (id : FileId) (device : String) (time : Timestamp) : Step DataFile :=
  update id (writtenTo device time)

/-- Seals a file with the supplied ends. -/
def sealFile (id : FileId) (ends : EndTimes) : Step DataFile :=
  update id (DataFile.sealWith ends)

/-- Takes one file out of the partition. -/
def take (id : FileId) : Step DataFile := fun partition =>
  match partition.find? id with
  | none => .error (.fileNotFound id) partition
  | some file => .ok file (partition.erase id)

/-- Deletes a closed file and returns it as deleted. -/
def delete (id : FileId) : Step DataFile := do
  let _ ← update id (DataFile.transition .deleted)
  take id

/-! ## Steps on the members of a group -/

/-- Looks at the members in order and reports the first that is not registered
with status `source`. -/
def expectStatus (partition : Partition) (source target : Status) :
    List FileId → Except Error Unit
  | [] => .ok ()
  | id :: rest =>
      match partition.find? id with
      | none => .error (.fileNotFound id)
      | some file =>
          if file.status ≠ source then
            .error (.illegalTransition id file.status target)
          else
            partition.expectStatus source target rest

/-- Looks at the members in order and reports the first that is no longer
registered as closed. -/
def expectUnchanged (partition : Partition) : List FileId → Except Error Unit
  | [] => .ok ()
  | id :: rest =>
      match partition.find? id with
      | none => .error (.stale id .unregistered)
      | some file =>
          if file.status ≠ .closed then
            .error (.stale id (.statusChanged file.status))
          else
            partition.expectUnchanged rest

/-- Moves the members one after the other. -/
def transitionAll (target : Status) : List FileId → Step Unit
  | [] => pure ()
  | id :: rest => do
      let _ ← update id (DataFile.transition target)
      transitionAll target rest

/-- Takes the members out one after the other. -/
def takeAll : List FileId → Step (List DataFile)
  | [] => pure []
  | id :: rest => do
      let file ← take id
      let others ← takeAll rest
      return file :: others

/-- Turns the outcome of a check into a step that changes nothing. -/
def check (outcome : Partition → Except Error Unit) : Step Unit := fun partition =>
  match outcome partition with
  | .error error => .error error partition
  | .ok () => .ok () partition

/-- Claims the members for a group that is to be merged. -/
def claim (ids : List FileId) : Step Unit := do
  check fun partition => partition.expectUnchanged ids
  transitionAll .candidate ids

/-- Moves the members from one status to another. -/
def move (source target : Status) (ids : List FileId) : Step Unit := do
  check fun partition => partition.expectStatus source target ids
  transitionAll target ids

/-- Gives a claimed group back. -/
def release : List FileId → Step Unit :=
  move .candidate .closed

/-- Starts to merge a claimed group. -/
def start : List FileId → Step Unit :=
  move .candidate .compacting

/-- Gives up merging a group. -/
def abort : List FileId → Step Unit :=
  move .compacting .closed

/-- Looks at new files in order and reports the first that is malformed, belongs
to the other space, repeats a number of the list or has a number that is
`taken`. -/
def expectNew (space : Space) (taken : FileId → Bool) (seen : List FileId) :
    List DataFile → Except Error Unit
  | [] => .ok ()
  | file :: rest =>
      match file.validate with
      | .error error => .error error
      | .ok () =>
          if file.space ≠ space then
            .error (.malformed file.id .wrongSpace)
          else if seen.contains file.id || taken file.id then
            .error (.malformed file.id .listedTwice)
          else
            expectNew space taken (file.id :: seen) rest

/-- Registers new files of one space, all of them or none. -/
def addAll (space : Space) (newFiles : List DataFile) : Step Unit := do
  check fun partition => expectNew space partition.contains [] newFiles
  modify fun partition => partition.insertAll newFiles

/-- Puts the outputs of a merged group in the place of its members and returns
the members as deleted.  An output may take over the number of a member. -/
def finish (ids : List FileId) (outputs : List DataFile) : Step (List DataFile) := do
  check fun partition => partition.expectStatus .compacting .deleted ids
  check fun partition =>
    expectNew .sequence (fun id => partition.contains id && !ids.contains id) [] outputs
  transitionAll .deleted ids
  let removed ← takeAll ids
  modify fun partition => partition.insertAll outputs
  return removed

/-! ## What the operations do -/

theorem mem_files (partition : Partition) (file : DataFile) :
    file ∈ partition.files ↔ file ∈ partition.sequence ∨ file ∈ partition.unsequence :=
  List.mem_append

theorem sequence_subset_files (partition : Partition) : partition.sequence ⊆ partition.files :=
  List.subset_append_left _ _

theorem unsequence_subset_files (partition : Partition) :
    partition.unsequence ⊆ partition.files :=
  List.subset_append_right _ _

/-- A file that is found is registered under its number. -/
theorem mem_of_find?_eq_some {partition : Partition} {id : FileId} {file : DataFile}
    (found : partition.find? id = some file) : file ∈ partition.files ∧ file.id = id :=
  ⟨List.mem_of_find?_eq_some found, by simpa using List.find?_some found⟩

/-- Placing a file adds it and moves nothing else in or out. -/
theorem placeByKey_perm (file : DataFile) (files : List DataFile) :
    (placeByKey file files).Perm (file :: files) := by
  unfold placeByKey
  refine List.perm_middle.trans ?_
  rw [List.takeWhile_append_dropWhile]

/-- Adding a file adds it and moves nothing else in or out. -/
theorem mem_files_insert (partition : Partition) (file other : DataFile) :
    other ∈ (partition.insert file).files ↔ other = file ∨ other ∈ partition.files := by
  unfold insert
  split
  · simp only [mem_files, (placeByKey_perm file partition.sequence).mem_iff, List.mem_cons,
      or_assoc]
  · simp only [mem_files, List.mem_append, List.mem_singleton]
    constructor
    · rintro (member | member | rfl)
      · exact .inr (.inl member)
      · exact .inr (.inr member)
      · exact .inl rfl
    · rintro (rfl | member | member)
      · exact .inr (.inr rfl)
      · exact .inl member
      · exact .inr (.inl member)

theorem mem_files_erase (partition : Partition) (id : FileId) (file : DataFile) :
    file ∈ (partition.erase id).files ↔ file ∈ partition.files ∧ file.id ≠ id := by
  simp only [mem_files, erase, List.mem_filter, bne_iff_ne]
  exact or_and_right.symm

/-- The members pass the check when all of them are registered with the status. -/
theorem expectStatus_eq_ok_iff (partition : Partition) (source target : Status)
    (ids : List FileId) :
    partition.expectStatus source target ids = .ok () ↔
      ∀ id ∈ ids, ∃ file, partition.find? id = some file ∧ file.status = source := by
  induction ids with
  | nil => simp [expectStatus]
  | cons id rest ih =>
      simp only [expectStatus, List.forall_mem_cons]
      cases found : partition.find? id with
      | none => simp
      | some file =>
          by_cases status : file.status = source
          · simp [status, ih]
          · simp [status]

/-- The members pass the check when all of them are registered as closed. -/
theorem expectUnchanged_eq_ok_iff (partition : Partition) (ids : List FileId) :
    partition.expectUnchanged ids = .ok () ↔
      ∀ id ∈ ids, ∃ file, partition.find? id = some file ∧ file.status = .closed := by
  induction ids with
  | nil => simp [expectUnchanged]
  | cons id rest ih =>
      simp only [expectUnchanged, List.forall_mem_cons]
      cases found : partition.find? id with
      | none => simp
      | some file =>
          by_cases status : file.status = .closed
          · simp [status, ih]
          · simp [status]

/-- New files pass the check when each is valid and of the space and their numbers
are free and differ. -/
theorem expectNew_eq_ok_iff (space : Space) (taken : FileId → Bool) (seen : List FileId)
    (newFiles : List DataFile) :
    expectNew space taken seen newFiles = .ok () ↔
      (∀ file ∈ newFiles,
        file.Valid ∧ file.space = space ∧ taken file.id = false ∧ file.id ∉ seen) ∧
      (newFiles.map DataFile.id).Nodup := by
  induction newFiles generalizing seen with
  | nil => simp [expectNew]
  | cons file rest ih =>
      have valid_iff := file.validate_eq_ok_iff
      simp only [expectNew, List.forall_mem_cons, List.map_cons, List.nodup_cons]
      cases outcome : file.validate with
      | error error =>
          rw [outcome] at valid_iff
          have invalid : ¬ file.Valid := fun valid => nomatch valid_iff.mpr valid
          simp [invalid]
      | ok _ =>
          have valid : file.Valid := valid_iff.mp outcome
          by_cases spaces : file.space = space
          · by_cases repeated : file.id ∈ seen
            · simp [spaces, repeated]
            · by_cases used : taken file.id
              · simp [spaces, used]
              · simp only [ne_eq, spaces, not_true_eq_false, ↓reduceIte, List.contains_eq_mem,
                  repeated, decide_false, used, Bool.or_self, Bool.false_eq_true, ih,
                  List.mem_cons, not_or, valid, not_false_eq_true, and_self, true_and]
                constructor
                · rintro ⟨others, distinct⟩
                  refine ⟨fun other member => ?_, fun clash => ?_, distinct⟩
                  · have facts := others other member
                    exact ⟨facts.1, facts.2.1, facts.2.2.1, facts.2.2.2.2⟩
                  · obtain ⟨other, member, same⟩ := List.mem_map.mp clash
                    exact (others other member).2.2.2.1 same
                · rintro ⟨others, fresh, distinct⟩
                  refine ⟨fun other member => ?_, distinct⟩
                  have facts := others other member
                  have other_ne : other.id ≠ file.id := fun same =>
                    fresh (same ▸ List.mem_map_of_mem member)
                  exact ⟨facts.1, facts.2.1, facts.2.2.1, other_ne, facts.2.2.2⟩
          · simp [spaces]

end Partition

end SeriesStore
