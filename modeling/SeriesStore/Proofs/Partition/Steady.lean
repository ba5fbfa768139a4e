import SeriesStore.Proofs.Disk.Restored
import SeriesStore.Proofs.Partition.Group

/-!
# What sidecars see of a partition

The sidecar of a file shows where the file stands and what it comes back as.  Most
operations change neither for any registered file: claims do not come back, and files that
come in have free numbers.  Only a write and a seal change what a file comes back as, and
only that of the file they are about.

Deleting a file and finishing a group take files out.  They hand these out as deleted and
keep all others as they are.
-/

namespace SeriesStore.Partition

open Disk (revived?)

/-- Whether all registered files stay registered where they are, and come back as before
but for those of some numbers. -/
def Steady (touched : FileId → Prop) (before after : Partition) : Prop :=
  ∀ id file, before.find? id = some file →
    ∃ later, after.find? id = some later ∧ file.SamePlace later ∧
      (¬ touched id → revived? later = revived? file)

namespace Steady

variable {touched more : FileId → Prop} {before middle after : Partition}

theorem refl (touched : FileId → Prop) (partition : Partition) :
    Steady touched partition partition :=
  fun _ file found => ⟨file, found, .refl file, fun _ => rfl⟩

theorem trans (first : Steady touched before middle) (second : Steady touched middle after) :
    Steady touched before after := by
  intro id file found
  rcases first id file found with ⟨next, nextFound, nextPlace, nextBack⟩
  rcases second id next nextFound with ⟨later, laterFound, laterPlace, laterBack⟩
  exact ⟨later, laterFound, nextPlace.trans laterPlace,
    fun outside => (laterBack outside).trans (nextBack outside)⟩

theorem mono (steady : Steady touched before after) (wider : ∀ id, touched id → more id) :
    Steady more before after := by
  intro id file found
  rcases steady id file found with ⟨later, laterFound, place, back⟩
  exact ⟨later, laterFound, place, fun outside => back fun inside => outside (wider id inside)⟩

end Steady

/-! ## Changes of registered files -/

/-- Replacing a file by one at its place moves no file, and only its own number may come
back differently. -/
theorem steady_replace {partition : Partition} {file changed : DataFile}
    {touched : FileId → Prop} (found : partition.find? file.id = some file)
    (place : file.SamePlace changed)
    (back : ¬ touched file.id → revived? changed = revived? file) :
    Steady touched partition (partition.replace changed) := by
  intro id own ownFound
  have replaced := find?_replace partition changed id
  rw [ownFound, Option.map_some] at replaced
  refine ⟨_, replaced, ?_⟩
  split
  · rename_i same
    have id_eq : file.id = id := by
      rw [← place.id, ← same, (mem_of_find?_eq_some ownFound).2]
    subst id_eq
    have own_eq : own = file := Option.some.inj (ownFound.symm.trans found)
    subst own_eq
    exact ⟨place, back⟩
  · exact ⟨.refl own, fun _ => rfl⟩

/-- Claiming, starting and giving back is not seen. -/
theorem steady_shifts {target : Status} (alive : target ≠ .deleted) {partition left : Partition}
    (shifts : Shifts target partition left) : Steady (fun _ => False) partition left := by
  induction shifts with
  | refl => exact .refl _ partition
  | tail _ shift ih =>
      cases shift with
      | move found settled outcome =>
          exact ih.trans (steady_replace found (DataFile.Change.moved _ settled outcome).samePlace
            fun _ => Disk.revived?_of_transition settled alive outcome)

/-- A change of one file touches no other. -/
theorem steady_update {id : FileId} {change : DataFile → Except Error DataFile}
    (changes : ∀ file changed, change file = .ok changed → file.Change changed)
    (partition : Partition) :
    Steady (· = id) partition (leftBehind (update id change partition)) := by
  rw [update]
  split
  · exact .refl _ partition
  · rename_i file found
    split
    · exact .refl _ partition
    · rename_i changed outcome
      have own := (mem_of_find?_eq_some found).2
      rw [← own] at found ⊢
      exact steady_replace found (changes file changed outcome).samePlace
        fun outside => absurd rfl outside

theorem steady_recordWrite (id : FileId) (device : String) (time : Timestamp)
    (partition : Partition) :
    Steady (· = id) partition (leftBehind (recordWrite id device time partition)) := by
  apply steady_update
  intro file changed outcome
  rw [writtenTo] at outcome
  split at outcome
  · rename_i unclosed
    cases outcome
    exact .recorded unclosed device time
  · contradiction

theorem steady_sealFile (id : FileId) (ends : EndTimes) (partition : Partition) :
    Steady (· = id) partition (leftBehind (sealFile id ends partition)) :=
  steady_update (fun _ _ outcome => .sealed ends outcome) partition

/-! ## Files that come in -/

theorem find?_insertAll_of_not_mem {files : List DataFile} {id : FileId}
    (outside : id ∉ files.map DataFile.id) (partition : Partition) :
    (partition.insertAll files).find? id = partition.find? id := by
  induction files generalizing partition with
  | nil => rfl
  | cons file rest ih =>
      rw [List.map_cons, List.mem_cons, not_or] at outside
      change ((partition.insert file).insertAll rest).find? id = _
      rw [ih outside.2, find?_insert_of_ne (Ne.symm outside.1)]

/-- The numbers of fresh files are not registered. -/
theorem Fresh.not_mem {partition : Partition} {files : List DataFile} {id : FileId}
    {file : DataFile} (fresh : partition.Fresh files) (found : partition.find? id = some file) :
    id ∉ files.map DataFile.id := by
  intro member
  rcases List.mem_map.mp member with ⟨other, otherMember, rfl⟩
  have free := fresh.free other otherMember
  rw [contains, found] at free
  contradiction

theorem steady_insertAll {partition : Partition} {files : List DataFile}
    (fresh : partition.Fresh files) :
    Steady (fun _ => False) partition (partition.insertAll files) := by
  intro id file found
  refine ⟨file, ?_, .refl file, fun _ => rfl⟩
  rw [find?_insertAll_of_not_mem (fresh.not_mem found), found]

/-! ## Files that leave -/

theorem find?_erase_self (partition : Partition) (id : FileId) :
    (partition.erase id).find? id = none := by
  have gone := contains_erase partition id id
  rw [bne_self_eq_false, Bool.and_false, contains] at gone
  exact Option.not_isSome_iff_eq_none.mp (by simp [gone])

/-- What a deletion that succeeds has done. -/
structure Deleted (partition left : Partition) (id : FileId) (gone : DataFile) : Prop where
  own : ∃ file, partition.find? id = some file ∧ gone = { file with status := .deleted }
  absent : left.find? id = none
  others : ∀ other, other ≠ id → left.find? other = partition.find? other

theorem deleted_of_delete {partition left : Partition} {id : FileId} {gone : DataFile}
    (outcome : delete id partition = .ok gone left) : Deleted partition left id gone := by
  rcases (bind_eq_ok_iff _ _ _ _ _).mp outcome with ⟨changed, marked, first, taken⟩
  rcases (update_eq_ok_iff _ _ _ _ _).mp first with ⟨file, found, move, rfl⟩
  rcases (DataFile.transition_eq_ok_iff _ _ _).mp move with ⟨_, rfl⟩
  have own := (mem_of_find?_eq_some found).2
  have inMarked : (partition.replace { file with status := .deleted }).find? id =
      some { file with status := .deleted } := by
    rw [find?_replace, found, Option.map_some, if_pos rfl]
  have left_eq := take_eq_ok taken
  rw [take, inMarked] at taken
  constructor
  case own =>
    cases taken
    exact ⟨file, found, rfl⟩
  case absent =>
    rw [left_eq]
    exact find?_erase_self _ id
  case others =>
    intro other ne
    rw [left_eq, find?_erase_of_ne ne, find?_replace]
    cases registered : partition.find? other with
    | none => rfl
    | some kept =>
        have keptId := (mem_of_find?_eq_some registered).2
        rw [Option.map_some, if_neg]
        rw [keptId, own]
        exact ne

/-- Files that are taken out one after the other differ, and all others stay. -/
theorem of_takeAll_eq_ok {ids : List FileId} {partition left : Partition}
    {removed : List DataFile} (outcome : takeAll ids partition = .ok removed left) :
    removed.map DataFile.id = ids ∧ ids.Nodup ∧
      (∀ file ∈ removed, partition.find? file.id = some file) ∧
      ∀ id, id ∉ ids → left.find? id = partition.find? id := by
  induction ids generalizing partition removed with
  | nil =>
      cases outcome
      simp
  | cons id rest ih =>
      rw [takeAll, bind_eq_ok_iff] at outcome
      rcases outcome with ⟨file, middle, taken, outcome⟩
      rcases (bind_eq_ok_iff _ _ _ _ _).mp outcome with ⟨others, last, more, done⟩
      cases done
      have middle_eq := take_eq_ok taken
      subst middle_eq
      rcases ih more with ⟨ids_eq, differ, found, kept⟩
      have own : partition.find? id = some file := by
        rw [take] at taken
        split at taken
        · contradiction
        · cases taken
          assumption
      have file_id := (mem_of_find?_eq_some own).2
      -- What is taken later is still there after the first file has left.
      have apart : ∀ other ∈ others, other.id ≠ id := by
        intro other member same
        have later := found other member
        rw [same, find?_erase_self] at later
        contradiction
      refine ⟨?_, ?_, ?_, ?_⟩
      · rw [List.map_cons, file_id, ids_eq]
      · rw [List.nodup_cons]
        refine ⟨fun again => ?_, differ⟩
        rw [← ids_eq] at again
        rcases List.mem_map.mp again with ⟨other, member, same⟩
        exact apart other member same
      · rw [List.forall_mem_cons, file_id]
        refine ⟨own, fun other member => ?_⟩
        have later := found other member
        rwa [find?_erase_of_ne (apart other member)] at later
      · intro other outside
        rw [List.mem_cons, not_or] at outside
        rw [kept other outside.2, find?_erase_of_ne outside.1]

/-- What finishing a group has done when it succeeds. -/
structure Finished (partition left : Partition) (ids : List FileId)
    (outputs removed : List DataFile) : Prop where
  ids_eq : removed.map DataFile.id = ids
  ids_nodup : ids.Nodup
  outputs_nodup : (outputs.map DataFile.id).Nodup
  registered : ∀ file ∈ outputs, file ∈ left.files
  members : ∀ file ∈ removed, ∃ own, partition.find? file.id = some own ∧
    file = { own with status := .deleted }
  free : ∀ id file, id ∉ ids → partition.find? id = some file → id ∉ outputs.map DataFile.id
  others : ∀ id, id ∉ ids → id ∉ outputs.map DataFile.id → left.find? id = partition.find? id

theorem finished_of_finish {partition left : Partition} {ids : List FileId}
    {outputs removed : List DataFile} (distinct : partition.Distinct)
    (outcome : finish ids outputs partition = .ok removed left) :
    Finished partition left ids outputs removed := by
  rw [finish_eq] at outcome
  split at outcome
  · contradiction
  split at outcome
  · contradiction
  rename_i checked
  split at outcome
  · contradiction
  rename_i gone retired retiring
  cases outcome
  have fresh := fresh_of_retire_eq_ok checked retiring
  rcases (bind_eq_ok_iff _ _ _ _ _).mp retiring with ⟨_, marked, moved, taken⟩
  have marked_eq := eq_withStatus_of_transitionAll distinct moved
  subst marked_eq
  rcases of_takeAll_eq_ok taken with ⟨ids_eq, differ, found, kept⟩
  have outside : ∀ id, id ∉ ids → retired.find? id = partition.find? id := by
    intro id notMember
    rw [kept id notMember, find?_withStatus]
    cases registered : partition.find? id with
    | none => rfl
    | some own =>
        rw [Option.map_some, DataFile.withStatus_of_not_mem]
        rw [(mem_of_find?_eq_some registered).2]
        exact notMember
  constructor
  case ids_eq => exact ids_eq
  case ids_nodup => exact differ
  case outputs_nodup => exact fresh.distinct
  case registered =>
    intro file member
    exact (mem_files_insertAll _ _ _).mpr (.inl member)
  case members =>
    intro file member
    have marking := found file member
    rw [find?_withStatus, Option.map_eq_some_iff] at marking
    rcases marking with ⟨own, ownFound, rfl⟩
    have isMember : own.id ∈ ids := by
      rw [← ids_eq, ← DataFile.id_withStatus .deleted ids own]
      exact List.mem_map_of_mem member
    exact ⟨own, ownFound, DataFile.withStatus_of_mem .deleted isMember⟩
  case free =>
    intro id file notMember ownFound
    rw [← outside id notMember] at ownFound
    exact fresh.not_mem ownFound
  case others =>
    intro id notMember notOutput
    rw [find?_insertAll_of_not_mem notOutput, outside id notMember]

end SeriesStore.Partition
