import Mathlib.Data.List.Nodup
import SeriesStore.Proofs.Partition.Edit

/-!
# What steps do to statuses

Every step leaves the files alone that it is not about: whatever is registered
under another number stays registered with its status, also when the step fails
(`KeepsOutside`).

A step on the members of a group succeeds when their numbers differ and all of
them have the status from which it moves them, and then all of them have the status
to which it moves them.  If the check of the members fails, nothing has changed.
-/

namespace SeriesStore.Partition

/-- The status with which a number is registered. -/
def status? (partition : Partition) (id : FileId) : Option Status :=
  (partition.find? id).map DataFile.status

theorem status?_eq_some_iff (partition : Partition) (id : FileId) (status : Status) :
    partition.status? id = some status ↔
      ∃ file, partition.find? id = some file ∧ file.status = status :=
  Option.map_eq_some_iff

/-! ## Lookups after an edit -/

theorem find?_insert_of_ne {file : DataFile} {id : FileId} (ne : file.id ≠ id)
    (partition : Partition) : (partition.insert file).find? id = partition.find? id := by
  have other : (file.id == id) = false := by simpa using ne
  unfold insert
  split
  · simp only [find?, files, placeByKey, List.find?_append, List.find?_cons, other]
    rw [← List.find?_append, List.takeWhile_append_dropWhile]
  · simp only [find?, files, List.find?_append, List.find?_cons, other, List.find?_nil,
      Option.or_none]

theorem find?_erase_of_ne {gone id : FileId} (ne : id ≠ gone) (partition : Partition) :
    (partition.erase gone).find? id = partition.find? id := by
  have asked : (fun file : DataFile => decide ((file.id != gone) = true ∧ (file.id == id) = true)) =
      fun file => file.id == id := by
    funext file
    by_cases same : file.id = id <;> simp [same, ne]
  simp only [find?, files, erase, List.find?_append, List.find?_filter, asked]

/-! ## Files that a step is not about -/

/-- Whether all registered files but those of some numbers stay registered with their
statuses. -/
def KeepsOutside (ids : List FileId) (before after : Partition) : Prop :=
  ∀ id, id ∉ ids → ∀ status, before.status? id = some status → after.status? id = some status

namespace KeepsOutside

variable {ids : List FileId} {before middle after : Partition}

theorem refl (ids : List FileId) (partition : Partition) : KeepsOutside ids partition partition :=
  fun _ _ _ registered => registered

theorem trans (first : KeepsOutside ids before middle) (second : KeepsOutside ids middle after) :
    KeepsOutside ids before after :=
  fun id outside status registered => second id outside status (first id outside status registered)

theorem bind {α β : Type} {step : Step α} {next : α → Step β}
    (first : ∀ partition, KeepsOutside ids partition (leftBehind (step partition)))
    (others : ∀ value partition, KeepsOutside ids partition (leftBehind (next value partition)))
    (partition : Partition) :
    KeepsOutside ids partition (leftBehind ((step >>= next) partition)) := by
  have firstKeeps := first partition
  rw [bind_eq]
  cases outcome : step partition with
  | error error middle =>
      rw [outcome] at firstKeeps
      exact firstKeeps
  | ok value middle =>
      rw [outcome] at firstKeeps
      exact firstKeeps.trans (others value middle)

end KeepsOutside

theorem keepsOutside_check (ids : List FileId) (outcome : Partition → Except Error Unit)
    (partition : Partition) :
    KeepsOutside ids partition (leftBehind (check outcome partition)) := by
  rw [check]
  split <;> exact .refl ids partition

/-- Changing a file that keeps its number concerns no other number, and not even its
own if it keeps its status as well. -/
theorem keepsOutside_update {ids : List FileId} {id : FileId}
    {change : DataFile → Except Error DataFile}
    (about : ∀ file changed, change file = .ok changed →
      changed.id = file.id ∧ (id ∈ ids ∨ changed.status = file.status)) (partition : Partition) :
    KeepsOutside ids partition (leftBehind (update id change partition)) := by
  rw [update]
  split
  · exact .refl ids partition
  · rename_i file found
    split
    · exact .refl ids partition
    · rename_i changed outcome
      rcases about file changed outcome with ⟨same, known⟩
      intro asked outside status registered
      rcases (status?_eq_some_iff _ _ _).mp registered with ⟨own, ownFound, rfl⟩
      have replaced := find?_replace partition changed asked
      rw [ownFound, Option.map_some] at replaced
      refine (status?_eq_some_iff _ _ _).mpr ⟨_, replaced, ?_⟩
      split
      · rename_i isChanged
        have asked_eq : asked = id := by
          rw [← (mem_of_find?_eq_some ownFound).2, isChanged, same,
            (mem_of_find?_eq_some found).2]
        subst asked_eq
        have own_eq : own = file := Option.some.inj (ownFound.symm.trans found)
        rw [own_eq]
        exact known.resolve_left outside
      · rfl

theorem keepsOutside_recordWrite (id : FileId) (device : String) (time : Timestamp)
    (partition : Partition) :
    KeepsOutside [] partition (leftBehind (recordWrite id device time partition)) := by
  apply keepsOutside_update
  intro file changed outcome
  rw [writtenTo] at outcome
  split at outcome
  · cases outcome
    exact ⟨rfl, .inr rfl⟩
  · contradiction

theorem keepsOutside_sealFile (id : FileId) (ends : EndTimes) (partition : Partition) :
    KeepsOutside [id] partition (leftBehind (sealFile id ends partition)) := by
  apply keepsOutside_update
  intro file changed outcome
  exact ⟨(DataFile.Change.sealed ends outcome).place_eq.1, .inl List.mem_cons_self⟩

theorem keepsOutside_transition {ids : List FileId} {id : FileId} (about : id ∈ ids)
    (target : Status) (partition : Partition) :
    KeepsOutside ids partition
      (leftBehind (update id (DataFile.transition target) partition)) := by
  apply keepsOutside_update
  intro file changed outcome
  rcases (DataFile.transition_eq_ok_iff _ _ _).mp outcome with ⟨_, rfl⟩
  exact ⟨rfl, .inl about⟩

theorem keepsOutside_take {ids : List FileId} {id : FileId} (about : id ∈ ids)
    (partition : Partition) : KeepsOutside ids partition (leftBehind (take id partition)) := by
  rw [take]
  split
  · exact .refl ids partition
  · intro asked outside status registered
    have ne : asked ≠ id := fun same => outside (same ▸ about)
    change ((partition.erase id).find? asked).map DataFile.status = some status
    rw [find?_erase_of_ne ne]
    exact registered

theorem keepsOutside_delete (id : FileId) (partition : Partition) :
    KeepsOutside [id] partition (leftBehind (delete id partition)) :=
  .bind (keepsOutside_transition List.mem_cons_self .deleted)
    (fun _ => keepsOutside_take List.mem_cons_self) partition

theorem keepsOutside_transitionAll {ids members : List FileId} (about : members ⊆ ids)
    (target : Status) (partition : Partition) :
    KeepsOutside ids partition (leftBehind (transitionAll target members partition)) := by
  induction members generalizing partition with
  | nil => exact .refl ids partition
  | cons id rest ih =>
      rw [List.cons_subset] at about
      exact .bind (keepsOutside_transition about.1 target) (fun _ => ih about.2) partition

theorem keepsOutside_takeAll {ids members : List FileId} (about : members ⊆ ids)
    (partition : Partition) :
    KeepsOutside ids partition (leftBehind (takeAll members partition)) := by
  induction members generalizing partition with
  | nil => exact .refl ids partition
  | cons id rest ih =>
      rw [List.cons_subset] at about
      apply KeepsOutside.bind (keepsOutside_take about.1)
      intro file middle
      apply KeepsOutside.bind (ih about.2)
      intro others last
      exact .refl ids last

theorem keepsOutside_claim (ids : List FileId) (partition : Partition) :
    KeepsOutside ids partition (leftBehind (claim ids partition)) :=
  .bind (keepsOutside_check ids _)
    (fun _ => keepsOutside_transitionAll (List.Subset.refl ids) .candidate) partition

theorem keepsOutside_move (source target : Status) (ids : List FileId) (partition : Partition) :
    KeepsOutside ids partition (leftBehind (move source target ids partition)) :=
  .bind (keepsOutside_check ids _)
    (fun _ => keepsOutside_transitionAll (List.Subset.refl ids) target) partition

/-- Fresh files come in beside the registered ones. -/
theorem keepsOutside_insertAll {partition : Partition} {files : List DataFile}
    (fresh : partition.Fresh files) (ids : List FileId) :
    KeepsOutside ids partition (partition.insertAll files) := by
  induction files generalizing partition with
  | nil => exact .refl ids partition
  | cons file rest ih =>
      rcases (fresh_cons_iff _ _ _).mp fresh with ⟨_, free, tail⟩
      apply KeepsOutside.trans _ (ih tail)
      intro id _ status registered
      have ne : file.id ≠ id := by
        rintro rfl
        rcases (status?_eq_some_iff _ _ _).mp registered with ⟨own, found, _⟩
        rw [contains, found] at free
        contradiction
      rw [status?, find?_insert_of_ne ne]
      exact registered

theorem keepsOutside_addAll (space : Space) (files : List DataFile) (partition : Partition) :
    KeepsOutside [] partition (leftBehind (addAll space files partition)) := by
  rw [addAll_eq]
  cases checked : expectNew space partition.contains [] files with
  | error error => exact .refl [] partition
  | ok _ => exact keepsOutside_insertAll (fresh_of_expectNew checked) []

theorem keepsOutside_finish (ids : List FileId) (outputs : List DataFile)
    (partition : Partition) :
    KeepsOutside ids partition (leftBehind (finish ids outputs partition)) := by
  rw [finish_eq]
  split
  · exact .refl ids partition
  split
  · exact .refl ids partition
  rename_i checked
  have retired : KeepsOutside ids partition (leftBehind (retire ids partition)) :=
    .bind (keepsOutside_transitionAll (List.Subset.refl ids) .deleted)
      (fun _ => keepsOutside_takeAll (List.Subset.refl ids)) partition
  cases outcome : retire ids partition with
  | error error left =>
      rw [outcome] at retired
      exact retired
  | ok removed left =>
      rw [outcome] at retired
      exact retired.trans (keepsOutside_insertAll (fresh_of_retire_eq_ok checked outcome) ids)

/-! ## Members that have the expected status -/

section Members

variable {ids : List FileId} {partition : Partition}

theorem status?_transition_eq_ok {id : FileId} {status target : Status}
    (registered : partition.status? id = some status) (allowed : status.canBecome target) :
    ∃ moved left, update id (DataFile.transition target) partition = .ok moved left ∧
      left.status? id = some target := by
  rcases (status?_eq_some_iff _ _ _).mp registered with ⟨file, found, rfl⟩
  have move : file.transition target = .ok { file with status := target } :=
    (DataFile.transition_eq_ok_iff _ _ _).mpr ⟨allowed, rfl⟩
  refine ⟨_, _, (update_eq_ok_iff _ _ _ _ _).mpr ⟨file, found, move, rfl⟩, ?_⟩
  rw [status?, find?_replace, found, Option.map_some, if_pos rfl]
  rfl

theorem transitionAll_eq_ok {target : Status} (distinct : ids.Nodup)
    (movable : ∀ id ∈ ids, ∃ status, partition.status? id = some status ∧
      status.canBecome target) :
    ∃ left, transitionAll target ids partition = .ok () left ∧
      ∀ id ∈ ids, left.status? id = some target := by
  induction ids generalizing partition with
  | nil => exact ⟨partition, rfl, by simp⟩
  | cons id rest ih =>
      rw [List.nodup_cons] at distinct
      rw [List.forall_mem_cons] at movable
      obtain ⟨⟨status, registered, allowed⟩, others⟩ := movable
      obtain ⟨moved, middle, first, done⟩ := status?_transition_eq_ok registered allowed
      have isFirst : id ∈ [id] := List.mem_cons_self
      have keeps := keepsOutside_transition isFirst target partition
      rw [first] at keeps
      -- The numbers differ, so the first move has not touched the other members.
      have stillMovable : ∀ other ∈ rest, ∃ status, middle.status? other = some status ∧
          status.canBecome target := by
        intro other member
        rcases others other member with ⟨own, ownRegistered, ownAllowed⟩
        have ne : other ∉ [id] := by
          rw [List.mem_singleton]
          exact fun same => distinct.1 (same ▸ member)
        exact ⟨own, keeps other ne own ownRegistered, ownAllowed⟩
      obtain ⟨left, more, allDone⟩ := ih distinct.2 stillMovable
      -- For the same reason the other moves leave the first member where it is.
      have keepsFirst := keepsOutside_transitionAll (List.Subset.refl rest) target middle
      rw [more] at keepsFirst
      refine ⟨left, (bind_eq_ok_iff _ _ _ _ _).mpr ⟨moved, middle, first, more⟩, ?_⟩
      rw [List.forall_mem_cons]
      exact ⟨keepsFirst id distinct.1 target done, allDone⟩

/-- A claim succeeds when every member is closed and changes nothing otherwise. -/
theorem claim_cases (distinct : ids.Nodup) :
    (∃ error, claim ids partition = .error error partition) ∨
      (∀ id ∈ ids, partition.status? id = some .closed) ∧
        ∃ left, claim ids partition = .ok () left ∧
          ∀ id ∈ ids, left.status? id = some .candidate := by
  rw [claim, check_bind]
  cases checked : partition.expectUnchanged ids with
  | error error => exact .inl ⟨error, rfl⟩
  | ok _ =>
      have closed : ∀ id ∈ ids, partition.status? id = some .closed := by
        intro id member
        rw [status?_eq_some_iff]
        exact (expectUnchanged_eq_ok_iff partition ids).mp checked id member
      refine .inr ⟨closed, transitionAll_eq_ok distinct fun id member => ?_⟩
      exact ⟨.closed, closed id member, rfl⟩

theorem move_eq_ok {source target : Status} (distinct : ids.Nodup)
    (members : ∀ id ∈ ids, partition.status? id = some source)
    (allowed : source.canBecome target) :
    ∃ left, move source target ids partition = .ok () left ∧
      ∀ id ∈ ids, left.status? id = some target := by
  have checked : partition.expectStatus source target ids = .ok () := by
    rw [expectStatus_eq_ok_iff]
    exact fun id member => (status?_eq_some_iff _ _ _).mp (members id member)
  rw [move, check_bind, checked]
  exact transitionAll_eq_ok distinct fun id member => ⟨source, members id member, allowed⟩

theorem takeAll_eq_ok (distinct : ids.Nodup)
    (registered : ∀ id ∈ ids, partition.contains id = true) :
    ∃ removed left, takeAll ids partition = .ok removed left := by
  induction ids generalizing partition with
  | nil => exact ⟨[], partition, rfl⟩
  | cons id rest ih =>
      rw [List.nodup_cons] at distinct
      rw [List.forall_mem_cons] at registered
      rcases Option.isSome_iff_exists.mp registered.1 with ⟨file, found⟩
      have taken : take id partition = .ok file (partition.erase id) := by
        rw [take, found]
      have others : ∀ other ∈ rest, (partition.erase id).contains other = true := by
        intro other member
        have ne : other ≠ id := fun same => distinct.1 (same ▸ member)
        rw [contains_erase, registered.2 other member, Bool.true_and, bne_iff_ne]
        exact ne
      rcases ih distinct.2 others with ⟨removed, left, more⟩
      refine ⟨file :: removed, left, (bind_eq_ok_iff _ _ _ _ _).mpr ⟨file, _, taken, ?_⟩⟩
      exact (bind_eq_ok_iff _ _ _ _ _).mpr ⟨removed, left, more, rfl⟩

theorem retire_eq_ok (distinct : ids.Nodup)
    (members : ∀ id ∈ ids, partition.status? id = some .compacting) :
    ∃ removed left, retire ids partition = .ok removed left := by
  have movable : ∀ id ∈ ids, ∃ status, partition.status? id = some status ∧
      status.canBecome .deleted := fun id member => ⟨.compacting, members id member, rfl⟩
  obtain ⟨marked, moved, done⟩ := transitionAll_eq_ok distinct movable
  have registered : ∀ id ∈ ids, marked.contains id = true := by
    intro id member
    rcases (status?_eq_some_iff _ _ _).mp (done id member) with ⟨file, found, _⟩
    rw [contains, found]
    rfl
  rcases takeAll_eq_ok distinct registered with ⟨removed, left, taken⟩
  exact ⟨removed, left, (bind_eq_ok_iff _ _ _ _ _).mpr ⟨(), marked, moved, taken⟩⟩

/-- Finishing a group of compacting members fails only on the outputs and changes
nothing then. -/
theorem finish_cases_of_compacting (distinct : ids.Nodup)
    (members : ∀ id ∈ ids, partition.status? id = some .compacting) (outputs : List DataFile) :
    (∃ removed left, finish ids outputs partition = .ok removed left) ∨
      ∃ error, finish ids outputs partition = .error error partition ∧
        expectNew .sequence (fun id => partition.contains id && !ids.contains id) [] outputs =
          .error error := by
  have checked : partition.expectStatus .compacting .deleted ids = .ok () := by
    rw [expectStatus_eq_ok_iff]
    exact fun id member => (status?_eq_some_iff _ _ _).mp (members id member)
  rw [finish_eq, checked]
  dsimp only
  split
  · rename_i error refused
    exact .inr ⟨error, rfl, refused⟩
  · obtain ⟨removed, left, retired⟩ := retire_eq_ok distinct members
    rw [retired]
    exact .inl ⟨removed, _, rfl⟩

/-- A claimed file cannot be deleted before it is merged. -/
theorem delete_eq_error_of_candidate {id : FileId}
    (registered : partition.status? id = some .candidate) :
    ∃ error, delete id partition = .error error partition := by
  rcases (status?_eq_some_iff _ _ _).mp registered with ⟨file, found, status⟩
  have refused : file.transition .deleted =
      .error (.illegalTransition file.id .candidate .deleted) := by
    rw [DataFile.transition, status]
    rfl
  refine ⟨.illegalTransition file.id .candidate .deleted, ?_⟩
  rw [delete, bind_eq, update, found]
  dsimp only
  rw [refused]

end Members

end SeriesStore.Partition
