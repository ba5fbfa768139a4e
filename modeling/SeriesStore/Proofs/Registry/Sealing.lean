import SeriesStore.Proofs.File.Writes
import SeriesStore.Proofs.Registry.Atomic

/-!
# Writing a registered file and sealing it

Any number of writes into an unclosed file succeed, and what they leave behind does not
depend on their order.  The seal that follows succeeds exactly when the supplied ends
suffice for all that is known of the growing spans, and a seal that fails leaves the file as
it was, so that it can be tried again with other ends.
-/

namespace SeriesStore

namespace Registry

/-- Records writes into a file one after the other, up to the first that fails. -/
def recordAll (key : PartitionKey) (id : FileId) : List (String × Timestamp) → Step Unit
  | [] => pure ()
  | (device, time) :: rest => do
      let _ ← recordWrite key id device time
      recordAll key id rest

/-- Puts a file in the place of the registered one with its number. -/
def replaceFile (registry : Registry) (key : PartitionKey) (file : DataFile) : Registry :=
  registry.put key ((registry.snapshot key).partition.replace file)

section Registered

variable {registry : Registry} {key : PartitionKey} {id : FileId} {file : DataFile}
  (registered : registry.file key id = .ok file)

include registered

theorem file_replaceFile {changed : DataFile} (same : changed.id = file.id) :
    (registry.replaceFile key changed).file key id = .ok changed := by
  rw [file_eq_ok_iff] at registered ⊢
  rw [replaceFile, partition_snapshot (partition?_put_self _ _ _), Partition.find?_replace,
    registered, Option.map_some, if_pos same.symm]

/-- A change of a registered file puts the changed file in its place, or it fails and changes
nothing. -/
theorem within_update (change : DataFile → Except Error DataFile) :
    within key (Partition.update id change) registry =
      match change file with
      | .error error => .error error registry
      | .ok changed => .ok changed (registry.replaceFile key changed) := by
  have found := (file_eq_ok_iff _ _ _ _).mp registered
  cases present : registry.partition? key with
  | none =>
      rw [snapshot, present] at found
      contradiction
  | some partition =>
      have found_in : partition.find? id = some file := by rwa [partition_snapshot present] at found
      cases outcome : change file with
      | error error =>
          apply within_eq_error present
          simp only [Partition.update, found_in, outcome]
      | ok changed =>
          dsimp only
          rw [replaceFile, partition_snapshot present]
          apply within_eq_ok present
          simp only [Partition.update, found_in, outcome]

theorem recordWrite_eq (unclosed : file.status = .unclosed) (device : String)
    (time : Timestamp) :
    registry.recordWrite key id device time =
      .ok (file.record device time) (registry.replaceFile key (file.record device time)) := by
  have written : Partition.writtenTo device time file = .ok (file.record device time) :=
    if_pos unclosed
  rw [recordWrite, Partition.recordWrite, within_update registered, written]

theorem sealFile_eq (ends : EndTimes) :
    registry.sealFile key id ends =
      match file.sealWith ends with
      | .error error => .error error registry
      | .ok changed => .ok changed (registry.replaceFile key changed) :=
  within_update registered (DataFile.sealWith ends)

/-- Putting a file in its own place changes nothing. -/
theorem replaceFile_self (reachable : registry.Reachable) :
    registry.replaceFile key file = registry := by
  have found := (file_eq_ok_iff _ _ _ _).mp registered
  rcases reachable.consistent key with ⟨log, consistent⟩
  cases present : registry.partition? key with
  | none =>
      rw [snapshot, present] at found
      contradiction
  | some partition =>
      rw [partition_snapshot present] at found consistent
      rw [replaceFile, partition_snapshot present, Partition.replace_self consistent.distinct found,
        put_of_partition?_eq_some present]

end Registered

theorem replaceFile_replaceFile (registry : Registry) (key : PartitionKey) {first second : DataFile}
    (same : first.id = second.id) :
    (registry.replaceFile key first).replaceFile key second = registry.replaceFile key second := by
  rw [replaceFile, replaceFile, partition_snapshot (partition?_put_self _ _ _),
    Partition.replace_replace _ same]
  exact congrArg Registry.mk (SortedMap.insert_insert _ _ _ _)

/-- Writes into an unclosed file succeed and put the written file in its place. -/
theorem recordAll_eq {registry : Registry} (reachable : registry.Reachable) {key : PartitionKey}
    {id : FileId} {file : DataFile} (registered : registry.file key id = .ok file)
    (unclosed : file.status = .unclosed) (writes : List (String × Timestamp)) :
    registry.recordAll key id writes =
      .ok () (registry.replaceFile key (file.recordAll writes)) := by
  induction writes generalizing registry file with
  | nil =>
      change EStateM.Result.ok () registry = .ok () (registry.replaceFile key file)
      rw [replaceFile_self registered reachable]
  | cons write rest ih =>
      rcases write with ⟨device, time⟩
      have written := recordWrite_eq registered unclosed device time
      have left : (registry.replaceFile key (file.record device time)).Reachable := by
        have served := reachable.served (.recordWrite key id device time)
        rwa [serve, written] at served
      have leftRegistered : (registry.replaceFile key (file.record device time)).file key id =
          .ok (file.record device time) :=
        file_replaceFile registered rfl
      have others := ih left leftRegistered unclosed
      change EStateM.bind (recordWrite key id device time) _ registry = _
      rw [EStateM.bind, written]
      dsimp only
      rw [others, replaceFile_replaceFile]
      · rfl
      · rw [DataFile.recordAll_eq]

/-- Sealing loses no write.  Whatever is written into an unclosed file, all calls succeed and
lead to the same registry in any order.  A seal then succeeds exactly when every growing span
has an end that nothing exceeds which is known of its device and that does not come before the
span starts, and the sealed file holds each write.  Ends of unknown devices do not matter, and a
seal that fails changes nothing. -/
theorem sealing_keeps_writes {registry : Registry} (reachable : registry.Reachable)
    {key : PartitionKey} {id : FileId} {file : DataFile}
    (registered : registry.file key id = .ok file) (unclosed : file.status = .unclosed)
    (writes : List (String × Timestamp)) :
    ∃ written, registry.recordAll key id writes = .ok () written ∧
      (∀ others, (∀ write, write ∈ others ↔ write ∈ writes) →
        registry.recordAll key id others = .ok () written) ∧
      ∀ ends,
        ((∃ sealed after, written.sealFile key id ends = .ok sealed after) ↔
          file.Sealable writes ends) ∧
        (∀ sealed after, written.sealFile key id ends = .ok sealed after →
          after.file key id = .ok sealed ∧ file.SealedAfter writes ends sealed) ∧
        (∀ error after, written.sealFile key id ends = .error error after →
          after = written ∧ after.file key id = .ok (file.recordAll writes) ∧
            (file.recordAll writes).status = .unclosed) ∧
        ∀ others : EndTimes,
          (∀ device, (file.span? device).isSome ∨ (∃ time, (device, time) ∈ writes) →
            ends.get? device = others.get? device) →
          written.sealFile key id ends = written.sealFile key id others := by
  have recorded := recordAll_eq reachable registered unclosed
  have same_id : (file.recordAll writes).id = file.id := by rw [DataFile.recordAll_eq]
  have left := file_replaceFile registered same_id
  have valid : file.Valid := reachable.valid_of_find? ((file_eq_ok_iff _ _ _ _).mp registered)
  refine ⟨_, recorded writes, fun others same => ?_, fun ends => ⟨?_, ?_, ?_, ?_⟩⟩
  · rw [recorded others, file.recordAll_congr same]
  · rw [← DataFile.exists_seal_iff valid unclosed, sealFile_eq left]
    cases (file.recordAll writes).sealWith ends <;> simp
  · intro sealed after outcome
    rw [sealFile_eq left] at outcome
    split at outcome
    · contradiction
    · rename_i changed sealing
      cases outcome
      have sealed_id := (DataFile.Change.sealed ends sealing).place_eq.1
      exact ⟨file_replaceFile left sealed_id,
        DataFile.sealedAfter_of_sealWith valid unclosed sealing⟩
  · intro error after outcome
    rw [sealFile_eq left] at outcome
    split at outcome
    · cases outcome
      exact ⟨rfl, left, (DataFile.status_recordAll file writes).trans unclosed⟩
    · contradiction
  · intro others same
    have sealWith_eq : (file.recordAll writes).sealWith ends =
        (file.recordAll writes).sealWith others := by
      apply DataFile.sealWith_congr
      intro device span held
      apply same
      by_contra unknown
      rw [not_or, Option.not_isSome_iff_eq_none, not_exists] at unknown
      rw [(DataFile.span?_recordAll_eq_none_iff file writes device).mpr unknown] at held
      contradiction
    rw [sealFile_eq left, sealFile_eq left, sealWith_eq]

end Registry

/-! ## A file that is written and sealed

File 15 has a closed span of one device.  It takes writes of this device and of a new one,
for which alone an end is needed.

A file of the same number that comes in with a growing span from 100 and a last write at 0
cannot be sealed at 50, although nothing has been written after that. -/

namespace Sample

def unsealed : DataFile :=
  file .unsequence .unclosed 15 [("a", ⟨60, 70⟩)]

def points : List (String × Timestamp) :=
  [("b", 7), ("a", 80), ("b", 3)]

def pointEnds : EndTimes :=
  .ofList _ [("b", 9), ("c", 1)]

theorem sealable : unsealed.Sealable points pointEnds := by
  rintro device (⟨start, lastWrite, held⟩ | ⟨absent, time, member⟩)
  · have entry := (SortedMap.get?_eq_some_iff _ _ _).mp held
    have closed : ∀ entry ∈ unsealed.devices.entries, entry.2.isGrowing = false := by
      decide +kernel
    have growing := closed _ entry
    contradiction
  · have isB : device = "b" := by
      simp only [points, List.mem_cons, Prod.mk.injEq, List.not_mem_nil, or_false] at member
      rcases member with ⟨rfl, _⟩ | ⟨rfl, _⟩ | ⟨rfl, _⟩
      · rfl
      · have present : unsealed.span? "a" ≠ none := by decide +kernel
        contradiction
      · rfl
    subst isB
    refine ⟨9, by decide +kernel, ?_, 7, .inl (by decide), by decide⟩
    rintro time (member | ⟨span, held, _⟩)
    · simp only [points, List.mem_cons, Prod.mk.injEq, List.not_mem_nil, or_false] at member
      rcases member with ⟨_, rfl⟩ | ⟨_, rfl⟩ | ⟨_, rfl⟩
      · decide
      · contradiction
      · decide
    · rw [absent] at held
      contradiction

/-- An end for the growing span that ends before it starts. -/
def earlyEnds : EndTimes :=
  .ofList _ [("a", 50)]

theorem eq_of_span?_inverted {device : String} {span : DeviceSpan}
    (held : inverted.span? device = some span) : device = "a" ∧ span = .growing 100 0 := by
  rw [DataFile.span?, SortedMap.get?_eq_some_iff] at held
  change (device, span) ∈ [("a", DeviceSpan.growing 100 0)] at held
  simpa using held

/-- No timestamp that is known of the device exceeds its end. -/
theorem earlyEnds_suffice (device : String) (grows : inverted.Grows [] device) :
    ∃ stop, earlyEnds.get? device = some stop ∧
      ∀ time ∈ inverted.known DeviceSpan.lastWrite [] device, time ≤ stop := by
  rcases grows with ⟨_, _, held⟩ | ⟨_, _, member⟩
  · rcases eq_of_span?_inverted held with ⟨rfl, _⟩
    refine ⟨50, by decide +kernel, ?_⟩
    rintro time (member | ⟨span, own, rfl⟩)
    · contradiction
    · rcases eq_of_span?_inverted own with ⟨_, rfl⟩
      decide
  · contradiction

end Sample

namespace Registry

theorem sealing_keeps_writes_sample :
    ∃ written sealed after,
      Sample.registry.recordAll Sample.key 15 Sample.points = .ok () written ∧
        written.sealFile Sample.key 15 Sample.pointEnds = .ok sealed after ∧
        after.file Sample.key 15 = .ok sealed ∧
        Sample.unsealed.SealedAfter Sample.points Sample.pointEnds sealed := by
  have found : (Sample.registry.snapshot Sample.key).partition.find? 15 = some Sample.unsealed := by
    decide +kernel
  have registered := (file_eq_ok_iff _ _ _ _).mpr found
  rcases sealing_keeps_writes Sample.registry_reachable registered rfl Sample.points with
    ⟨written, recorded, _, seals⟩
  rcases seals Sample.pointEnds with ⟨sealed_iff, done, _⟩
  rcases sealed_iff.mpr Sample.sealable with ⟨sealed, after, outcome⟩
  exact ⟨written, sealed, after, recorded, outcome, done sealed after outcome⟩

/-- An end that no timestamp exceeds does not suffice when it comes before the start of its
span. -/
theorem seal_before_start_is_refused :
    (empty.serveAll Sample.invertedHistory).Reachable ∧
      (empty.serveAll Sample.invertedHistory).file Sample.key 15 = .ok Sample.inverted ∧
      Sample.inverted.status = .unclosed ∧
      (∀ device, Sample.inverted.Grows [] device → ∃ stop,
        Sample.earlyEnds.get? device = some stop ∧
          ∀ time ∈ Sample.inverted.known DeviceSpan.lastWrite [] device, time ≤ stop) ∧
      (empty.serveAll Sample.invertedHistory).sealFile Sample.key 15 Sample.earlyEnds =
        .error (.malformed 15 (.invertedSpan "a" ⟨100, 50⟩))
          (empty.serveAll Sample.invertedHistory) := by
  have found : ((empty.serveAll Sample.invertedHistory).snapshot Sample.key).partition.find? 15 =
      some Sample.inverted := by
    decide +kernel
  have registered := (file_eq_ok_iff _ _ _ _).mpr found
  have refused : Sample.inverted.sealWith Sample.earlyEnds =
      .error (.malformed 15 (.invertedSpan "a" ⟨100, 50⟩)) := by
    decide +kernel
  refine ⟨Reachable.empty.serveAll _, registered, rfl, Sample.earlyEnds_suffice, ?_⟩
  rw [sealFile_eq registered, refused]

end Registry

end SeriesStore
