import SeriesStore.Proofs.Registry.Fate
import SeriesStore.Proofs.Registry.Claiming

/-!
# Deleted files in a registry

No operation leaves a deleted file in a registry: deleting one and finishing a group take
the files out that they mark, and recovery leaves deleted files out.  But nothing looks at
the status of a file that is handed in.  One that is deleted stays, since no move leaves
that status and only closed and compacting files can be taken out, and it makes every
selection of its partition fail from then on.
-/

namespace SeriesStore

/-- Whether a deleted file is registered afterwards just when it was before. -/
def SameDeleted (before after : Option DataFile) : Prop :=
  ∀ file : DataFile, file.status = .deleted → (after = some file ↔ before = some file)

theorem sameDeleted_of_live {file later : DataFile} (live : file.status ≠ .deleted)
    (laterLive : later.status ≠ .deleted) : SameDeleted (some file) (some later) := by
  intro gone deleted
  constructor
  · intro same
    cases same
    exact absurd deleted laterLive
  · intro same
    cases same
    exact absurd deleted live

theorem live_of_canBecome {status next : Status} (allowed : status.canBecome next) :
    status ≠ .deleted := by
  rintro rfl
  rw [Status.canBecome_deleted] at allowed
  contradiction

theorem fate_sameDeleted : Fate SameDeleted where
  refl _ _ _ := .rfl
  trans first second file deleted := (second file deleted).trans (first file deleted)
  written unclosed device time := by
    apply sameDeleted_of_live
    · rw [unclosed]
      decide
    · rw [DataFile.record, unclosed]
      decide
  moved settled alive outcome := by
    rcases (DataFile.transition_eq_ok_iff _ _ _).mp outcome with ⟨allowed, rfl⟩
    exact sameDeleted_of_live (live_of_canBecome allowed) alive
  withdrawn allowed := by
    intro gone deleted
    constructor
    · intro same
      contradiction
    · intro same
      cases same
      exact absurd deleted (live_of_canBecome allowed)

theorem sameDeleted_of_sealWith {file changed : DataFile} {ends : EndTimes}
    (outcome : file.sealWith ends = .ok changed) : SameDeleted (some file) (some changed) := by
  rw [DataFile.sealWith] at outcome
  split at outcome
  · contradiction
  · split at outcome
    · contradiction
    · rename_i closed move
      cases outcome
      rcases (DataFile.transition_eq_ok_iff _ _ _).mp move with ⟨allowed, rfl⟩
      exact sameDeleted_of_live (live_of_canBecome allowed) (by simp)

namespace Partition

/-- A file that comes in under a free number is found there. -/
theorem find?_insert_self {partition : Partition} {file : DataFile}
    (free : partition.contains file.id = false) :
    (partition.insert file).find? file.id = some file := by
  have registered : (partition.insert file).contains file.id = true := by
    rw [contains_insert, beq_self_eq_true, Bool.or_true]
  rcases Option.isSome_iff_exists.mp registered with ⟨other, found⟩
  rcases mem_of_find?_eq_some found with ⟨member, same⟩
  rcases (mem_files_insert _ _ _).mp member with rfl | before
  · exact found
  · have taken := (contains_iff partition file.id).mpr ⟨other, before, same⟩
    rw [free] at taken
    contradiction

theorem find?_insertAll_of_mem {partition : Partition} {files : List DataFile}
    (fresh : partition.Fresh files) {file : DataFile} (member : file ∈ files) :
    (partition.insertAll files).find? file.id = some file := by
  induction files generalizing partition with
  | nil => contradiction
  | cons first rest ih =>
      have differ := fresh.distinct
      rw [List.map_cons, List.nodup_cons] at differ
      rcases (fresh_cons_iff _ _ _).mp fresh with ⟨_, free, tail⟩
      change ((partition.insert first).insertAll rest).find? file.id = some file
      rcases List.mem_cons.mp member with rfl | member
      · rw [find?_insertAll_of_not_mem differ.1, find?_insert_self free]
      · exact ih tail member

end Partition

namespace Registry

open Selection

variable {registry : Registry} {request : Request} {key : PartitionKey} {file : DataFile}

/-! ## Files that come in -/

/-- A file that a request brings in is found afterwards. -/
theorem find?_of_entering (member : file ∈ registry.entering request key) :
    ((registry.serve request).snapshot key).find? file.id = some file := by
  have served := registry.served request
  generalize registry.serve request = after at served ⊢
  generalize registry.entering request = entered at served member
  cases served with
  | revised _ => contradiction
  | entered place revisions fresh =>
      rw [under] at member
      split at member
      · rename_i same
        subst same
        rw [Snapshot.find?, partition_snapshot (partition?_put_self _ _ _)]
        exact Partition.find?_insertAll_of_mem fresh member
      · contradiction

theorem fresh_of_addAll {space : Space} {files : List DataFile} {value : Unit}
    {after : Registry} (outcome : registry.addAll key space files = .ok value after) :
    (registry.snapshot key).partition.Fresh files := by
  rw [addAll] at outcome
  rw [snapshot]
  split at outcome
  · rename_i partition present
    rw [run, Partition.addAll_eq] at outcome
    rw [present, Option.getD_some]
    cases checked : Partition.expectNew space partition.contains [] files with
    | error error =>
        rw [checked] at outcome
        contradiction
    | ok _ => exact Partition.fresh_of_expectNew checked
  · rename_i absent
    rw [Partition.addAll_eq] at outcome
    rw [absent, Option.getD_none]
    cases checked : Partition.expectNew space Partition.empty.contains [] files with
    | error error =>
        rw [checked] at outcome
        contradiction
    | ok _ => exact Partition.fresh_of_expectNew checked

/-- Files that are added come in under free numbers. -/
theorem free_of_addAll {adding : PartitionKey} {space : Space} {files : List DataFile}
    (member : file ∈ registry.entering (.addAll adding space files) key) :
    (registry.snapshot key).find? file.id = none := by
  rw [entering, under] at member
  split at member
  · rename_i same
    subst same
    cases outcome : registry.addAll key space files with
    | error error after =>
        rw [outcome] at member
        contradiction
    | ok value after =>
        rw [outcome] at member
        have free := (fresh_of_addAll outcome).free file member
        rw [Partition.contains] at free
        exact Option.not_isSome_iff_eq_none.mp (by simp [Snapshot.find?, free])
  · contradiction

/-- An output comes in under a free number or takes over that of a member that was merged. -/
theorem taken_over_of_finish {finishing : PartitionKey} {ids : List FileId}
    {outputs : List DataFile}
    (member : file ∈ registry.entering (.finish finishing ids outputs) key) {own : DataFile}
    (found : (registry.snapshot key).find? file.id = some own) :
    finishing = key ∧ file.id ∈ ids ∧ own.status = .compacting := by
  rw [entering, under] at member
  split at member
  · rename_i same
    subst same
    cases outcome : registry.finish key ids outputs with
    | error error after =>
        rw [outcome] at member
        contradiction
    | ok removed after =>
        rw [outcome] at member
        rcases Partition.retired_of_finish (of_within_eq_ok outcome).2.1 with ⟨merged, taken, _⟩
        have registered : (registry.snapshot key).partition.contains file.id = true :=
          Option.isSome_iff_exists.mpr ⟨own, found⟩
        have isMember := taken file member registered
        rcases merged file.id isMember with ⟨other, otherFound, status⟩
        have same : other = own := Option.some.inj (otherFound.symm.trans found)
        rw [← same]
        exact ⟨rfl, isMember, status⟩
  · contradiction

theorem compacting_of_entering (member : file ∈ registry.entering request key) {own : DataFile}
    (found : (registry.snapshot key).find? file.id = some own) : own.status = .compacting := by
  cases request with
  | addAll adding space files =>
      rw [free_of_addAll member] at found
      contradiction
  | finish finishing ids outputs => exact (taken_over_of_finish member found).2.2
  | finishAndPersist layout disk finishing ids outputs =>
      exact (taken_over_of_finish member found).2.2
  | _ => contradiction

/-! ## Deleted files -/

/-- A request registers the deleted files that it brings in, and takes none out. -/
theorem serve_deleted_iff (group : request.group.Nodup) (deleted : file.status = .deleted) :
    ((registry.serve request).snapshot key).find? file.id = some file ↔
      (registry.snapshot key).find? file.id = some file ∨
        file ∈ registry.entering request key := by
  by_cases absent : file.id ∈ (registry.entering request key).map DataFile.id
  · rcases List.mem_map.mp absent with ⟨other, member, same⟩
    have found := find?_of_entering member
    rw [same] at found
    rw [found]
    constructor
    · intro same
      cases same
      exact .inr member
    · rintro (registered | entered)
      · rw [← same] at registered
        have merged := compacting_of_entering member registered
        rw [deleted] at merged
        contradiction
      · rw [← found]
        exact find?_of_entering entered
  · have outside : file ∉ registry.entering request key :=
      fun member => absent (List.mem_map_of_mem member)
    rw [or_iff_left outside]
    exact fate_sameDeleted.serve registry group
      (fun _ _ _ _ outcome => sameDeleted_of_sealWith outcome) absent file deleted

theorem serveAll_deleted_iff {requests : List Request}
    (groups : ∀ request ∈ requests, request.group.Nodup) (deleted : file.status = .deleted) :
    ((registry.serveAll requests).snapshot key).find? file.id = some file ↔
      (registry.snapshot key).find? file.id = some file ∨
        file ∈ registry.arrivals requests key := by
  induction requests generalizing registry with
  | nil => simp [serveAll, arrivals]
  | cons request rest ih =>
      rw [List.forall_mem_cons] at groups
      change (((registry.serve request).serveAll rest).snapshot key).find? file.id = some file ↔ _
      rw [ih groups.2, serve_deleted_iff groups.1 deleted, arrivals, List.mem_append, or_assoc]

/-- Recovery leaves deleted files out. -/
theorem live_of_restoredAt? {tree : Disk.Tree} {path : String}
    (restoring : Disk.restoredAt? tree path = some file) : file.status ≠ .deleted := by
  rw [Disk.restoredAt?] at restoring
  split at restoring
  · contradiction
  · rcases Disk.revived?_eq_some restoring with ⟨alive, rfl | ⟨_, rfl⟩⟩
    · exact alive
    · simp

theorem live_of_opening {start : Registry} {restored : PartitionKey → List DataFile}
    (opening : Opening start restored) (found : (start.snapshot key).find? file.id = some file) :
    file.status ≠ .deleted := by
  cases opening with
  | empty => contradiction
  | recovered outcome =>
      rcases gains_recoveredUnder outcome key with ⟨_, filled⟩
      rw [Snapshot.find?, filled] at found
      rcases (Partition.mem_files_insertAll _ _ _).mp (Partition.mem_of_find?_eq_some found).1 with
        member | member
      · rcases exists_restoredAt?_of_opening (.recovered outcome) member with
          ⟨tree, path, restoring⟩
        exact live_of_restoredAt? restoring
      · contradiction

/-- The deleted files of a registry are those that requests have handed in.  Without one
every selection from a fresh view succeeds, and with one every selection fails. -/
theorem deleted_files_are_handed_in {start : Registry} {restored : PartitionKey → List DataFile}
    (opening : Opening start restored) {requests : List Request}
    (groups : ∀ request ∈ requests, request.group.Nodup) (key : PartitionKey) :
    (∀ file : DataFile, file.status = .deleted →
      (file ∈ ((start.serveAll requests).snapshot key).partition.files ↔
        file ∈ start.arrivals requests key)) ∧
    ((∀ file ∈ start.arrivals requests key, file.status ≠ .deleted) → ∀ config,
      ∃ candidates, select config ((start.serveAll requests).snapshot key) = .ok candidates) ∧
    ((∃ file ∈ start.arrivals requests key, file.status = .deleted) →
      ∃ file ∈ start.arrivals requests key, file.status = .deleted ∧ ∀ config,
        select config ((start.serveAll requests).snapshot key) =
          .error (.stale file.id .deleted)) := by
  have consistent := invariant_consistent.requests (invariant_consistent.opening opening)
    requests key
  have deleted_iff : ∀ file : DataFile, file.status = .deleted →
      (file ∈ ((start.serveAll requests).snapshot key).partition.files ↔
        file ∈ start.arrivals requests key) := by
    intro file deleted
    have found_iff := Partition.Distinct.find?_eq_some_iff consistent.distinct file.id file
    rw [and_iff_left rfl] at found_iff
    rw [← found_iff]
    change ((start.serveAll requests).snapshot key).find? file.id = some file ↔ _
    rw [serveAll_deleted_iff groups deleted]
    exact or_iff_right fun found => live_of_opening opening found deleted
  refine ⟨deleted_iff, fun live config => ?_, fun ⟨gone, member, deleted⟩ => ?_⟩
  · have allLive : ∀ file ∈ ((start.serveAll requests).snapshot key).partition.files,
        file.status ≠ .deleted :=
      fun file member deleted => live file ((deleted_iff file deleted).mp member) deleted
    exact exists_selectFrom (resolveInput_of_consistent consistent allLive) config
  · rcases select_of_deleted consistent ((deleted_iff gone deleted).mpr member) deleted with
      ⟨file, registered, fileDeleted, fails⟩
    exact ⟨file, (deleted_iff file fileDeleted).mp registered, fileDeleted, fails⟩

end Registry

/-! ## A deleted file that is handed in -/

namespace Sample

/-- A deleted sequence file comes in before the unsequence files do. -/
def haunted : List Registry.Request :=
  [.addAll key .sequence [file .sequence .deleted 4 [("a", ⟨80, 90⟩)]],
    .addAll key .unsequence unsequence, .delete key 4]

end Sample

namespace Registry

open Selection

theorem deleted_files_are_handed_in_sample :
    (∀ file ∈ ((empty.serveAll Sample.history).snapshot Sample.key).partition.files,
      file.status ≠ .deleted) ∧
    ∀ config, ∃ candidates,
      select config ((empty.serveAll Sample.history).snapshot Sample.key) = .ok candidates := by
  have groups : ∀ request ∈ Sample.history, request.group.Nodup := by
    simp only [Sample.history, List.forall_mem_cons]
    decide +kernel
  have live : ∀ file ∈ empty.arrivals Sample.history Sample.key, file.status ≠ .deleted := by
    decide +kernel
  rcases deleted_files_are_handed_in .empty groups Sample.key with ⟨deleted_iff, selected, _⟩
  refine ⟨fun file member deleted => ?_, selected live⟩
  exact live file ((deleted_iff file deleted).mp member) deleted

/-- A deleted file is registered when it is handed in, it cannot be deleted, and every
selection fails on it. -/
theorem deleted_file_stays :
    (empty.serveAll Sample.haunted).Reachable ∧
    (∃ file ∈ ((empty.serveAll Sample.haunted).snapshot Sample.key).partition.files,
      file.status = .deleted) ∧
    ∀ config, select config ((empty.serveAll Sample.haunted).snapshot Sample.key) =
      .error (.stale 4 .deleted) := by
  have refused : resolveInput ((empty.serveAll Sample.haunted).snapshot Sample.key)
      ((empty.serveAll Sample.haunted).snapshot Sample.key).sequence
      ((empty.serveAll Sample.haunted).snapshot Sample.key).unsequence =
        .error (.stale 4 .deleted) := by
    cbv
  refine ⟨Reachable.empty.serveAll _,
    ⟨Sample.file .sequence .deleted 4 [("a", ⟨80, 90⟩)], ?_, rfl⟩, fun config => ?_⟩
  · decide +kernel
  · rw [select, selectFrom, refused]

end Registry

end SeriesStore
