import SeriesStore.Proofs.Partition.Leaving
import SeriesStore.Proofs.Registry.Settled

/-!
# Deletion beside a merge

Deletion goes by the lifecycle alone, in which files that are being merged become deleted
as well as closed ones: the first when their group is finished, the second when they are
deleted on their own.  So a deletion also takes out a single member of a group that is being
merged, and then nothing can be done with the group any more: giving it up and finishing it
both look for the member that is gone.

A group of which no member is deleted, sealed or moved with another group can be given up at
any time, whatever else is requested meanwhile.
-/

namespace SeriesStore

namespace Partition

/-- A group of which one member is gone is refused because of that member. -/
theorem expectStatus_eq_error_of_gone {partition : Partition} {source target : Status}
    {ids : List FileId} {gone : FileId} (member : gone ∈ ids)
    (absent : partition.find? gone = none)
    (others : ∀ id ∈ ids, id ≠ gone → partition.status? id = some source) :
    partition.expectStatus source target ids = .error (.fileNotFound gone) := by
  induction ids with
  | nil => contradiction
  | cons id rest ih =>
      rw [List.forall_mem_cons] at others
      by_cases same : id = gone
      · rw [expectStatus, same, absent]
      · rcases (status?_eq_some_iff _ _ _).mp (others.1 same) with ⟨file, found, status⟩
        rw [expectStatus, found]
        dsimp only
        rw [if_neg (not_not_intro status)]
        exact ih (List.mem_of_ne_of_mem (Ne.symm same) member) others.2

end Partition

namespace Registry

open Selection

variable {registry : Registry} {key : PartitionKey} {id : FileId} {file : DataFile}

theorem exists_partition_of_file (registered : registry.file key id = .ok file) :
    ∃ partition, registry.partition? key = some partition ∧ partition.find? id = some file := by
  rw [Registry.file] at registered
  split at registered
  · contradiction
  · rename_i partition present
    split at registered
    · contradiction
    · rename_i own found
      cases registered
      exact ⟨partition, present, found⟩

/-- Deleting a file that is not registered fails as looking it up does. -/
theorem delete_eq_error {error : Error} (absent : registry.file key id = .error error) :
    registry.delete key id = .error error registry := by
  rw [Registry.file] at absent
  split at absent
  · rename_i unknown
    cases absent
    rw [delete, within, unknown]
  · rename_i partition present
    split at absent
    · rename_i notFound
      cases absent
      exact within_eq_error present (Partition.delete_eq_error_of_absent notFound)
    · contradiction

/-- Deleting a registered file goes by its status. -/
theorem delete_eq (registered : registry.file key id = .ok file) :
    registry.delete key id =
      if file.status = .closed ∨ file.status = .compacting then
        .ok { file with status := .deleted }
          (registry.put key ((registry.snapshot key).partition.erase id))
      else
        .error (.illegalTransition id file.status .deleted) registry := by
  rcases exists_partition_of_file registered with ⟨partition, present, found⟩
  have outcome := Partition.delete_eq found
  split
  · rename_i allowed
    rw [if_pos allowed] at outcome
    rw [partition_snapshot present]
    exact within_eq_ok present outcome
  · rename_i refused
    rw [if_neg refused] at outcome
    exact within_eq_error present outcome

/-! ## Groups that are being merged -/

/-- Starting to merge a group changes the status of its members and nothing else. -/
theorem started_file {ids : List FileId} {started : Registry} (reachable : registry.Reachable)
    (starting : registry.start key ids = .ok () started) (member : id ∈ ids) :
    ∃ own, registry.file key id = .ok own ∧
      started.file key id = .ok { own with status := .compacting } := by
  rcases reachable.consistent key with ⟨log, consistent⟩
  have distinct := consistent.distinct
  rcases (within_eq_ok_iff _ _ _ _ _).mp starting with ⟨partition, left, present, moved, rfl⟩
  rw [Partition.start, Partition.move, Partition.check_bind] at moved
  split at moved
  · contradiction
  · rename_i checked
    rw [partition_snapshot present] at distinct
    rw [Partition.eq_withStatus_of_transitionAll distinct moved]
    rcases (Partition.expectStatus_eq_ok_iff _ _ _ _).mp checked id member with ⟨own, found, _⟩
    have own_id := (Partition.mem_of_find?_eq_some found).2
    refine ⟨own, ?_, ?_⟩
    · rw [file_eq_ok_iff, partition_snapshot present, found]
    · rw [file_eq_ok_iff, partition_snapshot (partition?_put_self _ _ _),
        Partition.find?_withStatus, found, Option.map_some,
        DataFile.withStatus_of_mem _ (own_id.symm ▸ member)]

/-- A group all of whose members are being merged can be given up, which closes them and
changes nothing else. -/
theorem abort_eq_ok {candidate : Candidate} (selected : candidate.Selected)
    (reachable : registry.Reachable)
    (members : ∀ id ∈ candidate.ids, registry.status? key id = some .compacting) :
    registry.abort key candidate.ids =
      .ok () (registry.withStatus key .closed candidate.ids) := by
  rcases reachable.consistent key with ⟨log, consistent⟩
  exact move_eq_withStatus consistent.distinct selected.ids_ne_nil selected.ids_nodup members rfl

/-- A group that is refused because of its members can neither be given up nor finished. -/
theorem refused_of_members {partition : Partition} {ids : List FileId}
    (present : registry.partition? key = some partition) {cause : Status → Error}
    (refused : ∀ target, partition.expectStatus .compacting target ids = .error (cause target)) :
    registry.abort key ids = .error (cause .closed) registry ∧
      ∀ outputs, registry.finish key ids outputs = .error (cause .deleted) registry := by
  constructor
  · apply within_eq_error present
    rw [Partition.abort, Partition.move, Partition.check_bind, refused]
  · intro outputs
    apply within_eq_error present
    rw [Partition.finish_eq, refused]

/-- Nothing can be done with a group of which a member has been deleted while it was being
merged. -/
theorem stranded_of_deletion {ids : List FileId} {gone : DataFile} {after : Registry}
    (members : ∀ id ∈ ids, registry.status? key id = some .compacting) (member : id ∈ ids)
    (deleting : registry.delete key id = .ok gone after) :
    after.abort key ids = .error (.fileNotFound id) after ∧
      ∀ outputs, after.finish key ids outputs = .error (.fileNotFound id) after := by
  rcases (within_eq_ok_iff _ _ _ _ _).mp deleting with ⟨partition, left, present, outcome, rfl⟩
  have deleted := Partition.deleted_of_delete outcome
  have others : ∀ other ∈ ids, other ≠ id → left.status? other = some .compacting := by
    intro other isMember ne
    have held := members other isMember
    rw [status?, partition_snapshot present] at held
    rw [Partition.status?, deleted.others other ne]
    exact held
  exact refused_of_members (partition?_put_self _ _ _) fun target =>
    Partition.expectStatus_eq_error_of_gone member deleted.absent others

/-- Deleting succeeds just for closed files and for files that are being merged, takes out
that file alone and returns it as deleted; it fails for all others and changes nothing then.
A group that is being merged can be given up after any requests that delete, seal or move no
member, which leaves its members as they were claimed but closed.  After the deletion of a
member it can neither be given up nor finished. -/
theorem deletion_takes_closed_and_merged_files {registry : Registry}
    (reachable : registry.Reachable) (key : PartitionKey) :
    (∀ id,
      (∀ error, registry.file key id = .error error →
        registry.delete key id = .error error registry) ∧
      ∀ file, registry.file key id = .ok file →
        (file.status = .closed ∨ file.status = .compacting →
          registry.delete key id =
            .ok { file with status := .deleted }
              (registry.put key ((registry.snapshot key).partition.erase id))) ∧
        (file.status ≠ .closed → file.status ≠ .compacting →
          registry.delete key id =
            .error (.illegalTransition id file.status .deleted) registry)) ∧
    ∀ candidate : Candidate, candidate.Selected →
      (∀ started, registry.start key candidate.ids = .ok () started →
        ∀ requests : List Request, (∀ request ∈ requests, request.group.Nodup) →
          (∀ request ∈ requests, ∀ id ∈ candidate.ids,
            ¬ request.Concludes key id .compacting) →
          ∃ after, (started.serveAll requests).abort key candidate.ids = .ok () after ∧
            ∀ id ∈ candidate.ids, ∃ file, registry.file key id = .ok file ∧
              after.file key id = .ok { file with status := .closed }) ∧
      ((∀ id ∈ candidate.ids, registry.status? key id = some .compacting) →
        ∀ id ∈ candidate.ids, ∃ gone after, registry.delete key id = .ok gone after ∧
          after.abort key candidate.ids = .error (.fileNotFound id) after ∧
          ∀ outputs, after.finish key candidate.ids outputs = .error (.fileNotFound id) after) := by
  constructor
  · intro id
    refine ⟨fun error absent => delete_eq_error absent, fun file registered => ⟨?_, ?_⟩⟩
    · intro allowed
      rw [delete_eq registered, if_pos allowed]
    · intro notClosed notMerged
      rw [delete_eq registered, if_neg (not_or_intro notClosed notMerged)]
  · intro candidate selected
    constructor
    · intro started starting requests groups kept
      have startedReachable : started.Reachable := by
        have served := reachable.served (.start key candidate.ids)
        rwa [serve, starting] at served
      have held : ∀ id ∈ candidate.ids, ∃ own, registry.file key id = .ok own ∧
          (started.serveAll requests).file key id = .ok { own with status := .compacting } := by
        intro id member
        rcases started_file reachable starting member with ⟨own, registered, merged⟩
        exact ⟨own, registered, file_serveAll startedReachable merged rfl groups
          fun request isRequest => kept request isRequest id member⟩
      have members : ∀ id ∈ candidate.ids,
          (started.serveAll requests).status? key id = some .compacting := by
        intro id member
        rcases held id member with ⟨own, _, merged⟩
        exact (Partition.status?_eq_some_iff _ _ _).mpr
          ⟨_, (file_eq_ok_iff _ _ _ _).mp merged, rfl⟩
      refine ⟨_, abort_eq_ok selected (startedReachable.serveAll requests) members, ?_⟩
      intro id member
      rcases held id member with ⟨own, registered, merged⟩
      rw [file_eq_ok_iff] at merged
      have own_id := (Partition.mem_of_find?_eq_some merged).2
      refine ⟨own, registered, ?_⟩
      rw [file_eq_ok_iff, snapshot_withStatus, Partition.find?_withStatus, merged,
        Option.map_some, DataFile.withStatus_of_mem _ (own_id.symm ▸ member)]
    · intro members id member
      rcases (Partition.status?_eq_some_iff _ _ _).mp (members id member) with
        ⟨file, found, merged⟩
      have registered := (file_eq_ok_iff _ _ _ _).mpr found
      have deleting := delete_eq registered
      rw [if_pos (.inr merged)] at deleting
      exact ⟨_, _, deleting, stranded_of_deletion members member deleting⟩

end Registry

/-! ## A member that is deleted

The second of three candidates is being merged, and then its file 2 is deleted. -/

namespace Sample

theorem second_selected : second.Selected :=
  ⟨_, _, _, _, _, selectFrom_registry, by simp [candidates]⟩

def started : Registry :=
  contended.serve (.start key second.ids)

/-- Requests that leave the second candidate alone. -/
def passersby : List Registry.Request :=
  [.delete key 1, .claim key second.ids, .release key second.ids, .abort key first.ids,
    .finish key third.ids [], .runRound config]

theorem started_reachable : started.Reachable :=
  contended_reachable.served _

theorem starting :
    contended.start key second.ids = .ok () started ∧
      ∀ id ∈ second.ids, started.status? key id = some .compacting := by
  have claimed : ∀ id ∈ second.ids, contended.status? key id = some .candidate := by
    change ∀ id ∈ [2, 13], _
    rw [List.forall_mem_cons, List.forall_mem_singleton]
    decide +kernel
  rcases Registry.move_eq_ok second_selected.ids_ne_nil second_selected.ids_nodup .compacting
    claimed rfl with ⟨after, moved, done⟩
  have after_eq : started = after := congrArg leftBehind moved
  rw [after_eq]
  exact ⟨moved, done⟩

end Sample

namespace Registry

theorem deletion_takes_closed_and_merged_files_sample :
    (∃ after, (Sample.started.serveAll Sample.passersby).abort Sample.key Sample.second.ids =
      .ok () after) ∧
    ∃ gone after, Sample.started.delete Sample.key 2 = .ok gone after ∧
      after.abort Sample.key Sample.second.ids = .error (.fileNotFound 2) after := by
  have groups : ∀ request ∈ Sample.passersby, request.group.Nodup := by
    simp only [Sample.passersby, List.forall_mem_cons]
    decide +kernel
  have kept : ∀ request ∈ Sample.passersby, ∀ id ∈ Sample.second.ids,
      ¬ request.Concludes Sample.key id .compacting := by
    intro request isRequest
    change ∀ id ∈ [2, 13], _
    rw [List.forall_mem_cons, List.forall_mem_singleton]
    revert request
    simp only [Sample.passersby, List.forall_mem_cons]
    decide +kernel
  have before := deletion_takes_closed_and_merged_files Sample.contended_reachable Sample.key
  have during := deletion_takes_closed_and_merged_files Sample.started_reachable Sample.key
  rcases before.2 Sample.second Sample.second_selected with ⟨givenUp, _⟩
  rcases during.2 Sample.second Sample.second_selected with ⟨_, stranded⟩
  rcases givenUp Sample.started Sample.starting.1 Sample.passersby groups kept with
    ⟨after, aborting, _⟩
  rcases stranded Sample.starting.2 2 (by decide) with ⟨gone, left, deleting, failing, _⟩
  exact ⟨⟨after, aborting⟩, gone, left, deleting, failing⟩

/-- A deletion takes a member out of a group that is being merged, which cannot be given up
any more. -/
theorem merged_member_is_deleted :
    Sample.started.Reachable ∧ Sample.second.Selected ∧
      Sample.contended.start Sample.key Sample.second.ids = .ok () Sample.started ∧
      ∃ file gone after, Sample.started.file Sample.key 2 = .ok file ∧
        file.status = .compacting ∧ Sample.started.delete Sample.key 2 = .ok gone after ∧
        after.abort Sample.key Sample.second.ids = .error (.fileNotFound 2) after := by
  have member : 2 ∈ Sample.second.ids := by decide
  rcases (Partition.status?_eq_some_iff _ _ _).mp (Sample.starting.2 2 member) with
    ⟨file, found, merged⟩
  have registered := (file_eq_ok_iff _ _ _ _).mpr found
  have deleting := delete_eq registered
  rw [if_pos (.inr merged)] at deleting
  have stranded := stranded_of_deletion Sample.starting.2 member deleting
  exact ⟨Sample.started_reachable, Sample.second_selected, Sample.starting.1, file, _, _,
    registered, merged, deleting, stranded.1⟩

end Registry

end SeriesStore
