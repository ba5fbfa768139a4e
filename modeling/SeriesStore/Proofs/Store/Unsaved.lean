import SeriesStore.Proofs.Disk.Interruption
import SeriesStore.Proofs.Registry.Finishing
import SeriesStore.Proofs.Store.Ledger

/-!
# Groups that are finished but not saved

Finishing a group with persistence finishes it first and writes afterwards, and nothing is
taken back when a write fails.  The registry is therefore never between the two: it is as
before when the group cannot be finished, and then the group can be given up or finished
with other outputs, or the group is finished in it, whichever sidecar has failed, and then
the group is gone from it.
-/

namespace SeriesStore

open Disk
open Selection

/-- Writing sidecars one after the other fails with the first that cannot be written, after all
before it have been written. -/
theorem Disk.Layout.persistAll_eq_error_iff (layout : Layout) (key : PartitionKey)
    (files : List DataFile) (tree left : Tree) (error : Error) :
    layout.persistAll key files tree = .error error left ↔
      ∃ count file written, files[count]? = some file ∧
        layout.persistAll key (files.take count) tree = .ok () written ∧
        layout.persist key file written = .error error left := by
  induction files generalizing tree with
  | nil =>
      constructor
      · intro outcome
        contradiction
      · rintro ⟨count, file, written, listed, _⟩
        contradiction
  | cons first rest ih =>
      rw [persistAll, Tree.bind_eq]
      cases outcome : layout.persist key first tree with
      | error cause stopped =>
          constructor
          · intro same
            cases same
            exact ⟨0, first, tree, rfl, rfl, outcome⟩
          · rintro ⟨count, file, written, listed, before, failing⟩
            cases count with
            | zero =>
                cases listed
                cases before
                rw [outcome] at failing
                exact failing
            | succ count =>
                rw [List.take_succ_cons, persistAll, Tree.bind_eq, outcome] at before
                contradiction
      | ok _ made =>
          dsimp only
          rw [ih made]
          constructor
          · rintro ⟨count, file, written, listed, before, failing⟩
            refine ⟨count + 1, file, written, listed, ?_, failing⟩
            rw [List.take_succ_cons, persistAll, Tree.bind_eq, outcome]
            exact before
          · rintro ⟨count, file, written, listed, before, failing⟩
            cases count with
            | zero =>
                cases listed
                cases before
                rw [outcome] at failing
                contradiction
            | succ count =>
                rw [List.take_succ_cons, persistAll, Tree.bind_eq, outcome] at before
                exact ⟨count, file, written, listed, before, failing⟩

namespace Registry

variable {registry after : Registry} {key : PartitionKey}

/-- A group whose number is not registered as being merged can neither be given up nor
finished. -/
theorem refused_of_status? {ids : List FileId} {id : FileId} (member : id ∈ ids)
    (other : registry.status? key id ≠ some .compacting) :
    (∃ cause, registry.abort key ids = .error cause registry) ∧
      ∀ outputs, ∃ cause, registry.finish key ids outputs = .error cause registry := by
  cases present : registry.partition? key with
  | none =>
      refine ⟨⟨.partitionNotFound key, ?_⟩, fun outputs => ⟨.partitionNotFound key, ?_⟩⟩
      · rw [abort, within, present]
      · rw [finish, within, present]
  | some partition =>
      rw [status?, partition_snapshot present] at other
      have refused : ∀ target, ∃ cause,
          partition.expectStatus .compacting target ids = .error cause := by
        intro target
        cases checked : partition.expectStatus .compacting target ids with
        | error cause => exact ⟨cause, rfl⟩
        | ok _ =>
            have found := (Partition.expectStatus_eq_ok_iff _ _ _ _).mp checked id member
            exact absurd ((Partition.status?_eq_some_iff _ _ _).mpr found) other
      choose cause failing using refused
      rcases refused_of_members present failing with ⟨aborting, finishing⟩
      exact ⟨⟨_, aborting⟩, fun outputs => ⟨_, finishing outputs⟩⟩

/-- When a group has been finished, its numbers are those of outputs. -/
theorem status?_of_finish (reachable : registry.Reachable) {candidate : Candidate}
    {outputs removed : List DataFile}
    (finishing : registry.finish key candidate.ids outputs = .ok removed after) {id : FileId}
    (member : id ∈ candidate.ids) {status : Status}
    (registered : after.status? key id = some status) :
    ∃ file ∈ outputs, file.id = id ∧ file.status = status := by
  rcases (within_eq_ok_iff _ _ _ _ _).mp finishing with ⟨partition, left, present, outcome, rfl⟩
  rcases reachable.consistent key with ⟨log, consistent⟩
  rw [partition_snapshot present] at consistent
  rcases Partition.eq_swap_of_finish consistent.distinct consistent.inKeyOrder outcome with
    ⟨rfl, _⟩
  rw [status?_put_self, Partition.status?_eq_some_iff] at registered
  rcases registered with ⟨file, found, status_eq⟩
  rcases Partition.mem_of_find?_eq_some found with ⟨isRegistered, rfl⟩
  rcases (Partition.mem_files_swap _ _ _ _).mp isRegistered with ⟨_, stays⟩ | isOutput
  · exact absurd member stays
  · exact ⟨file, isOutput, rfl, status_eq⟩

end Registry

namespace Store

/-- When the sidecar of the first output cannot be written, that is the failure. -/
theorem finishAndPersist_of_first {store : Store} {layout : Layout} {key : PartitionKey}
    {ids : List FileId} {output : DataFile} {others removed : List DataFile} {left : Registry}
    {disk : Tree} {error : Error}
    (finishing : store.registry.finish key ids (output :: others) = .ok removed left)
    (failing : layout.persist key output store.disk = .error error disk) :
    finishAndPersist layout key ids (output :: others) store = .error error ⟨left, disk⟩ := by
  have stopped := (layout.persistAll_eq_error_iff key
    (layout.finishedSidecars key (output :: others) removed) store.disk disk error).mpr
      ⟨0, output, store.disk, rfl, rfl, failing⟩
  rw [finishAndPersist_eq, finishing]
  dsimp only
  rw [stopped]

/-- Finishing a group with persistence that fails has either changed nothing, with the error of
finishing, and then a group that is being merged can be given up or finished with other
outputs; or it has finished the group as a whole, with the error of the first sidecar that
could not be written, and then the group can neither be given up nor finished again, unless
all its numbers belong to outputs that are being merged themselves. -/
theorem failed_finish_keeps_or_finishes {store after : Store}
    (reachable : store.registry.Reachable) {layout : Layout} {key : PartitionKey}
    {candidate : Candidate} (selected : candidate.Selected) {outputs : List DataFile}
    {error : Error}
    (failed : finishAndPersist layout key candidate.ids outputs store = .error error after) :
    (store.registry.finish key candidate.ids outputs = .error error store.registry ∧
      after = store ∧
      ((∀ id ∈ candidate.ids, after.registry.status? key id = some .compacting) →
        (∃ aborted, after.registry.abort key candidate.ids = .ok () aborted) ∧
        ∀ partition others, after.registry.partition? key = some partition →
          partition.Mergeable candidate.ids others →
          ∃ removed finished,
            after.registry.finish key candidate.ids others = .ok removed finished)) ∨
    ∃ removed, store.registry.finish key candidate.ids outputs = .ok removed after.registry ∧
      (∃ count file written,
        (layout.finishedSidecars key outputs removed)[count]? = some file ∧
        layout.persistAll key ((layout.finishedSidecars key outputs removed).take count)
          store.disk = .ok () written ∧
        layout.persist key file written = .error error after.disk) ∧
      ((∃ id ∈ candidate.ids, ∀ file ∈ outputs, file.id = id → file.status ≠ .compacting) →
        (∃ cause, after.registry.abort key candidate.ids = .error cause after.registry) ∧
        ∀ others, ∃ cause,
          after.registry.finish key candidate.ids others = .error cause after.registry) := by
  rw [finishAndPersist_eq] at failed
  cases finishing : store.registry.finish key candidate.ids outputs with
  | error cause left =>
      rw [finishing] at failed
      cases failed
      have atomic := Registry.atomic_within key (Partition.atomic_finish selected.ids_nodup outputs)
      have left_eq : left = store.registry := atomic _ _ _ finishing
      subst left_eq
      refine .inl ⟨rfl, rfl, fun members => ⟨?_, ?_⟩⟩
      · exact ⟨_, Registry.abort_eq_ok selected reachable members⟩
      · intro partition others present mergeable
        rcases (Partition.exists_finish_iff selected.ids_nodup).mpr mergeable with
          ⟨removed, left, finished⟩
        exact ⟨removed, _, Registry.within_eq_ok present finished⟩
  | ok removed left =>
      rw [finishing] at failed
      dsimp only at failed
      split at failed
      · rename_i cause disk writing
        cases failed
        refine .inr ⟨removed, rfl, (layout.persistAll_eq_error_iff _ _ _ _ _).mp writing, ?_⟩
        rintro ⟨id, member, notMerged⟩
        apply Registry.refused_of_status? member
        intro merged
        rcases Registry.status?_of_finish reachable finishing member merged with
          ⟨file, isOutput, same, status⟩
        exact notMerged file isOutput same status
      · contradiction

end Store

/-! ## A sidecar that cannot be written

Where the sidecar of the first output belongs stands a directory. -/

namespace Sample

def blocked : Tree :=
  leftBehind (Tree.makeDirectories (layout.sidecarPath key output) blank)

theorem persist_blocked : returned? (layout.persist key output blocked) = none := by
  decide +kernel

/-- The store in which the second candidate is being merged. -/
def stuck : Store :=
  ⟨started, blocked⟩

theorem stuck_reachable : stuck.registry.Reachable :=
  started_reachable

theorem members_stuck : ∀ id ∈ second.ids, stuck.registry.status? key id = some .compacting :=
  starting.2

theorem finishing_stuck :
    ∃ removed error after,
      stuck.registry.finish key second.ids outputs = .ok removed after.registry ∧
      Store.finishAndPersist layout key second.ids outputs stuck = .error error after := by
  have present : stuck.registry.partition? key = some midMerge := partition?_started
  rcases (Partition.exists_finish_iff second_selected.ids_nodup).mpr mergeable_midMerge with
    ⟨removed, left, finished⟩
  have finishing := Registry.within_eq_ok present finished
  have nothing := persist_blocked
  cases failing : layout.persist key output blocked with
  | ok _ disk =>
      rw [failing] at nothing
      cases nothing
  | error error disk =>
      exact ⟨removed, error, ⟨_, disk⟩, finishing,
        Store.finishAndPersist_of_first finishing failing⟩

/-- No output takes over the second member while it is being merged itself. -/
theorem outputs_closed : ∀ file ∈ outputs, file.id = 13 → file.status ≠ .compacting := by
  decide +kernel

end Sample

namespace Store

theorem failed_finish_keeps_or_finishes_sample :
    ∃ error after,
      finishAndPersist Sample.layout Sample.key Sample.second.ids Sample.outputs Sample.stuck =
        .error error after ∧
      ∃ cause, after.registry.abort Sample.key Sample.second.ids =
        .error cause after.registry := by
  rcases Sample.finishing_stuck with ⟨removed, error, after, finishing, failed⟩
  refine ⟨error, after, failed, ?_⟩
  rcases failed_finish_keeps_or_finishes Sample.stuck_reachable Sample.second_selected failed with
    ⟨refused, _⟩ | ⟨_, _, _, stranded⟩
  · rw [finishing] at refused
    cases refused
  · exact (stranded ⟨13, by decide, Sample.outputs_closed⟩).1

/-- A sidecar cannot be written, and the registry is not what it was: the group, which could be
given up before, cannot be given up any more. -/
theorem failed_write_changes_registry :
    Sample.stuck.registry.Reachable ∧ Sample.second.Selected ∧
      (∃ aborted, Sample.stuck.registry.abort Sample.key Sample.second.ids = .ok () aborted) ∧
      ∃ error after,
        finishAndPersist Sample.layout Sample.key Sample.second.ids Sample.outputs Sample.stuck =
          .error error after ∧
        after.registry ≠ Sample.stuck.registry ∧
        ∃ cause, after.registry.abort Sample.key Sample.second.ids =
          .error cause after.registry := by
  rcases Sample.finishing_stuck with ⟨removed, error, after, finishing, failed⟩
  have aborting := Registry.abort_eq_ok Sample.second_selected Sample.stuck_reachable
    Sample.members_stuck
  have member : 13 ∈ Sample.second.ids := by decide
  have gone : after.registry.status? Sample.key 13 ≠ some .compacting := by
    intro merged
    rcases Registry.status?_of_finish Sample.stuck_reachable finishing member merged with
      ⟨file, isOutput, same, status⟩
    exact Sample.outputs_closed file isOutput same status
  refine ⟨Sample.stuck_reachable, Sample.second_selected, ⟨_, aborting⟩, error, after, failed,
    ?_, (Registry.refused_of_status? member gone).1⟩
  intro same
  rw [same] at gone
  exact gone (Sample.members_stuck 13 member)

end Store

end SeriesStore
