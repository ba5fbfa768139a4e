import SeriesStore.Proofs.Registry.Group

/-!
# Failed calls

A call that fails leaves the registry as it was.  Most operations look at everything
before they change the first file, and then nothing is left that could fail: the
members of a selected candidate differ, and every move that is made is one that the
lifecycle allows from the status that has been checked.

Selecting and claiming is the exception, since a claim can fail after others have
succeeded.  Those are given back then, and each file gets the status that it had, at
the place that it had.
-/

namespace SeriesStore

namespace Partition

/-- Whether a step of a partition that fails changes nothing. -/
def Atomic {α : Type} (step : Step α) : Prop :=
  ∀ partition error left, step partition = .error error left → left = partition

theorem atomic_update (id : FileId) (change : DataFile → Except Error DataFile) :
    Atomic (update id change) := by
  intro partition error left failed
  rw [update] at failed
  split at failed
  · cases failed
    rfl
  · split at failed
    · cases failed
      rfl
    · contradiction

theorem atomic_addAll (space : Space) (files : List DataFile) :
    Atomic (addAll space files) := by
  intro partition error left failed
  rw [addAll_eq] at failed
  split at failed
  · cases failed
    rfl
  · contradiction

/-- A file that has been marked as deleted is there to be taken out. -/
theorem atomic_delete (id : FileId) : Atomic (delete id) := by
  intro partition error left failed
  rw [delete, bind_eq] at failed
  cases marked : update id (DataFile.transition .deleted) partition with
  | error cause middle =>
      rw [marked] at failed
      cases failed
      exact atomic_update _ _ _ _ _ marked
  | ok changed middle =>
      rcases (update_eq_ok_iff _ _ _ _ _).mp marked with ⟨file, found, _, rfl⟩
      rw [marked] at failed
      dsimp only at failed
      rw [take, find?_replace, found, Option.map_some] at failed
      contradiction

section Members

variable {ids : List FileId} (differ : ids.Nodup)

include differ

theorem atomic_claim : Atomic (claim ids) := by
  intro partition error left failed
  have outcomes := @claim_cases ids partition differ
  rcases outcomes with ⟨cause, refused⟩ | ⟨_, _, claimed, _⟩
  · rw [refused] at failed
    cases failed
    rfl
  · rw [claimed] at failed
    contradiction

theorem atomic_move {source target : Status} (allowed : source.canBecome target) :
    Atomic (move source target ids) := by
  intro partition error left failed
  cases checked : partition.expectStatus source target ids with
  | error cause =>
      rw [move, check_bind, checked] at failed
      cases failed
      rfl
  | ok _ =>
      have members : ∀ id ∈ ids, partition.status? id = some source := by
        intro id member
        rw [status?_eq_some_iff]
        exact (expectStatus_eq_ok_iff _ _ _ _).mp checked id member
      rcases move_eq_ok differ members allowed with ⟨_, moved, _⟩
      rw [moved] at failed
      contradiction

theorem atomic_finish (outputs : List DataFile) : Atomic (finish ids outputs) := by
  intro partition error left failed
  cases checked : partition.expectStatus .compacting .deleted ids with
  | error cause =>
      rw [finish_eq, checked] at failed
      cases failed
      rfl
  | ok _ =>
      have members : ∀ id ∈ ids, partition.status? id = some .compacting := by
        intro id member
        rw [status?_eq_some_iff]
        exact (expectStatus_eq_ok_iff _ _ _ _).mp checked id member
      rcases finish_cases_of_compacting differ members outputs with
        ⟨_, _, finished⟩ | ⟨cause, refused, _⟩
      · rw [finished] at failed
        contradiction
      · rw [refused] at failed
        cases failed
        rfl

end Members

end Partition

namespace Selection

/-- A candidate that some selection has returned, whatever has happened since. -/
def Candidate.Selected (candidate : Candidate) : Prop :=
  ∃ config snapshot sequence unsequence candidates,
    selectFrom config snapshot sequence unsequence = .ok candidates ∧ candidate ∈ candidates

theorem Candidate.Selected.ids_nodup {candidate : Candidate} (selected : candidate.Selected) :
    candidate.ids.Nodup := by
  rcases selected with ⟨config, snapshot, sequence, unsequence, candidates, outcome, made⟩
  exact (Registry.separate_of_selectFrom outcome).ids_nodup made

theorem Candidate.Selected.ids_ne_nil {candidate : Candidate} (selected : candidate.Selected) :
    candidate.ids ≠ [] := by
  rcases selected with ⟨config, snapshot, sequence, unsequence, candidates, outcome, made⟩
  exact (Registry.separate_of_selectFrom outcome).some_member candidate made

end Selection

namespace Registry

open Selection

/-- Whether a step of the registry that fails changes nothing. -/
def Atomic {α : Type} (step : Step α) : Prop :=
  ∀ registry error after, step registry = .error error after → after = registry

theorem atomic_within {α : Type} (key : PartitionKey) {step : Partition.Step α}
    (atomic : Partition.Atomic step) : Atomic (within key step) := by
  intro registry error after failed
  rw [within] at failed
  split at failed
  · cases failed
    rfl
  · rename_i partition present
    rw [run] at failed
    split at failed
    · contradiction
    · rename_i left outcome
      cases failed
      rw [atomic _ _ _ outcome]
      exact put_of_partition?_eq_some present

/-- Files that are refused make no partition. -/
theorem atomic_addAll (key : PartitionKey) (space : Space) (files : List DataFile) :
    Atomic (addAll key space files) := by
  intro registry error after failed
  cases present : registry.partition? key with
  | none =>
      rw [addAll, present] at failed
      dsimp only at failed
      split at failed
      · contradiction
      · cases failed
        rfl
  | some partition =>
      apply atomic_within key (Partition.atomic_addAll space files) registry error after
      rw [addAll, present] at failed
      rw [within, present]
      exact failed

/-- Candidates of a selection, also of an old one, are claimed together or not at all. -/
theorem claimAll_restores {registry after : Registry} {key : PartitionKey} {config : Config}
    {snapshot : Snapshot} {sequence unsequence : List DataFile} {candidates : List Candidate}
    {error : Error} (distinct : (registry.snapshot key).partition.Distinct)
    (selected : selectFrom config snapshot sequence unsequence = .ok candidates)
    (failed : claimAll key [] candidates registry = .error error after) : after = registry := by
  rw [claimAll_eq_error (separate_of_selectFrom selected) distinct (by simp) failed]
  exact withStatus_nil registry key .closed

/-- A call that takes effect as a whole or fails.  A group is named by a candidate that a
selection has returned, for this partition or another one.  Claiming all candidates of a
selection is the second half of selecting and claiming, on its own because others may
write between the two halves. -/
inductive Call where
  | addAll (key : PartitionKey) (space : Space) (files : List DataFile)
  | recordWrite (key : PartitionKey) (id : FileId) (device : String) (time : Timestamp)
  | sealFile (key : PartitionKey) (id : FileId) (ends : EndTimes)
  | delete (key : PartitionKey) (id : FileId)
  | claim (key : PartitionKey) (candidate : Candidate) (selected : candidate.Selected)
  | release (key : PartitionKey) (candidate : Candidate) (selected : candidate.Selected)
  | start (key : PartitionKey) (candidate : Candidate) (selected : candidate.Selected)
  | abort (key : PartitionKey) (candidate : Candidate) (selected : candidate.Selected)
  | finish (key : PartitionKey) (candidate : Candidate) (selected : candidate.Selected)
      (outputs : List DataFile)
  | claimAll (key : PartitionKey) {config : Config} {snapshot : Snapshot}
      {sequence unsequence : List DataFile} (candidates : List Candidate)
      (selected : selectFrom config snapshot sequence unsequence = .ok candidates)
  | selectAndClaim (config : Config) (key : PartitionKey)

/-- The error of an outcome and what was left behind. -/
def failed? {α : Type} : EStateM.Result Error Registry α → Option (Error × Registry)
  | .ok .. => none
  | .error error after => some (error, after)

/-- The error of a call that fails and the registry that it leaves behind. -/
def Call.failure? (registry : Registry) : Call → Option (Error × Registry)
  | .addAll key space files => failed? (registry.addAll key space files)
  | .recordWrite key id device time => failed? (registry.recordWrite key id device time)
  | .sealFile key id ends => failed? (registry.sealFile key id ends)
  | .delete key id => failed? (registry.delete key id)
  | .claim key candidate _ => failed? (registry.claim key candidate.ids)
  | .release key candidate _ => failed? (registry.release key candidate.ids)
  | .start key candidate _ => failed? (registry.start key candidate.ids)
  | .abort key candidate _ => failed? (registry.abort key candidate.ids)
  | .finish key candidate _ outputs => failed? (registry.finish key candidate.ids outputs)
  | .claimAll key candidates _ => failed? (Selection.claimAll key [] candidates registry)
  | .selectAndClaim config key => failed? (Selection.selectAndClaim config key registry)

theorem failed?_eq_some_iff {α : Type} (outcome : EStateM.Result Error Registry α)
    (error : Error) (after : Registry) :
    failed? outcome = some (error, after) ↔ outcome = .error error after := by
  cases outcome <;> simp [failed?]

theorem eq_of_failed? {α : Type} {step : Step α} (atomic : Atomic step) {registry : Registry}
    {error : Error} {after : Registry} (failed : failed? (step registry) = some (error, after)) :
    after = registry :=
  atomic registry error after ((failed?_eq_some_iff _ _ _).mp failed)

/-- A selection that fails changes nothing, and claims that fail are undone. -/
theorem selectAndClaim_restores {registry after : Registry} {key : PartitionKey}
    {config : Config} {error : Error} (distinct : (registry.snapshot key).partition.Distinct)
    (failed : Selection.selectAndClaim config key registry = .error error after) :
    after = registry := by
  rw [Selection.selectAndClaim] at failed
  split at failed
  · cases failed
    rfl
  · rename_i candidates selected
    split at failed
    · contradiction
    · rename_i unclaimed
      cases failed
      exact claimAll_restores distinct selected unclaimed

/-- A call that fails changes nothing: keys, lists, files, statuses and places are what
they were before. -/
theorem failed_call_changes_nothing {registry : Registry} (reachable : registry.Reachable)
    (call : Call) {error : Error} {after : Registry}
    (failed : call.failure? registry = some (error, after)) : after = registry := by
  cases call with
  | addAll key space files => exact eq_of_failed? (atomic_addAll key space files) failed
  | recordWrite key id device time =>
      exact eq_of_failed? (atomic_within key (Partition.atomic_update id _)) failed
  | sealFile key id ends =>
      exact eq_of_failed? (atomic_within key (Partition.atomic_update id _)) failed
  | delete key id => exact eq_of_failed? (atomic_within key (Partition.atomic_delete id)) failed
  | claim key candidate selected =>
      exact eq_of_failed? (atomic_within key (Partition.atomic_claim selected.ids_nodup)) failed
  | release key candidate selected =>
      exact eq_of_failed? (atomic_within key (Partition.atomic_move selected.ids_nodup rfl)) failed
  | start key candidate selected =>
      exact eq_of_failed? (atomic_within key (Partition.atomic_move selected.ids_nodup rfl)) failed
  | abort key candidate selected =>
      exact eq_of_failed? (atomic_within key (Partition.atomic_move selected.ids_nodup rfl)) failed
  | finish key candidate selected outputs =>
      have atomic := Partition.atomic_finish selected.ids_nodup outputs
      exact eq_of_failed? (atomic_within key atomic) failed
  | claimAll key candidates selected =>
      rcases reachable.consistent key with ⟨log, consistent⟩
      exact claimAll_restores consistent.distinct selected ((failed?_eq_some_iff _ _ _).mp failed)
  | selectAndClaim config key =>
      rcases reachable.consistent key with ⟨log, consistent⟩
      exact selectAndClaim_restores consistent.distinct ((failed?_eq_some_iff _ _ _).mp failed)

end Registry

/-! ## A claim that comes too late

The second of three candidates has been claimed by somebody else. -/

namespace Sample

def contended : Registry :=
  registry.serve (.claim key second.ids)

theorem contended_reachable : contended.Reachable :=
  registry_reachable.served _

/-- The claim of all three, which fails after the first. -/
def lateClaim : Registry.Call :=
  .claimAll key candidates selectFrom_registry

end Sample

namespace Registry

theorem failed_call_changes_nothing_sample :
    ∃ after,
      Sample.lateClaim.failure? Sample.contended =
        some (.stale 2 (.statusChanged .candidate), after) ∧
      after = Sample.contended := by
  have error_eq : (Sample.lateClaim.failure? Sample.contended).map Prod.fst =
      some (.stale 2 (.statusChanged .candidate)) := by
    decide +kernel
  rcases Option.map_eq_some_iff.mp error_eq with ⟨⟨error, after⟩, failed, rfl⟩
  exact ⟨after, failed, failed_call_changes_nothing Sample.contended_reachable _ failed⟩

end Registry

end SeriesStore
