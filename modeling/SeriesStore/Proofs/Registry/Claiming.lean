import SeriesStore.Proofs.Registry.Group

/-!
# Selecting and claiming

A selection refuses input that is stale or malformed.  The files of a consistent
partition are neither, unless one of them is deleted: each is in the list of its space,
is valid and is what the snapshot has under its number, and no number occurs twice.  So
a fresh view of a reachable registry can be selected from, whatever the configuration.

As the members of what is selected are closed, and no file is a member twice, all
candidates can be claimed one after the other.  Claiming them makes candidates of their
members and changes nothing else.
-/

namespace SeriesStore

open Selection

namespace Selection

/-! ## Input that is recorded -/

/-- Files that the snapshot has in the same form, each in the list of its space and none
of them twice. -/
structure Recorded (snapshot : Snapshot) (space : Space) (seen : List FileId)
    (files : List DataFile) : Prop where
  placed : ∀ file ∈ files, file.space = space
  unseen : ∀ file ∈ files, file.id ∉ seen
  validated : ∀ file ∈ files, file.validate = .ok ()
  found : ∀ file ∈ files, snapshot.find? file.id = some file
  distinct : (files.map DataFile.id).Nodup

section Input

variable {snapshot : Snapshot} {space : Space} {seen : List FileId} {file : DataFile}
  {files rest : List DataFile}

theorem Recorded.tail (recorded : Recorded snapshot space seen (file :: rest)) :
    Recorded snapshot space (file.id :: seen) rest := by
  rcases recorded with ⟨placed, unseen, validated, found, distinct⟩
  rw [List.forall_mem_cons] at placed unseen validated found
  rw [List.map_cons, List.nodup_cons] at distinct
  refine ⟨placed.2, fun other member again => ?_, validated.2, found.2, distinct.2⟩
  rcases List.mem_cons.mp again with same | again
  · exact distinct.1 (same ▸ List.mem_map_of_mem member)
  · exact unseen.2 other member again

/-- The order in which files are given does not matter. -/
theorem Recorded.of_perm (recorded : Recorded snapshot space seen files) (perm : rest.Perm files) :
    Recorded snapshot space seen rest where
  placed := fun file member => recorded.placed file (perm.mem_iff.mp member)
  unseen := fun file member => recorded.unseen file (perm.mem_iff.mp member)
  validated := fun file member => recorded.validated file (perm.mem_iff.mp member)
  found := fun file member => recorded.found file (perm.mem_iff.mp member)
  distinct := (perm.map DataFile.id).nodup_iff.mpr recorded.distinct

/-- A file that the snapshot has in the same form is accepted unless it is deleted. -/
theorem Recorded.resolve_eq (recorded : Recorded snapshot space seen (file :: rest)) :
    resolve snapshot space seen file =
      if file.status = .deleted then .error (.stale file.id .deleted) else .ok file := by
  have member : file ∈ file :: rest := List.mem_cons_self
  simp [resolve, recorded.placed file member, recorded.unseen file member,
    recorded.validated file member, recorded.found file member]

/-- The first deleted file decides. -/
theorem Recorded.resolveAll_eq (recorded : Recorded snapshot space seen files) :
    resolveAll snapshot space seen files =
      match files.find? fun file => file.status = .deleted with
      | some file => .error (.stale file.id .deleted)
      | none => .ok files := by
  induction files generalizing seen with
  | nil => rfl
  | cons file rest ih =>
      rw [resolveAll, recorded.resolve_eq, List.find?_cons]
      by_cases gone : file.status = .deleted
      · simp [gone]
      · simp only [gone, if_false, decide_false, ih recorded.tail]
        cases rest.find? fun file => file.status = .deleted <;> rfl

end Input

/-- A consistent partition records the files of both of its lists. -/
theorem recorded_of_consistent {snapshot : Snapshot} {log : List FileId}
    (consistent : snapshot.partition.Consistent log) :
    Recorded snapshot .sequence [] snapshot.sequence ∧
      Recorded snapshot .unsequence (snapshot.sequence.map DataFile.id) snapshot.unsequence := by
  have distinct := consistent.distinct
  rw [Partition.files, List.map_append, List.nodup_append] at distinct
  have found : ∀ file ∈ snapshot.partition.files, snapshot.find? file.id = some file :=
    fun file member =>
      (Partition.Distinct.find?_eq_some_iff consistent.distinct _ _).mpr ⟨member, rfl⟩
  have inSequence := snapshot.partition.sequence_subset_files
  have inUnsequence := snapshot.partition.unsequence_subset_files
  constructor
  · constructor
    case placed => exact consistent.sequence_space
    case unseen => simp
    case validated => exact fun file member => consistent.validated file (inSequence member)
    case found => exact fun file member => found file (inSequence member)
    case distinct => exact distinct.1
  · constructor
    case placed => exact consistent.unsequence_space
    case unseen =>
      exact fun file member again => distinct.2.2 _ again _ (List.mem_map_of_mem member) rfl
    case validated => exact fun file member => consistent.validated file (inUnsequence member)
    case found => exact fun file member => found file (inUnsequence member)
    case distinct => exact distinct.2.1

/-- The files of a consistent partition are accepted unless one of them is deleted. -/
theorem resolveInput_eq_of_consistent {snapshot : Snapshot} {log : List FileId}
    (consistent : snapshot.partition.Consistent log) :
    resolveInput snapshot snapshot.sequence snapshot.unsequence =
      match snapshot.partition.files.find? fun file => file.status = .deleted with
      | some file => .error (.stale file.id .deleted)
      | none =>
          .ok (snapshot.sequence.mergeSort DataFile.comesFirst, snapshot.unsequence) := by
  rcases recorded_of_consistent consistent with ⟨early, late⟩
  rw [resolveInput, early.resolveAll_eq, late.resolveAll_eq, Partition.files, List.find?_append]
  change _ = match (snapshot.sequence.find? _).or (snapshot.unsequence.find? _) with
    | some file => _
    | none => _
  cases snapshot.sequence.find? fun file => file.status = .deleted with
  | some file => rfl
  | none => cases snapshot.unsequence.find? fun file => file.status = .deleted <;> rfl

/-- The unsequence files of a partition without deleted files are taken in the order in which
they are given. -/
theorem resolveInput_of_perm {snapshot : Snapshot} {log : List FileId}
    (consistent : snapshot.partition.Consistent log)
    (live : ∀ file ∈ snapshot.partition.files, file.status ≠ .deleted) {given : List DataFile}
    (perm : given.Perm snapshot.unsequence) :
    resolveInput snapshot snapshot.sequence given =
      .ok (snapshot.sequence.mergeSort DataFile.comesFirst, given) := by
  rcases recorded_of_consistent consistent with ⟨early, late⟩
  have none_deleted {files : List DataFile} (own : files ⊆ snapshot.partition.files) :
      (files.find? fun file => file.status = .deleted) = none :=
    List.find?_eq_none.mpr fun file member gone => live file (own member) (of_decide_eq_true gone)
  have inSequence : snapshot.sequence ⊆ snapshot.partition.files :=
    snapshot.partition.sequence_subset_files
  have inUnsequence : given ⊆ snapshot.partition.files :=
    List.Subset.trans perm.subset snapshot.partition.unsequence_subset_files
  rw [resolveInput, early.resolveAll_eq, (late.of_perm perm).resolveAll_eq,
    none_deleted inSequence, none_deleted inUnsequence]

theorem resolveInput_of_consistent {snapshot : Snapshot} {log : List FileId}
    (consistent : snapshot.partition.Consistent log)
    (live : ∀ file ∈ snapshot.partition.files, file.status ≠ .deleted) :
    resolveInput snapshot snapshot.sequence snapshot.unsequence =
      .ok (snapshot.sequence.mergeSort DataFile.comesFirst, snapshot.unsequence) :=
  resolveInput_of_perm consistent live (.refl _)

/-- A deleted file of a consistent partition makes every selection fail. -/
theorem select_of_deleted {snapshot : Snapshot} {log : List FileId}
    (consistent : snapshot.partition.Consistent log) {gone : DataFile}
    (member : gone ∈ snapshot.partition.files) (deleted : gone.status = .deleted) :
    ∃ file ∈ snapshot.partition.files, file.status = .deleted ∧
      ∀ config, select config snapshot = .error (.stale file.id .deleted) := by
  have isDeleted : ∃ file ∈ snapshot.partition.files, decide (file.status = .deleted) = true :=
    ⟨gone, member, decide_eq_true deleted⟩
  rcases Option.isSome_iff_exists.mp (List.find?_isSome.mpr isDeleted) with ⟨file, first⟩
  refine ⟨file, List.mem_of_find?_eq_some first, by simpa using List.find?_some first, ?_⟩
  intro config
  rw [select, selectFrom, resolveInput_eq_of_consistent consistent, first]

/-- Input that is accepted can be selected from, whatever the configuration. -/
theorem exists_selectFrom {snapshot : Snapshot} {sequence unsequence early late : List DataFile}
    (resolved : resolveInput snapshot sequence unsequence = .ok (early, late)) (config : Config) :
    ∃ candidates, selectFrom config snapshot sequence unsequence = .ok candidates := by
  rw [selectFrom_of_resolved config resolved]
  split
  · exact ⟨_, rfl⟩
  · exact ⟨_, rfl⟩

end Selection

namespace Registry

variable {registry : Registry} {key : PartitionKey} {config : Config}
  {candidates : List Candidate}

/-- The members of a fresh selection are registered as they were selected, and closed. -/
theorem member_of_select (selected : select config (registry.snapshot key) = .ok candidates)
    {candidate : Candidate} (made : candidate ∈ candidates) {file : DataFile}
    (member : file ∈ candidate.files) :
    (registry.snapshot key).partition.find? file.id = some file ∧ file.status = .closed := by
  rcases resolveInput_of_selectFrom selected with ⟨early, late, resolved⟩
  have sound := sound_of_selectFrom resolved selected made
  exact ⟨sound.recorded file member, sound.closed file member⟩

theorem closed_of_select (selected : select config (registry.snapshot key) = .ok candidates) :
    ∀ id ∈ candidates.flatMap Candidate.ids, registry.status? key id = some .closed := by
  intro id listed
  rcases List.mem_flatMap.mp listed with ⟨candidate, made, member⟩
  rcases List.mem_map.mp member with ⟨file, isMember, rfl⟩
  exact (Partition.status?_eq_some_iff _ _ _).mpr ⟨file, member_of_select selected made isMember⟩

/-- What is selected from a fresh view can be claimed. -/
theorem selectAndClaim_eq_withStatus
    (distinct : (registry.snapshot key).partition.Distinct)
    (selected : select config (registry.snapshot key) = .ok candidates) :
    selectAndClaim config key registry =
      .ok candidates (registry.withStatus key .candidate (candidates.flatMap Candidate.ids)) := by
  have claimed := claimAll_eq_withStatus (separate_of_selectFrom selected) distinct
    (closed_of_select selected) []
  rw [selectAndClaim, selected]
  dsimp only
  rw [claimed]

/-- What selecting and claiming returns is what is selected from the view of that moment. -/
theorem select_of_selectAndClaim {after : Registry}
    (claimed : selectAndClaim config key registry = .ok candidates after) :
    select config (registry.snapshot key) = .ok candidates := by
  rw [selectAndClaim] at claimed
  split at claimed
  · contradiction
  · rename_i made selected
    split at claimed
    · cases claimed
      exact selected
    · contradiction

/-- What claiming candidates changes: the members were closed and are candidates now, at
their places in the lists, and all else is as before. -/
structure Claims (key : PartitionKey) (candidates : List Candidate) (before after : Registry) :
    Prop where
  members : ∀ candidate ∈ candidates, ∀ file ∈ candidate.files,
    before.file key file.id = .ok file ∧ file.status = .closed ∧
      after.file key file.id = .ok { file with status := .candidate }
  sequence : (after.snapshot key).sequence =
    (before.snapshot key).sequence.map
      (DataFile.withStatus .candidate (candidates.flatMap Candidate.ids))
  unsequence : (after.snapshot key).unsequence =
    (before.snapshot key).unsequence.map
      (DataFile.withStatus .candidate (candidates.flatMap Candidate.ids))
  others : ∀ asked, asked ≠ key → after.partition? asked = before.partition? asked
  keys : after.keys = before.keys

theorem claims_of_select (selected : select config (registry.snapshot key) = .ok candidates) :
    Claims key candidates registry
      (registry.withStatus key .candidate (candidates.flatMap Candidate.ids)) := by
  have lists := snapshot_withStatus registry key .candidate (candidates.flatMap Candidate.ids)
  constructor
  case members =>
    intro candidate made file member
    have listed : file.id ∈ candidates.flatMap Candidate.ids :=
      List.mem_flatMap.mpr ⟨candidate, made, List.mem_map_of_mem member⟩
    rcases member_of_select selected made member with ⟨found, closed⟩
    have foundAfter : ((registry.withStatus key .candidate
        (candidates.flatMap Candidate.ids)).snapshot key).partition.find? file.id =
          some { file with status := .candidate } := by
      rw [lists, Partition.find?_withStatus, found, Option.map_some,
        DataFile.withStatus_of_mem _ listed]
    exact ⟨(file_eq_ok_iff _ _ _ _).mpr found, closed, (file_eq_ok_iff _ _ _ _).mpr foundAfter⟩
  case sequence => exact congrArg Partition.sequence lists
  case unsequence => exact congrArg Partition.unsequence lists
  case others =>
    intro asked other
    rw [partition?_withStatus]
    simp [other]
  case keys => exact keys_withStatus _ _ _ _

/-- From a fresh view without deleted files candidates can be selected, and selecting and
claiming at once returns the same ones, claimed. -/
theorem fresh_selection_is_claimed (reachable : registry.Reachable) (key : PartitionKey)
    (live : ∀ file ∈ (registry.snapshot key).partition.files, file.status ≠ .deleted)
    (config : Config) :
    ∃ candidates after,
      select config (registry.snapshot key) = .ok candidates ∧
      selectAndClaim config key registry = .ok candidates after ∧
      Claims key candidates registry after := by
  rcases reachable.consistent key with ⟨log, consistent⟩
  rcases exists_selectFrom (resolveInput_of_consistent consistent live) config with
    ⟨candidates, selected⟩
  have claimed := selectAndClaim_eq_withStatus consistent.distinct selected
  exact ⟨candidates, _, selected, claimed, claims_of_select selected⟩

theorem fresh_selection_is_claimed_sample :
    ∃ after,
      selectAndClaim Sample.config Sample.key Sample.registry = .ok Sample.candidates after ∧
      Claims Sample.key Sample.candidates Sample.registry after := by
  have live : ∀ file ∈ (Sample.registry.snapshot Sample.key).partition.files,
      file.status ≠ .deleted := by
    decide +kernel
  rcases fresh_selection_is_claimed Sample.registry_reachable Sample.key live Sample.config with
    ⟨candidates, after, selected, claimed, claims⟩
  have candidates_eq : select Sample.config (Sample.registry.snapshot Sample.key) =
      .ok Sample.candidates :=
    Sample.selectFrom_registry
  rw [candidates_eq] at selected
  cases selected
  exact ⟨after, claimed, claims⟩

end Registry

end SeriesStore
