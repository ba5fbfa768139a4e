import SeriesStore.Proofs.Registry.Claiming

/-!
# Selecting and claiming again

Once candidates of a partition have been claimed, nothing more can be claimed there.  What was
selected is a first part of the unsequence files less those that have expired.  The next scan
passes over the expired files of that part and then meets a file that is claimed, which ends it
before anything has been taken.  So what the first call has left, for whatever reason, is not
merged ahead of what it has claimed.
-/

namespace SeriesStore

open Selection

namespace Selection

/-- A scan that meets a refused file after nothing but expired ones selects nothing. -/
theorem scan_eq_nil_of_refused {config : Config} {sequence before after : List DataFile}
    {file : DataFile} (expired : ∀ other ∈ before, config.passesOver other = true)
    (refused : config.admits file = false) :
    scan config sequence [] .empty (before ++ file :: after) = [] := by
  induction before with
  | nil => simp [scan, refused, closeScan]
  | cons first rest ih =>
      rw [List.forall_mem_cons] at expired
      -- An expired file that is refused itself ends the scan all the sooner.
      by_cases admitted : config.admits first = true
      · simpa [scan, admitted, expired.1] using ih expired.2
      · simp [scan, admitted, closeScan]

/-- What a selection takes first stands behind expired files only. -/
theorem exists_first_taken {config : Config} {snapshot : Snapshot}
    {sequence unsequence early late : List DataFile} {candidates : List Candidate}
    (resolved : resolveInput snapshot sequence unsequence = .ok (early, late))
    (selected : selectFrom config snapshot sequence unsequence = .ok candidates)
    (some_candidate : candidates ≠ []) :
    ∃ before file after, late = before ++ file :: after ∧
      (∀ other ∈ before, config.passesOver other = true) ∧ file ∈ lateMembers candidates := by
  obtain ⟨candidate, made⟩ := List.exists_mem_of_ne_nil candidates some_candidate
  obtain ⟨member, isMember⟩ := List.exists_mem_of_ne_nil _
    (sound_of_selectFrom resolved selected made).unsequence_ne_nil
  have taken_ne : lateMembers candidates ≠ [] :=
    List.ne_nil_of_mem (List.mem_flatMap.mpr ⟨candidate, made, isMember⟩)
  obtain ⟨taken, rest, rfl, _, members⟩ := exists_taken resolved selected
  obtain ⟨file, others, split⟩ := List.exists_cons_of_ne_nil taken_ne
  rw [members] at split
  obtain ⟨before, after, rfl, skipped, _, _⟩ := List.filter_eq_cons_iff.mp split
  refine ⟨before, file, after ++ rest, by simp, fun other inBefore => ?_, ?_⟩
  · simpa using skipped other inBefore
  · rw [members, split]
    exact List.mem_cons_self

/-- Whether a file has expired does not depend on its status. -/
theorem Config.passesOver_withStatus {config other : Config}
    (same : other.expiry? = config.expiry?) (status : Status) (ids : List FileId)
    (file : DataFile) :
    other.passesOver (file.withStatus status ids) = config.passesOver file := by
  unfold Config.passesOver DataFile.withStatus
  rw [same]
  split
  · rfl
  · split <;> rfl

end Selection

namespace Registry

variable {registry : Registry} {key : PartitionKey} {config : Config}
  {candidates : List Candidate}

/-- When nothing is selected nothing is claimed. -/
theorem selectAndClaim_of_select_nil (nothing : select config (registry.snapshot key) = .ok []) :
    selectAndClaim config key registry = .ok [] registry := by
  rw [selectAndClaim, nothing]
  rfl

/-- Files that are claimed are not deleted. -/
theorem live_claimed {ids : List FileId}
    (live : ∀ file ∈ (registry.snapshot key).partition.files, file.status ≠ .deleted) :
    ∀ file ∈ ((registry.withStatus key .candidate ids).snapshot key).partition.files,
      file.status ≠ .deleted := by
  rw [snapshot_withStatus, Partition.files_withStatus, List.forall_mem_map]
  intro file member
  by_cases claimed : file.id ∈ ids
  · rw [DataFile.withStatus_of_mem _ claimed]
    exact fun gone => nomatch gone
  · rw [DataFile.withStatus_of_not_mem _ claimed]
    exact live file member

/-- After a claim of all that was selected, if this is something, no budget makes a selection
with the same expiry find more. -/
theorem select_claimed {log claimedLog : List FileId}
    (consistent : (registry.snapshot key).partition.Consistent log)
    (live : ∀ file ∈ (registry.snapshot key).partition.files, file.status ≠ .deleted)
    (selected : select config (registry.snapshot key) = .ok candidates)
    (some_candidate : candidates ≠ [])
    (claimed : ((registry.withStatus key .candidate
      (candidates.flatMap Candidate.ids)).snapshot key).partition.Consistent claimedLog)
    {other : Config} (same : other.expiry? = config.expiry?) :
    select other ((registry.withStatus key .candidate
      (candidates.flatMap Candidate.ids)).snapshot key) = .ok [] := by
  obtain ⟨before, first, after, split, expired, taken⟩ :=
    exists_first_taken (resolveInput_of_consistent consistent live) selected some_candidate
  obtain ⟨candidate, made, isMember⟩ := List.mem_flatMap.mp taken
  have isClaimed : first.id ∈ candidates.flatMap Candidate.ids :=
    List.mem_flatMap.mpr
      ⟨candidate, made, List.mem_map_of_mem (List.mem_append_right _ isMember)⟩
  have late : ((registry.withStatus key .candidate
      (candidates.flatMap Candidate.ids)).snapshot key).unsequence =
        (registry.snapshot key).unsequence.map
          (DataFile.withStatus .candidate (candidates.flatMap Candidate.ids)) :=
    (claims_of_select selected).unsequence
  -- The scan meets the file that was taken first, which is refused now, before any other that
  -- it does not pass over.
  rw [select, selectFrom_of_resolved other (resolveInput_of_consistent claimed (live_claimed live)),
    late, split, List.map_append, List.map_cons, scan_eq_nil_of_refused, ite_self]
  · rw [List.forall_mem_map]
    intro file inBefore
    rw [Config.passesOver_withStatus same]
    exact expired file inBefore
  · rw [DataFile.withStatus_of_mem _ isClaimed, Bool.eq_false_iff, ne_eq, Config.admits_iff]
    rintro ⟨closed, _⟩
    contradiction

/-- Selecting and claiming in a partition without deleted files succeeds, and doing it again
with the same configuration returns nothing and changes nothing.  If the first call has claimed
something, this holds for every configuration that agrees on what has expired. -/
theorem claiming_is_quiescent (reachable : registry.Reachable) (key : PartitionKey)
    (live : ∀ file ∈ (registry.snapshot key).partition.files, file.status ≠ .deleted)
    (config : Config) :
    ∃ candidates after,
      selectAndClaim config key registry = .ok candidates after ∧
      selectAndClaim config key after = .ok [] after ∧
      (candidates ≠ [] → ∀ other : Config, other.expiry? = config.expiry? →
        selectAndClaim other key after = .ok [] after) := by
  obtain ⟨log, consistent⟩ := reachable.consistent key
  obtain ⟨candidates, selected⟩ :=
    exists_selectFrom (resolveInput_of_consistent consistent live) config
  have claimed := selectAndClaim_eq_withStatus consistent.distinct selected
  have claimedReachable : (registry.withStatus key .candidate
      (candidates.flatMap Candidate.ids)).Reachable := by
    have served := reachable.served (.selectAndClaim config key)
    rwa [serve, claimed] at served
  obtain ⟨claimedLog, claimedConsistent⟩ := claimedReachable.consistent key
  have quiescent : candidates ≠ [] → ∀ other : Config, other.expiry? = config.expiry? →
      selectAndClaim other key
          (registry.withStatus key .candidate (candidates.flatMap Candidate.ids)) =
        .ok [] (registry.withStatus key .candidate (candidates.flatMap Candidate.ids)) :=
    fun some_candidate other same => selectAndClaim_of_select_nil
      (select_claimed consistent live selected some_candidate claimedConsistent same)
  refine ⟨candidates, _, claimed, ?_, quiescent⟩
  by_cases nothing : candidates = []
  · subst nothing
    rw [List.flatMap_nil, withStatus_nil]
    exact selectAndClaim_of_select_nil selected
  · exact quiescent nothing config rfl

/-- Three candidates are claimed, after which a configuration without limits finds nothing
either. -/
theorem claiming_is_quiescent_sample :
    ∃ after, selectAndClaim Sample.config Sample.key Sample.registry = .ok Sample.candidates after ∧
      selectAndClaim Sample.config Sample.key after = .ok [] after ∧
      selectAndClaim { expiry? := some 0 } Sample.key after = .ok [] after := by
  have live : ∀ file ∈ (Sample.registry.snapshot Sample.key).partition.files,
      file.status ≠ .deleted := by
    decide +kernel
  obtain ⟨candidates, after, claimed, again, quiescent⟩ :=
    claiming_is_quiescent Sample.registry_reachable Sample.key live Sample.config
  have candidates_eq : candidates = Sample.candidates :=
    Except.ok.inj ((select_of_selectAndClaim claimed).symm.trans Sample.selectFrom_registry)
  subst candidates_eq
  exact ⟨after, claimed, again, quiescent (List.cons_ne_nil _ _) _ rfl⟩

end Registry

end SeriesStore
