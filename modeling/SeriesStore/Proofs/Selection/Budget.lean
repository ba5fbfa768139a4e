import Mathlib.Data.List.Perm.Basic
import SeriesStore.Proofs.Selection.Arrival

/-!
# Sound candidates

What a selection returns may be claimed as it is.  Its members are the snapshot's
own closed files, every candidate keeps to the budget, and no file is a member
twice.  Sequence members of different candidates differ because each candidate
was made from what the ones before it had left, unsequence members because each
was passed once.
-/

namespace SeriesStore.Selection

open Scan

/-- A candidate of a selection from the given files of a snapshot. -/
structure Candidate.Sound (config : Config) (snapshot : Snapshot)
    (sequence unsequence : List DataFile) (candidate : Candidate) : Prop where
  recorded : ∀ file ∈ candidate.files, snapshot.find? file.id = some file
  closed : ∀ file ∈ candidate.files, file.status = .closed
  sequence_ne_nil : candidate.sequence ≠ []
  unsequence_ne_nil : candidate.unsequence ≠ []
  sequence_given : ∀ file ∈ candidate.sequence, file.id ∈ sequence.map DataFile.id
  unsequence_given : ∀ file ∈ candidate.unsequence, file.id ∈ unsequence.map DataFile.id
  count_le : candidate.count ≤ config.maxFiles
  size_eq : candidate.size.toNat = min (totalSize candidate.files) (UInt64.size - 1)
  size_le : candidate.size ≤ config.maxSize
  increasing : candidate.sequence.Pairwise DataFile.SortsBefore

/-- Below the largest size the exact sum of the sizes is within the budget. -/
theorem Candidate.Sound.totalSize_le {config : Config} {snapshot : Snapshot}
    {sequence unsequence : List DataFile} {candidate : Candidate}
    (sound : candidate.Sound config snapshot sequence unsequence)
    (limited : config.maxSize.toNat < UInt64.size - 1) :
    totalSize candidate.files ≤ config.maxSize.toNat := by
  have capped := UInt64.le_iff_toNat_le.mp sound.size_le
  rw [sound.size_eq] at capped
  omega

/-! ## The number of candidates -/

theorem room_of_step {config : Config} {sequence : List DataFile} {state next : State}
    (step : Step config sequence state next) (room : state.done.length < config.maxCandidates) :
    next.done.length < config.maxCandidates := by
  cases step with
  | passOver _ _ => exact room
  | take _ _ _ => exact room
  | freeze _ _ _ _ more =>
      rw [List.length_append]
      exact more

theorem room_of_run {config : Config} {sequence : List DataFile} {start final : State}
    (run : Run config sequence start final)
    (room : start.done.length < config.maxCandidates) :
    final.done.length < config.maxCandidates := by
  induction run with
  | refl => exact room
  | tail _ step ih => exact room_of_step step ih

/-- The draft of the last moment becomes one candidate at most. -/
theorem length_result_le (state : State) : state.result.length ≤ state.done.length + 1 := by
  have last : state.draft.freeze?.toList.length ≤ 1 := Option.length_toList_le
  rw [State.result, closeScan, List.length_append]
  omega

/-! ## No file twice -/

/-- What holds between a candidate and all candidates before it holds in pairs. -/
theorem FrozenInTurn.pairwise {config : Config} {sequence : List DataFile}
    {candidates : List Candidate} {relation : Candidate → Candidate → Prop}
    (inTurn : FrozenInTurn config sequence candidates)
    (related : ∀ earlier candidate, Frozen config sequence earlier candidate →
      ∀ other ∈ earlier, relation other candidate) :
    candidates.Pairwise relation := by
  rw [List.pairwise_iff_getElem]
  intro first second firstLt secondLt low
  have split : candidates =
      candidates.take second ++ candidates[second] :: candidates.drop (second + 1) := by
    simp
  apply related (candidates.take second) _ (inTurn _ _ _ split)
  exact List.mem_take_iff_getElem.mpr ⟨first, by omega, rfl⟩

theorem sequence_ids_distinct {config : Config} {early : List DataFile}
    {candidates : List Candidate} (distinct : (early.map DataFile.id).Nodup)
    (inTurn : FrozenInTurn config early candidates) :
    (candidates.flatMap fun candidate => candidate.sequence.map DataFile.id).Nodup := by
  rw [List.nodup_flatMap]
  constructor
  · intro candidate member
    rcases List.append_of_mem member with ⟨earlier, later, split⟩
    exact (inTurn earlier candidate later split).sequence_distinct distinct
  · apply inTurn.pairwise
    intro earlier candidate frozen other otherMem id inOther inCandidate
    rcases List.mem_map.mp inCandidate with ⟨file, member, rfl⟩
    apply (frozen.mem_sequence distinct member).2.2 other otherMem
    rw [Candidate.ids, Candidate.files, List.map_append]
    exact List.mem_append_left _ inOther

theorem ids_perm (candidates : List Candidate) :
    ((candidates.flatMap fun candidate => candidate.sequence.map DataFile.id) ++
      (lateMembers candidates).map DataFile.id).Perm (candidates.flatMap Candidate.ids) := by
  have joined : Candidate.ids = fun candidate =>
      candidate.sequence.map DataFile.id ++ candidate.unsequence.map DataFile.id := by
    funext candidate
    exact List.map_append
  rw [joined, lateMembers, List.map_flatMap]
  exact List.flatMap_append_perm _ _ _

/-! ## What a selection returns -/

section Selected

variable {config : Config} {snapshot : Snapshot}
  {sequence unsequence early late : List DataFile} {candidates : List Candidate}
  (resolved : resolveInput snapshot sequence unsequence = .ok (early, late))
  (selected : selectFrom config snapshot sequence unsequence = .ok candidates)

include resolved selected

theorem length_le_of_selectFrom : candidates.length ≤ config.maxCandidates := by
  rcases selectFrom_eq_ok resolved selected with ⟨_, rfl⟩ | ⟨positive, final, run, _, rfl⟩
  · exact Nat.zero_le _
  · have room : final.done.length < config.maxCandidates :=
      room_of_run run (Nat.pos_of_ne_zero positive)
    exact Nat.le_trans (length_result_le final) room

theorem exists_frozen {candidate : Candidate} (made : candidate ∈ candidates) :
    ∃ earlier, Frozen config early earlier candidate := by
  rcases List.append_of_mem made with ⟨earlier, later, split⟩
  exact ⟨earlier, frozenInTurn_of_selectFrom resolved selected earlier candidate later split⟩

theorem early_of_selectFrom {candidate : Candidate} (made : candidate ∈ candidates)
    {file : DataFile} (member : file ∈ candidate.sequence) :
    file ∈ early ∧ file.status = .closed := by
  have facts := resolved_of_resolveInput resolved
  rcases exists_frozen resolved selected made with ⟨earlier, frozen⟩
  rcases frozen.mem_sequence facts.early_distinct member with ⟨isEarly, available⟩
  exact ⟨isEarly, available.1⟩

theorem late_of_selectFrom {candidate : Candidate} (made : candidate ∈ candidates)
    {file : DataFile} (member : file ∈ candidate.unsequence) :
    file ∈ late ∧ file.status = .closed := by
  rcases exists_taken resolved selected with ⟨taken, rest, rfl, admitted, members⟩
  have inTaken : file ∈ taken := by
    have listed : file ∈ lateMembers candidates := List.mem_flatMap.mpr ⟨candidate, made, member⟩
    rw [members] at listed
    exact (List.mem_filter.mp listed).1
  constructor
  · exact List.mem_append_left _ inTaken
  · exact ((config.admits_iff file).mp (admitted file inTaken)).1

theorem ids_distinct : (candidates.flatMap Candidate.ids).Nodup := by
  have facts := resolved_of_resolveInput resolved
  have inTurn := frozenInTurn_of_selectFrom resolved selected
  apply (ids_perm candidates).nodup
  rw [List.nodup_append]
  constructor
  · exact sequence_ids_distinct facts.early_distinct inTurn
  constructor
  · rcases exists_taken resolved selected with ⟨taken, rest, rfl, _, members⟩
    have sublist : (config.unexpired taken).Sublist (taken ++ rest) :=
      List.filter_sublist.trans (List.sublist_append_left taken rest)
    rw [members]
    exact (sublist.map DataFile.id).nodup facts.late_distinct
  · -- The numbers of the two lists of resolved files are disjoint.
    intro id inSequence other inUnsequence same
    rcases List.mem_flatMap.mp inSequence with ⟨candidate, made, listed⟩
    rcases List.mem_map.mp listed with ⟨file, member, rfl⟩
    have isEarly := (early_of_selectFrom resolved selected made member).1
    rcases List.mem_map.mp inUnsequence with ⟨lateFile, lateListed, rfl⟩
    rcases List.mem_flatMap.mp lateListed with ⟨lateCandidate, lateMade, lateMember⟩
    have isLate := (late_of_selectFrom resolved selected lateMade lateMember).1
    have distinct := facts.distinct
    rw [List.map_append, List.nodup_append] at distinct
    exact distinct.2.2 _ (List.mem_map_of_mem isEarly) _ (List.mem_map_of_mem isLate) same

theorem sound_of_selectFrom {candidate : Candidate} (made : candidate ∈ candidates) :
    candidate.Sound config snapshot sequence unsequence := by
  have facts := resolved_of_resolveInput resolved
  rcases exists_frozen resolved selected made with ⟨earlier, frozen⟩
  have isEarly : ∀ file ∈ candidate.sequence, file ∈ early ∧ file.status = .closed :=
    fun file member => early_of_selectFrom resolved selected made member
  have isLate : ∀ file ∈ candidate.unsequence, file ∈ late ∧ file.status = .closed :=
    fun file member => late_of_selectFrom resolved selected made member
  constructor
  case recorded =>
    intro file member
    apply facts.recorded
    rcases List.mem_append.mp member with member | member
    · exact List.mem_append_left _ (isEarly file member).1
    · exact List.mem_append_right _ (isLate file member).1
  case closed =>
    intro file member
    rcases List.mem_append.mp member with member | member
    · exact (isEarly file member).2
    · exact (isLate file member).2
  case sequence_ne_nil => exact frozen.ne_nil.1
  case unsequence_ne_nil => exact frozen.ne_nil.2
  case sequence_given =>
    intro file member
    exact facts.early_ids.mem_iff.mp (List.mem_map_of_mem (isEarly file member).1)
  case unsequence_given =>
    intro file member
    rw [← facts.late_ids]
    exact List.mem_map_of_mem (isLate file member).1
  case count_le => exact frozen.within_budget.1
  case size_eq => exact frozen.toNat_size
  case size_le => exact frozen.within_budget.2
  case increasing => exact frozen.sequence_increasing facts.early_distinct

end Selected

/-- A selection returns sound candidates, no more than it may, in which no number
occurs twice.  The exact sizes keep to the budget whenever this lies below the
largest size. -/
theorem selected_sound {config : Config} {snapshot : Snapshot}
    {sequence unsequence : List DataFile} {candidates : List Candidate}
    (selected : selectFrom config snapshot sequence unsequence = .ok candidates) :
    (candidates.flatMap Candidate.ids).Nodup ∧
      candidates.length ≤ config.maxCandidates ∧
      ∀ candidate ∈ candidates,
        candidate.Sound config snapshot sequence unsequence ∧
        (config.maxSize.toNat < UInt64.size - 1 →
          totalSize candidate.files ≤ config.maxSize.toNat) := by
  rcases resolveInput_of_selectFrom selected with ⟨early, late, resolved⟩
  constructor
  · exact ids_distinct resolved selected
  constructor
  · exact length_le_of_selectFrom resolved selected
  · intro candidate made
    have sound := sound_of_selectFrom resolved selected made
    exact ⟨sound, sound.totalSize_le⟩

theorem selected_sound_sample :
    (Sample.candidates.flatMap Candidate.ids).Nodup ∧
      Sample.candidates.length ≤ Sample.config.maxCandidates ∧
      ∀ candidate ∈ Sample.candidates,
        candidate.Sound Sample.config (Sample.registry.snapshot Sample.key)
          Sample.sequence Sample.unsequence ∧
        (Sample.config.maxSize.toNat < UInt64.size - 1 →
          totalSize candidate.files ≤ Sample.config.maxSize.toNat) :=
  selected_sound Sample.selectFrom_registry

end SeriesStore.Selection
