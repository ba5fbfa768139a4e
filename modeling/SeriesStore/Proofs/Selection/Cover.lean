import SeriesStore.Proofs.Selection.Budget

/-!
# Candidates cover their targets

The sequence members of a candidate are the targets of its unsequence members,
no more and no less.  Whether a file is available is judged by the candidates
before: it must be closed and in none of them.  Files of a reachable registry are
valid, so an unsequence member has a closed interval of every device it holds.
-/

namespace SeriesStore.Selection

section

variable {registry : Registry} {key : PartitionKey} {config : Config}
  {sequence unsequence early late : List DataFile} {candidates earlier later : List Candidate}
  {candidate : Candidate} (reachable : registry.Reachable)
  (resolved : resolveInput (registry.snapshot key) sequence unsequence = .ok (early, late))
  (selected : selectFrom config (registry.snapshot key) sequence unsequence = .ok candidates)
  (split : candidates = earlier ++ candidate :: later)

include reachable resolved

theorem valid_of_resolved {file : DataFile} (member : file ∈ early ++ late) : file.Valid :=
  reachable.valid_of_find? ((resolved_of_resolveInput resolved).recorded file member)

include selected split

/-- A member has a closed and ordered interval of every device. -/
theorem closed_span_of_member {member : DataFile} (taken : member ∈ candidate.files)
    {device : String} {span : DeviceSpan} (found : member.span? device = some span) :
    ∃ interval, span = .closed interval ∧ interval.Ordered := by
  have made : candidate ∈ candidates := by
    rw [split]
    exact List.mem_append_right _ List.mem_cons_self
  have sound := sound_of_selectFrom resolved selected made
  have valid := reachable.valid_of_find? (sound.recorded member taken)
  apply valid.span?_eq_closed _ found
  rw [sound.closed member taken]
  decide

/-- The search for a device of an unsequence member comes back with its targets, and
they are members. -/
theorem exists_device_targets {member : DataFile} (taken : member ∈ candidate.unsequence)
    {device : String} {interval : Interval}
    (closed : member.span? device = some (.closed interval)) :
    ∃ targets, deviceTargets? (isAvailable earlier) early device interval = some targets ∧
      (∀ file, file ∈ targets ↔ IsTarget (Available earlier) early device interval file) ∧
      ∀ file ∈ targets, file ∈ candidate.sequence := by
  have facts := resolved_of_resolveInput resolved
  have frozen := frozenInTurn_of_selectFrom resolved selected earlier candidate later split
  have isMember : member ∈ candidate.files := List.mem_append_right _ taken
  have valid : ∀ file ∈ early, file.Valid := by
    intro file listed
    exact valid_of_resolved reachable resolved (List.mem_append_left late listed)
  rcases closed_span_of_member reachable resolved selected split isMember closed with
    ⟨_, same, ordered⟩
  cases same
  rcases frozen.exists_targets taken with ⟨own, ownFound⟩
  rcases exists_deviceTargets ownFound closed with ⟨targets, found⟩
  have isTarget_iff : ∀ file, file ∈ targets ↔
      IsTarget (Available earlier) early device interval file := by
    intro file
    rw [mem_deviceTargets?_iff facts.increasing valid ordered found]
    simp only [isAvailable_iff]
  have members : ∀ file ∈ targets, file ∈ candidate.sequence := by
    intro file inTargets
    have inOwn : file ∈ own := by
      rw [mem_fileTargets?_iff facts.early_distinct ownFound]
      exact ⟨device, interval, targets, closed, found, inTargets⟩
    rw [frozen.mem_sequence_iff facts.early_distinct]
    exact ⟨member, taken, own, ownFound, inOwn⟩
  exact ⟨targets, found, isTarget_iff, members⟩

/-- A file is a sequence member exactly if it is a target of an unsequence member. -/
theorem mem_sequence_iff_isTarget (file : DataFile) :
    file ∈ candidate.sequence ↔ ∃ member ∈ candidate.unsequence, ∃ device interval,
      member.span? device = some (.closed interval) ∧
      IsTarget (Available earlier) early device interval file := by
  have facts := resolved_of_resolveInput resolved
  have frozen := frozenInTurn_of_selectFrom resolved selected earlier candidate later split
  constructor
  · intro inSequence
    obtain ⟨member, taken, own, ownFound, inOwn⟩ :=
      (frozen.mem_sequence_iff facts.early_distinct file).mp inSequence
    obtain ⟨device, interval, targets, closed, found, inTargets⟩ :=
      (mem_fileTargets?_iff facts.early_distinct ownFound file).mp inOwn
    obtain ⟨_, again, isTarget_iff, _⟩ :=
      exists_device_targets reachable resolved selected split taken closed
    cases found.symm.trans again
    exact ⟨member, taken, device, interval, closed, (isTarget_iff file).mp inTargets⟩
  · rintro ⟨member, taken, device, interval, closed, target⟩
    obtain ⟨targets, _, isTarget_iff, members⟩ :=
      exists_device_targets reachable resolved selected split taken closed
    exact members file ((isTarget_iff file).mpr target)

/-- For a device of an unsequence member all overlapping files are available members,
and only a device that no sequence file holds is without targets. -/
theorem device_covered {member : DataFile} (taken : member ∈ candidate.unsequence)
    {device : String} {interval : Interval}
    (closed : member.span? device = some (.closed interval)) :
    (∀ file ∈ early, file.Overlaps device interval →
      Available earlier file ∧ file ∈ candidate.sequence) ∧
    ((∃ file, IsTarget (Available earlier) early device interval file) ∨
      ∀ file ∈ early, ¬ file.holds device = true) := by
  obtain ⟨targets, found, isTarget_iff, members⟩ :=
    exists_device_targets reachable resolved selected split taken closed
  constructor
  · intro file listed overlaps
    constructor
    · rw [← isAvailable_iff]
      exact available_of_deviceTargets? found listed overlaps
    · apply members
      rw [isTarget_iff]
      exact .overlapping listed overlaps
  · by_cases nil : targets = []
    · right
      intro file listed holds
      exact deviceTargets?_ne_nil found listed holds nil
    · left
      rcases List.exists_mem_of_ne_nil targets nil with ⟨file, inTargets⟩
      exact ⟨file, (isTarget_iff file).mp inTargets⟩

end

/-- The sequence members of a candidate are exactly the targets of its unsequence
members for their devices, judged by what the candidates before it left.  Every file
that overlaps an unsequence member is an available member, and only a device that no
sequence file holds has no targets. -/
theorem selected_covers_targets {registry : Registry} {key : PartitionKey} {config : Config}
    {sequence unsequence early late : List DataFile} {candidates earlier later : List Candidate}
    {candidate : Candidate} (reachable : registry.Reachable)
    (resolved : resolveInput (registry.snapshot key) sequence unsequence = .ok (early, late))
    (selected : selectFrom config (registry.snapshot key) sequence unsequence = .ok candidates)
    (split : candidates = earlier ++ candidate :: later) :
    (∀ file, file ∈ candidate.sequence ↔ ∃ member ∈ candidate.unsequence, ∃ device interval,
      member.span? device = some (.closed interval) ∧
      IsTarget (Available earlier) early device interval file) ∧
    ∀ member ∈ candidate.unsequence, ∀ device, member.holds device = true →
      ∃ interval, member.span? device = some (.closed interval) ∧
        (∀ file ∈ early, file.Overlaps device interval →
          Available earlier file ∧ file ∈ candidate.sequence) ∧
        ((∃ file, IsTarget (Available earlier) early device interval file) ∨
          ∀ file ∈ early, ¬ file.holds device = true) := by
  constructor
  · exact mem_sequence_iff_isTarget reachable resolved selected split
  · intro member taken device holds
    have isMember : member ∈ candidate.files := List.mem_append_right _ taken
    rcases (member.holds_iff device).mp holds with ⟨_, found⟩
    rcases closed_span_of_member reachable resolved selected split isMember found with
      ⟨interval, rfl, _⟩
    exact ⟨interval, found, device_covered reachable resolved selected split taken found⟩

theorem selected_covers_targets_sample :
    (∀ file, file ∈ Sample.second.sequence ↔ ∃ member ∈ Sample.second.unsequence,
      ∃ device interval, member.span? device = some (.closed interval) ∧
      IsTarget (Available [Sample.first]) Sample.sequence device interval file) ∧
    ∀ member ∈ Sample.second.unsequence, ∀ device, member.holds device = true →
      ∃ interval, member.span? device = some (.closed interval) ∧
        (∀ file ∈ Sample.sequence, file.Overlaps device interval →
          Available [Sample.first] file ∧ file ∈ Sample.second.sequence) ∧
        ((∃ file, IsTarget (Available [Sample.first]) Sample.sequence device interval file) ∨
          ∀ file ∈ Sample.sequence, ¬ file.holds device = true) :=
  selected_covers_targets Sample.registry_reachable Sample.resolveInput_registry
    Sample.selectFrom_registry Sample.candidates_eq_append

end SeriesStore.Selection
