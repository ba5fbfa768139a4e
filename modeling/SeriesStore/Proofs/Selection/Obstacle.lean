import SeriesStore.Proofs.Selection.Cover

/-!
# Why a selection ends

A selection that could have made more candidates has worked off all unsequence
files, or there is an obstacle at the first file that it left.  The scan met the
obstacle with the candidates and the draft of that moment, but it persists in view
of the final candidates: what one more candidate takes only blocks more, and a draft
that is dropped held no file that could be placed anywhere.
-/

namespace SeriesStore

namespace Selection

open Scan

/-- The files that a selection passes over: they are admitted but have expired. -/
def Config.Skips (config : Config) (file : DataFile) : Prop :=
  file.status = .closed ∧ config.minLevel ≤ file.innerLevel ∧ config.passesOver file = true

/-- The data of a device in an interval cannot be merged into any available file. -/
inductive Blocked (available : DataFile → Prop) (sequence : List DataFile) (device : String)
    (interval : Interval) : Prop where
  | overlap {file : DataFile} (member : file ∈ sequence)
      (overlaps : file.Overlaps device interval) (taken : ¬ available file)
  | noNeighbour (held : ∃ file ∈ sequence, file.holds device = true)
      (clear : ∀ file ∈ sequence, ¬ file.Overlaps device interval)
      (nextTaken : ∀ file,
        IsFirst sequence (fun other => other.StartsAfter device interval.stop) file →
          ¬ available file)
      (previousTaken : ∀ file,
        IsLast sequence (fun other => other.EndsBefore device interval.start) file →
          ¬ available file)

/-- What keeps an unsequence file from being selected beside the candidates. -/
inductive Obstacle (config : Config) (candidates : List Candidate) (sequence : List DataFile)
    (late : DataFile) : Prop where
  | refused (refused : late.status ≠ .closed ∨ late.innerLevel < config.minLevel)
  | blocked {device : String} {interval : Interval}
      (found : late.span? device = some (.closed interval))
      (blocked : Blocked (Available candidates) sequence device interval)
  | overBudget {targets : List DataFile} (distinct : targets.Nodup)
      (mem_iff : ∀ file, file ∈ targets ↔ ∃ device interval,
        late.span? device = some (.closed interval) ∧
        IsTarget (Available candidates) sequence device interval file)
      (exceeds : config.maxFiles < 1 + targets.length ∨
        config.maxSize.toNat < min (late.size.toNat + totalSize targets) (UInt64.size - 1))
  | unplaced (absent : ∀ device, late.holds device = true →
      ∀ file ∈ sequence, ¬ file.holds device = true)

/-- Unsequence files of which all, or all before one with an obstacle, are selected or
skipped. -/
inductive WorkedOff (config : Config) (candidates : List Candidate)
    (sequence pending : List DataFile) : Prop where
  | completely (served : ∀ file ∈ pending, file ∈ lateMembers candidates ∨ config.Skips file)
  | upTo {before after : List DataFile} {file : DataFile}
      (split : pending = before ++ file :: after)
      (served : ∀ other ∈ before, other ∈ lateMembers candidates ∨ config.Skips other)
      (unselected : file ∉ lateMembers candidates) (unskipped : ¬ config.Skips file)
      (obstacle : Obstacle config candidates sequence file)

/-! ## Blocked devices -/

theorem Blocked.mono {available fewer : DataFile → Prop} {sequence : List DataFile}
    {device : String} {interval : Interval} (le : ∀ file, fewer file → available file)
    (blocked : Blocked available sequence device interval) :
    Blocked fewer sequence device interval := by
  cases blocked with
  | overlap member overlaps taken => exact .overlap member overlaps (mt (le _) taken)
  | noNeighbour held clear nextTaken previousTaken =>
      exact .noNeighbour held clear (fun file first => mt (le file) (nextTaken file first))
        fun file last => mt (le file) (previousTaken file last)

section Search

variable {available : DataFile → Bool} {sequence : List DataFile} {device : String}
  {interval : Interval}

/-- A search that comes back with none was blocked. -/
theorem blocked_of_deviceTargets?_eq_none
    (increasing : sequence.Pairwise DataFile.SortsBefore)
    (valid : ∀ file ∈ sequence, file.Valid) (ordered : interval.Ordered)
    (failed : deviceTargets? available sequence device interval = none) :
    Blocked (fun file => available file = true) sequence device interval := by
  by_cases nil : filesAt .overlapping device interval sequence = []
  · rw [deviceTargets?_of_no_overlapping nil] at failed
    split at failed
    · contradiction
    · rename_i nearest
      split at failed
      · rename_i held
        rw [neighbour?_eq_none_iff increasing valid ordered] at nearest
        exact .noNeighbour (List.any_eq_true.mp held) (filesAt_overlapping_eq_nil_iff.mp nil)
          nearest.1 nearest.2
      · contradiction
  · rw [deviceTargets?_of_overlapping nil] at failed
    split at failed
    · contradiction
    · rename_i someTaken
      rw [List.all_eq_true] at someTaken
      rcases Classical.not_forall.mp someTaken with ⟨file, implication⟩
      rcases Classical.not_imp.mp implication with ⟨listed, taken⟩
      rcases (mem_filesAt_overlapping file).mp listed with ⟨member, overlaps⟩
      exact .overlap member overlaps taken

/-- A search that comes back with targets was not blocked. -/
theorem not_blocked_of_deviceTargets? {own : List DataFile}
    (increasing : sequence.Pairwise DataFile.SortsBefore)
    (valid : ∀ file ∈ sequence, file.Valid) (ordered : interval.Ordered)
    (found : deviceTargets? available sequence device interval = some own) :
    ¬ Blocked (fun file => available file = true) sequence device interval := by
  intro blocked
  cases blocked with
  | overlap member overlaps taken => exact taken (available_of_deviceTargets? found member overlaps)
  | noNeighbour held clear nextTaken previousTaken =>
      have nearest : neighbour? available device interval sequence = none :=
        (neighbour?_eq_none_iff increasing valid ordered).mpr ⟨nextTaken, previousTaken⟩
      have listed : (sequence.any fun file => file.holds device) = true :=
        List.any_eq_true.mpr held
      rw [deviceTargets?_of_no_overlapping (filesAt_overlapping_eq_nil_iff.mpr clear), nearest,
        listed] at found
      contradiction

/-- A file without targets was found none for each of its devices. -/
theorem exists_blocked_device {late : DataFile}
    (failed : fileTargets? available sequence late = none) :
    ∃ device interval, late.span? device = some (.closed interval) ∧
      deviceTargets? available sequence device interval = none := by
  rcases (allTargets?_eq_none_iff _).mp (Option.map_eq_none_iff.mp failed) with
    ⟨⟨device, interval⟩, listed, blocked⟩
  exact ⟨device, interval, (late.mem_closedIntervals device interval).mp listed, blocked⟩

end Search

theorem place_eq_blocked_iff (config : Config) (sequence : List DataFile)
    (done : List Candidate) (draft : Draft) (late : DataFile) :
    place config sequence done draft late = .blocked ↔
      fileTargets? (isAvailable done) sequence late = none := by
  rw [place]
  split
  · rename_i failed
    simp [failed]
  · rename_i own found
    rw [found]
    split <;> simp

theorem place_eq_overBudget_iff (config : Config) (sequence : List DataFile)
    (done : List Candidate) (draft : Draft) (late : DataFile) :
    place config sequence done draft late = .overBudget ↔
      ∃ own, fileTargets? (isAvailable done) sequence late = some own ∧
        draft.fits config late (draft.missing own) = false := by
  rw [place]
  split
  · rename_i failed
    simp [failed]
  · rename_i own found
    by_cases fits : draft.fits config late (draft.missing own) = true <;> simp [found, fits]

/-! ## Obstacles -/

section Obstacles

variable {config : Config} {sequence own : List DataFile} {done others : List Candidate}
  {late : DataFile} (increasing : sequence.Pairwise DataFile.SortsBefore)
  (distinct : (sequence.map DataFile.id).Nodup) (valid : ∀ file ∈ sequence, file.Valid)
  (lateValid : late.Valid)

include increasing valid lateValid

/-- A file that was blocked is blocked all the more beside further candidates. -/
theorem obstacle_of_blocked {draft : Draft}
    (blocked : place config sequence done draft late = .blocked) :
    Obstacle config (done ++ others) sequence late := by
  rw [place_eq_blocked_iff] at blocked
  rcases exists_blocked_device blocked with ⟨device, interval, found, failed⟩
  have ordered := lateValid.ordered_of_span? found
  have noTarget := blocked_of_deviceTargets?_eq_none increasing valid ordered failed
  refine .blocked found (noTarget.mono fun file available => ?_)
  rw [isAvailable_iff]
  exact available.of_append

include distinct

theorem mem_fileTargets?_iff_isTarget
    (found : fileTargets? (isAvailable done) sequence late = some own) (file : DataFile) :
    file ∈ own ↔ ∃ device interval, late.span? device = some (.closed interval) ∧
      IsTarget (Available done) sequence device interval file := by
  have mem_iff : ∀ {device interval targets}, late.span? device = some (.closed interval) →
      deviceTargets? (isAvailable done) sequence device interval = some targets →
        (file ∈ targets ↔ IsTarget (Available done) sequence device interval file) := by
    intro device interval targets closed search
    rw [mem_deviceTargets?_iff increasing valid (lateValid.ordered_of_span? closed) search]
    simp only [isAvailable_iff]
  rw [mem_fileTargets?_iff distinct found]
  constructor
  · rintro ⟨device, interval, targets, closed, search, inTargets⟩
    exact ⟨device, interval, closed, (mem_iff closed search).mp inTargets⟩
  · rintro ⟨device, interval, closed, isTarget⟩
    rcases exists_deviceTargets found closed with ⟨targets, search⟩
    exact ⟨device, interval, targets, closed, search, (mem_iff closed search).mpr isTarget⟩

/-- A file that does not fit on an empty draft is over the budget on its own. -/
theorem obstacle_of_overBudget
    (full : place config sequence done .empty late = .overBudget) :
    Obstacle config done sequence late := by
  rcases (place_eq_overBudget_iff _ _ _ _ _).mp full with ⟨own, found, overflows⟩
  have missing_eq : Draft.empty.missing own = own := by
    simp [Draft.missing, Draft.empty]
  have own_distinct : own.Nodup :=
    (fileTargets?_sublist found).nodup (List.Nodup.of_map _ distinct)
  have mem_iff := mem_fileTargets?_iff_isTarget increasing distinct valid lateValid found
  refine .overBudget own_distinct mem_iff ?_
  have unfilled : Draft.empty.Filled config sequence done := .empty
  rw [missing_eq, unfilled.fits_eq_false_iff] at overflows
  simpa [Draft.count, Draft.empty, totalSize] using overflows

omit increasing valid in
/-- No sequence file holds a device of a file that was found no targets. -/
theorem obstacle_of_no_targets (closed : late.status = .closed)
    (found : fileTargets? (isAvailable others) sequence late = some []) :
    Obstacle config done sequence late := by
  refine .unplaced fun device holds file member fileHolds => ?_
  rcases (late.holds_iff device).mp holds with ⟨span, own⟩
  rcases lateValid.span?_eq_closed (closed ▸ by decide) own with ⟨interval, rfl, _⟩
  rcases exists_deviceTargets found own with ⟨targets, search⟩
  apply deviceTargets?_ne_nil search member fileHolds
  rw [List.eq_nil_iff_forall_not_mem]
  intro target inTargets
  have inNone := (mem_fileTargets?_iff distinct found target).mpr
    ⟨device, interval, targets, own, search, inTargets⟩
  contradiction

end Obstacles

/-! ## The last moment of a scan -/

section Last

variable {config : Config} {candidates : List Candidate} {sequence passed pending : List DataFile}

theorem skips_iff (config : Config) (file : DataFile) :
    config.Skips file ↔ config.admits file = true ∧ config.passesOver file = true := by
  rw [Config.Skips, Config.admits_iff, and_assoc]

/-- Passed files are selected or skipped when the candidates hold all that have not
expired. -/
theorem served_of_passed (admitted : ∀ file ∈ passed, config.admits file = true)
    (members : lateMembers candidates = config.unexpired passed) :
    ∀ file ∈ passed, file ∈ lateMembers candidates ∨ config.Skips file := by
  intro file member
  by_cases expired : config.passesOver file = true
  · exact .inr ((skips_iff config file).mpr ⟨admitted file member, expired⟩)
  · left
    rw [members]
    exact List.mem_filter.mpr ⟨member, by simp [expired]⟩

/-- When the candidates hold all passed files, what stops the scan is an obstacle at
the next file. -/
theorem workedOff_of_passed (admitted : ∀ file ∈ passed, config.admits file = true)
    (members : lateMembers candidates = config.unexpired passed)
    (distinct : (passed ++ pending).Nodup)
    (stopped : ∀ file rest, pending = file :: rest →
      ¬ config.Skips file ∧ Obstacle config candidates sequence file) :
    WorkedOff config candidates sequence (passed ++ pending) := by
  have served := served_of_passed admitted members
  cases pending with
  | nil =>
      rw [List.append_nil]
      exact .completely served
  | cons file rest =>
      rcases stopped file rest rfl with ⟨unskipped, obstacle⟩
      refine .upTo rfl served ?_ unskipped obstacle
      intro selected
      rw [members] at selected
      have apart := (List.nodup_append.mp distinct).2.2
      exact apart file (List.mem_filter.mp selected).1 file List.mem_cons_self rfl

/-- A draft that is dropped took its first file after all files of the candidates. -/
theorem workedOff_of_dropped {first : DataFile} {more : List DataFile}
    (admitted : ∀ file ∈ passed, config.admits file = true)
    (members : lateMembers candidates ++ first :: more = config.unexpired passed)
    (distinct : (passed ++ pending).Nodup)
    (obstacle : Obstacle config candidates sequence first) :
    WorkedOff config candidates sequence (passed ++ pending) := by
  rcases List.filter_eq_append_iff.mp members.symm with ⟨taken, rest, rfl, kept, restKept⟩
  obtain ⟨expired, after, rfl, allExpired, unexpired, _⟩ := List.filter_eq_cons_iff.mp restKept
  have beforeMembers : lateMembers candidates = config.unexpired (taken ++ expired) := by
    have noneLeft : expired.filter (fun file => !config.passesOver file) = [] :=
      List.filter_eq_nil_iff.mpr allExpired
    rw [Config.unexpired, List.filter_append, kept, noneLeft, List.append_nil]
  rw [List.append_assoc, List.append_assoc, List.cons_append, ← List.append_assoc] at distinct ⊢
  rw [← List.append_assoc] at admitted
  apply workedOff_of_passed (fun file member => admitted file (List.mem_append_left _ member))
    beforeMembers distinct
  rintro file tail split
  cases split
  constructor
  · rw [skips_iff]
    rintro ⟨_, isExpired⟩
    rw [isExpired] at unexpired
    contradiction
  · exact obstacle

end Last

theorem Draft.freeze?_eq_none_iff (draft : Draft) :
    draft.freeze? = none ↔ draft.sequence = [] ∨ draft.unsequence = [] := by
  rw [freeze?]
  split <;> simp_all

theorem Draft.Filled.eq_empty {config : Config} {sequence : List DataFile}
    {done : List Candidate} {draft : Draft} (filled : draft.Filled config sequence done)
    (nil : draft.unsequence = []) : draft = .empty := by
  cases filled with
  | empty => rfl
  | commit _ _ _ => simp at nil

section Terminal

variable {config : Config} {sequence : List DataFile} {final : State}
  (terminal : Terminal config sequence final)

include terminal

/-- What stops a scan at a pending file. -/
theorem stop_at_pending {file : DataFile} {rest : List DataFile}
    (pending_eq : final.pending = file :: rest) :
    ¬ config.Skips file ∧
      ((file.status ≠ .closed ∨ file.innerLevel < config.minLevel) ∨
        place config sequence final.done final.draft file = .blocked ∨
        (place config sequence final.done final.draft file = .overBudget ∧
          (final.draft.freeze? = none ∨ config.maxCandidates ≤ final.done.length + 1))) := by
  rcases final with ⟨done, draft, passed, _⟩
  cases pending_eq
  rw [skips_iff]
  rcases (terminal_cons_iff _ _ _ _ _ _ _).mp terminal with refused | ⟨unexpired, stopped⟩
  · constructor
    · rintro ⟨admitted, _⟩
      rw [refused] at admitted
      contradiction
    · left
      rw [← Bool.not_eq_true, Config.admits_iff, not_and_or, UInt32.not_le] at refused
      exact refused
  · constructor
    · rintro ⟨_, expired⟩
      rw [unexpired] at expired
      contradiction
    · exact .inr stopped

variable (increasing : sequence.Pairwise DataFile.SortsBefore)
  (sequenceDistinct : (sequence.map DataFile.id).Nodup)
  (valid : ∀ file ∈ sequence, file.Valid)
  (pendingValid : ∀ file ∈ final.pending, file.Valid)
  (distinct : (final.passed ++ final.pending).Nodup)
  (filled : final.draft.Filled config sequence final.done) (inOrder : final.InOrder config)

include increasing valid pendingValid distinct inOrder

/-- A scan whose draft becomes the last candidate. -/
theorem workedOff_of_frozen {candidate : Candidate}
    (frozen : final.draft.freeze? = some candidate)
    (room : final.done.length + 1 < config.maxCandidates) :
    WorkedOff config (final.done ++ [candidate]) sequence (final.passed ++ final.pending) := by
  have members := lateMembers_append_frozen final.done frozen
  rw [inOrder.taken] at members
  apply workedOff_of_passed inOrder.admitted members distinct
  intro file rest pending_eq
  obtain ⟨unskipped, refused | blocked | ⟨_, unfrozen | noRoom⟩⟩ :=
    stop_at_pending terminal pending_eq
  · exact ⟨unskipped, .refused refused⟩
  · have fileValid := pendingValid file (pending_eq ▸ List.mem_cons_self)
    exact ⟨unskipped, obstacle_of_blocked increasing valid fileValid blocked⟩
  · rw [frozen] at unfrozen
    contradiction
  · omega

include filled sequenceDistinct

/-- A scan whose draft is empty at the end. -/
theorem workedOff_of_empty (empty : final.draft.unsequence = []) :
    WorkedOff config final.done sequence (final.passed ++ final.pending) := by
  have members := inOrder.taken
  rw [empty, List.append_nil] at members
  apply workedOff_of_passed inOrder.admitted members distinct
  intro file rest pending_eq
  have fileValid := pendingValid file (pending_eq ▸ List.mem_cons_self)
  obtain ⟨unskipped, refused | blocked | ⟨full, _⟩⟩ := stop_at_pending terminal pending_eq
  · exact ⟨unskipped, .refused refused⟩
  · rw [← List.append_nil final.done]
    exact ⟨unskipped, obstacle_of_blocked increasing valid fileValid blocked⟩
  · rw [filled.eq_empty empty] at full
    exact ⟨unskipped,
      obstacle_of_overBudget increasing sequenceDistinct valid fileValid full⟩

end Terminal

/-- A scan that drops its draft, which then holds unsequence files without targets. -/
theorem workedOff_of_unfrozen {config : Config} {sequence : List DataFile} {final : State}
    (sequenceDistinct : (sequence.map DataFile.id).Nodup)
    (passedValid : ∀ file ∈ final.passed, file.Valid)
    (distinct : (final.passed ++ final.pending).Nodup)
    (filled : final.draft.Filled config sequence final.done) (inOrder : final.InOrder config)
    (dropped : final.draft.sequence = []) {first : DataFile} {more : List DataFile}
    (opened : final.draft.unsequence = first :: more) :
    WorkedOff config final.done sequence (final.passed ++ final.pending) := by
  have members := inOrder.taken
  rw [opened] at members
  apply workedOff_of_dropped inOrder.admitted members distinct
  have isMember : first ∈ final.draft.unsequence := opened ▸ List.mem_cons_self
  have isPassed : first ∈ final.passed := by
    have listed : first ∈ config.unexpired final.passed :=
      members ▸ List.mem_append_right _ List.mem_cons_self
    exact (List.mem_filter.mp listed).1
  have closed := ((config.admits_iff first).mp (inOrder.admitted first isPassed)).1
  rcases filled.exists_targets isMember with ⟨own, found⟩
  have own_eq : own = [] := by
    rw [List.eq_nil_iff_forall_not_mem]
    intro target inOwn
    have inDraft := (filled.mem_sequence_iff sequenceDistinct target).mpr
      ⟨first, isMember, own, found, inOwn⟩
    rw [dropped] at inDraft
    contradiction
  rw [own_eq] at found
  exact obstacle_of_no_targets sequenceDistinct (passedValid first isPassed) closed found

/-- A selection that could have made more candidates has worked off all unsequence
files up to the first obstacle. -/
theorem selected_up_to_obstacle {registry : Registry} {key : PartitionKey} {config : Config}
    {sequence unsequence early late : List DataFile} {candidates : List Candidate}
    (reachable : registry.Reachable)
    (resolved : resolveInput (registry.snapshot key) sequence unsequence = .ok (early, late))
    (selected : selectFrom config (registry.snapshot key) sequence unsequence = .ok candidates)
    (room : candidates.length < config.maxCandidates) :
    WorkedOff config candidates early late := by
  have facts := resolved_of_resolveInput resolved
  have valid : ∀ file ∈ early ++ late, file.Valid :=
    fun file member => valid_of_resolved reachable resolved member
  have earlyValid : ∀ file ∈ early, file.Valid :=
    fun file member => valid file (List.mem_append_left late member)
  rcases selectFrom_eq_ok resolved selected with ⟨zero, _⟩ | ⟨_, final, run, terminal, rfl⟩
  · omega
  have late_eq : late = final.passed ++ final.pending := (passed_append_pending run).symm
  have distinct : late.Nodup := List.Nodup.of_map DataFile.id facts.late_distinct
  have lateValid : ∀ file ∈ final.passed ++ final.pending, file.Valid :=
    fun file member => valid file (List.mem_append_right early (late_eq ▸ member))
  have filled := (frozenInTurn_of_run run .empty (frozenInTurn_nil config early)).1
  have inOrder := (inOrder_initial config late).run run
  rw [late_eq] at distinct ⊢
  rw [State.result, closeScan] at room ⊢
  cases freezing : final.draft.freeze? with
  | some candidate =>
      rw [freezing, Option.toList_some, List.length_append] at room
      exact workedOff_of_frozen terminal facts.increasing earlyValid
        (fun file member => lateValid file (List.mem_append_right _ member)) distinct inOrder
        freezing room
  | none =>
      rw [Option.toList_none, List.append_nil]
      cases opened : final.draft.unsequence with
      | nil =>
          exact workedOff_of_empty terminal facts.increasing facts.early_distinct earlyValid
            (fun file member => lateValid file (List.mem_append_right _ member)) distinct filled
            inOrder opened
      | cons first more =>
          have dropped : final.draft.sequence = [] := by
            have lacking := (Draft.freeze?_eq_none_iff _).mp freezing
            rw [opened] at lacking
            exact lacking.resolve_right (List.cons_ne_nil first more)
          exact workedOff_of_unfrozen facts.early_distinct
            (fun file member => lateValid file (List.mem_append_left _ member)) distinct filled
            inOrder dropped opened

theorem selected_up_to_obstacle_sample :
    WorkedOff Sample.config Sample.candidates Sample.sequence Sample.unsequence :=
  selected_up_to_obstacle Sample.registry_reachable Sample.resolveInput_registry
    Sample.selectFrom_registry (by decide)

end Selection

end SeriesStore
