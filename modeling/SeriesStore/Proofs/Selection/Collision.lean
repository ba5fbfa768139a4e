import SeriesStore.Proofs.Selection.TimeOrder

/-!
# Candidates that reach into each other

Each candidate of a selection keeps clear of the sequence files outside it, but a
selection does not look at what its candidates grow to.  The merged data of two
members of different candidates collides in two ways only: the members overlap
themselves, or they lie in one gap between sequence files and are bound crosswise,
the first of them to the file that follows both and the other to the file that
precedes both.
-/

namespace SeriesStore

namespace Selection

/-- The least interval that covers an interval of a device and all files into which
it is merged. -/
def IsMerged (earlier : List Candidate) (sequence : List DataFile) (device : String)
    (interval cover : Interval) : Prop :=
  cover.IsHull fun part => part = interval ∨
    ∃ file, IsTarget (Available earlier) sequence device interval file ∧
      file.span? device = some (.closed part)

/-- Two intervals of a device of which the second lies after the first, and yet the
first is merged into a file after both and the second into a file before both. -/
structure Crossed (earlier before : List Candidate) (sequence : List DataFile)
    (device : String) (first second : Interval) : Prop where
  apart : first.stop < second.start
  beyond : ∃ next, IsTarget (Available earlier) sequence device first next ∧
    next.StartsAfter device second.stop
  behind : ∃ previous, IsTarget (Available before) sequence device second previous ∧
    previous.EndsBefore device first.start

/-! ## Targets on one side -/

section Sides

variable {available : DataFile → Prop} {sequence : List DataFile} {device : String}
  {interval : Interval} {file : DataFile}
  (target : IsTarget available sequence device interval file)

include target

/-- A target after the interval is the file that follows it. -/
theorem IsTarget.follows (valid : file.Valid) (inOrder : interval.Ordered)
    (after : file.StartsAfter device interval.stop) :
    IsFirst sequence (fun other => other.StartsAfter device interval.stop) file ∧
      available file := by
  rcases after with ⟨span, found, starts⟩
  cases target with
  | overlapping _ overlaps =>
      rcases overlaps with ⟨_, again, reaches⟩
      cases found.symm.trans again
      exact absurd reaches ((span.not_overlaps_iff interval).mpr (.inl starts))
  | following _ first free => exact ⟨first, free⟩
  | preceding _ _ last _ =>
      rcases last.2.1 with ⟨_, again, before⟩
      cases found.symm.trans again
      have low : interval.start ≤ span.start := Int64.le_of_lt (Int64.lt_of_le_of_lt inOrder starts)
      exact absurd before (valid.not_endsBefore_start found low)

/-- Only when the file that follows is taken does a target lie before the interval. -/
theorem IsTarget.next_taken (valid : file.Valid) (inOrder : interval.Ordered)
    (before : file.EndsBefore device interval.start) :
    ∀ next, IsFirst sequence (fun other => other.StartsAfter device interval.stop) next →
      ¬ available next := by
  rcases before with ⟨span, found, ends⟩
  cases target with
  | overlapping _ overlaps =>
      rcases overlaps with ⟨_, again, reaches⟩
      cases found.symm.trans again
      exact absurd reaches ((span.not_overlaps_iff interval).mpr (.inr ends))
  | following _ first _ =>
      rcases first.2.1 with ⟨_, again, starts⟩
      cases found.symm.trans again
      have low : interval.start ≤ span.start := Int64.le_of_lt (Int64.lt_of_le_of_lt inOrder starts)
      exact absurd ends (valid.not_endsBefore_start found low)
  | preceding _ taken _ _ => exact taken

end Sides

/-! ## What an interval is merged into -/

/-- All files into which an interval is merged. -/
structure MergedInto (earlier : List Candidate) (sequence : List DataFile) (device : String)
    (interval : Interval) (targets : List DataFile) : Prop where
  inOrder : interval.Ordered
  mem_iff : ∀ file, file ∈ targets ↔
    IsTarget (Available earlier) sequence device interval file
  closed : ∀ file ∈ targets, ∃ own, file.span? device = some (.closed own)

/-- The closed intervals of a device in files. -/
def ownIntervals (device : String) (files : List DataFile) : List Interval :=
  files.filterMap fun file => file.interval? device

theorem mem_ownIntervals (device : String) (files : List DataFile) (part : Interval) :
    part ∈ ownIntervals device files ↔
      ∃ file ∈ files, file.span? device = some (.closed part) := by
  simp only [ownIntervals, List.mem_filterMap, DataFile.interval?_eq_some_iff]

theorem isMerged_hull {earlier : List Candidate} {sequence targets : List DataFile}
    {device : String} {interval : Interval}
    (mem_iff : ∀ file, file ∈ targets ↔
      IsTarget (Available earlier) sequence device interval file) :
    IsMerged earlier sequence device interval
      (interval.hull (ownIntervals device targets)) := by
  apply (Interval.isHull_hull interval _).congr
  intro part
  simp only [List.mem_cons, mem_ownIntervals, mem_iff]

namespace MergedInto

variable {earlier before : List Candidate} {sequence : List DataFile} {device : String}
  {first second : Interval} {firstTargets secondTargets : List DataFile}
  (merged : MergedInto earlier sequence device first firstTargets)
  (other : MergedInto before sequence device second secondTargets)

include merged

theorem exists_own (ne : firstTargets ≠ []) : ∃ own, own ∈ ownIntervals device firstTargets := by
  rcases List.exists_mem_of_ne_nil _ ne with ⟨file, inTargets⟩
  rcases merged.closed file inTargets with ⟨own, found⟩
  exact ⟨own, (mem_ownIntervals _ _ _).mpr ⟨file, inTargets, found⟩⟩

theorem ownIntervals_ordered (valid : ∀ file ∈ sequence, file.Valid) :
    ∀ own ∈ ownIntervals device firstTargets, own.Ordered := by
  intro own listed
  rcases (mem_ownIntervals _ _ _).mp listed with ⟨file, inTargets, found⟩
  exact (valid file ((merged.mem_iff file).mp inTargets).mem).ordered_of_span? found

variable (ordered : PerDeviceOrdered sequence) (valid : ∀ file ∈ sequence, file.Valid)
  (distinct : (sequence.map DataFile.id).Nodup)

include other ordered valid distinct

theorem keepClear (disjoint : firstTargets.Disjoint secondTargets) :
    Interval.KeepClear (ownIntervals device secondTargets) first
      (ownIntervals device firstTargets) := by
  intro part listed
  rcases (mem_ownIntervals _ _ _).mp listed with ⟨file, inSecond, found⟩
  have member := ((other.mem_iff file).mp inSecond).mem
  have noTarget : ¬ IsTarget (Available earlier) sequence device first file :=
    fun isTarget => disjoint ((merged.mem_iff file).mpr isTarget) inSecond
  have targets : ∀ own ∈ ownIntervals device firstTargets, ∃ target,
      IsTarget (Available earlier) sequence device first target ∧
        target.span? device = some (.closed own) := by
    intro own ownListed
    rcases (mem_ownIntervals _ _ _).mp ownListed with ⟨target, inFirst, targetFound⟩
    exact ⟨target, (merged.mem_iff target).mp inFirst, targetFound⟩
  have sides :=
    clear_of_not_isTarget ordered valid distinct merged.inOrder targets member noTarget found
  simpa only [DeviceSpan.start_closed, DeviceSpan.endsBefore_closed] using sides

omit ordered distinct in
/-- The first interval is not passed over for a file that the second is merged into
later, so intervals are never bound crosswise the other way round. -/
theorem not_crossed_back (fewer : ∀ file, Available before file → Available earlier file)
    (apart : second.stop < first.start) {previous next : DataFile}
    (isPrevious : previous ∈ firstTargets) (behind : previous.EndsBefore device second.start)
    (isNext : next ∈ secondTargets) (beyond : next.StartsAfter device first.stop) : False := by
  have previousTarget := (merged.mem_iff previous).mp isPrevious
  have nextTarget := (other.mem_iff next).mp isNext
  have farBehind : previous.EndsBefore device first.start := by
    rcases behind with ⟨span, found, ends⟩
    have low : second.start ≤ first.start :=
      Int64.le_of_lt (Int64.lt_of_le_of_lt other.inOrder apart)
    exact ⟨span, found, ends.mono low⟩
  have startsAfter : ∀ file : DataFile,
      file.StartsAfter device first.stop → file.StartsAfter device second.stop := by
    rintro file ⟨span, found, starts⟩
    have low : second.stop < first.stop := Int64.lt_of_lt_of_le apart merged.inOrder
    exact ⟨span, found, Int64.lt_trans low starts⟩
  obtain ⟨⟨member, _, least⟩, free⟩ :=
    nextTarget.follows (valid next nextTarget.mem) other.inOrder (startsAfter next beyond)
  have isFirst : IsFirst sequence (fun other => other.StartsAfter device first.stop) next :=
    ⟨member, beyond, fun other listed starts => least other listed (startsAfter other starts)⟩
  have taken :=
    previousTarget.next_taken (valid previous previousTarget.mem) merged.inOrder farBehind
  exact taken next isFirst (fewer next free)

variable {low high : Interval}

/-- Where the targets of the first interval come first, the intervals must come in
the same order. -/
theorem overlaps_iff_of_before (fewer : ∀ file, Available before file → Available earlier file)
    (disjoint : firstTargets.Disjoint secondTargets)
    (isLow : low ∈ ownIntervals device firstTargets)
    (isHigh : high ∈ ownIntervals device secondTargets) (apart : low.stop < high.start) :
    (first.hull (ownIntervals device firstTargets)).Overlaps
        (second.hull (ownIntervals device secondTargets)) ↔
      first.Overlaps second ∨ Crossed earlier before sequence device first second := by
  have firstClear := other.keepClear merged ordered valid distinct disjoint.symm
  have secondClear := merged.keepClear other ordered valid distinct disjoint
  have firstOwn := merged.ownIntervals_ordered valid
  have secondOwn := other.ownIntervals_ordered valid
  obtain ⟨allBefore, allAfter⟩ :=
    firstClear.same_side firstOwn secondOwn isLow isHigh secondClear apart
  rw [Interval.hulls_overlap_iff firstClear firstOwn secondOwn isLow isHigh secondClear apart]
  constructor
  · intro reaches
    left
    refine ⟨?_, reaches⟩
    rw [← Int64.not_lt]
    intro reversed
    rcases (mem_ownIntervals _ _ _).mp isLow with ⟨previous, isPrevious, previousFound⟩
    rcases (mem_ownIntervals _ _ _).mp isHigh with ⟨next, isNext, nextFound⟩
    have behind := allBefore low isLow second List.mem_cons_self
    have beyond := allAfter high isHigh first List.mem_cons_self
    exact merged.not_crossed_back other valid fewer reversed isPrevious
      ⟨_, previousFound, behind⟩ isNext ⟨_, nextFound, beyond⟩
  · rintro (overlaps | crossed)
    · exact overlaps.2
    · -- A target of the second interval would lie before the first.
      exfalso
      rcases crossed.behind with ⟨previous, isTarget, span, found, behind⟩
      have isPrevious := (other.mem_iff previous).mpr isTarget
      rcases other.closed previous isPrevious with ⟨own, closed⟩
      cases found.symm.trans closed
      have listed := (mem_ownIntervals _ _ _).mpr ⟨previous, isPrevious, closed⟩
      have after := allAfter own listed first List.mem_cons_self
      exact merged.inOrder.asymm (secondOwn own listed) after behind

/-- Where the targets of the second interval come first, the intervals collide unless
the second one does so too. -/
theorem overlaps_iff_of_after (disjoint : firstTargets.Disjoint secondTargets)
    (isHigh : high ∈ ownIntervals device firstTargets)
    (isLow : low ∈ ownIntervals device secondTargets) (apart : low.stop < high.start) :
    (first.hull (ownIntervals device firstTargets)).Overlaps
        (second.hull (ownIntervals device secondTargets)) ↔
      first.Overlaps second ∨ Crossed earlier before sequence device first second := by
  have firstClear := other.keepClear merged ordered valid distinct disjoint.symm
  have secondClear := merged.keepClear other ordered valid distinct disjoint
  have firstOwn := merged.ownIntervals_ordered valid
  have secondOwn := other.ownIntervals_ordered valid
  obtain ⟨allBefore, allAfter⟩ :=
    secondClear.same_side secondOwn firstOwn isLow isHigh firstClear apart
  rw [Interval.overlaps_comm,
    Interval.hulls_overlap_iff secondClear secondOwn firstOwn isLow isHigh firstClear apart]
  constructor
  · intro reaches
    by_cases inOrder : first.stop < second.start
    · right
      rcases (mem_ownIntervals _ _ _).mp isHigh with ⟨next, isNext, nextFound⟩
      rcases (mem_ownIntervals _ _ _).mp isLow with ⟨previous, isPrevious, previousFound⟩
      constructor
      case apart => exact inOrder
      case beyond =>
        have starts := allAfter high isHigh second List.mem_cons_self
        exact ⟨next, (merged.mem_iff next).mp isNext, _, nextFound, starts⟩
      case behind =>
        have ends := allBefore low isLow first List.mem_cons_self
        exact ⟨previous, (other.mem_iff previous).mp isPrevious, _, previousFound, ends⟩
    · exact .inl ⟨reaches, Int64.not_lt.mp inOrder⟩
  · rintro (overlaps | crossed)
    · exact overlaps.1
    · apply Int64.le_of_lt
      exact Int64.lt_of_le_of_lt merged.inOrder (Int64.lt_of_lt_of_le crossed.apart other.inOrder)

/-- What two intervals are merged into overlaps exactly if the intervals do or if
they are bound crosswise. -/
theorem overlaps_iff (fewer : ∀ file, Available before file → Available earlier file)
    (disjoint : firstTargets.Disjoint secondTargets)
    (nil_iff : firstTargets = [] ↔ secondTargets = []) :
    (first.hull (ownIntervals device firstTargets)).Overlaps
        (second.hull (ownIntervals device secondTargets)) ↔
      first.Overlaps second ∨ Crossed earlier before sequence device first second := by
  by_cases nil : firstTargets = []
  · -- No sequence file holds the device, so nothing is merged.
    rw [nil_iff.mp nil, nil]
    constructor
    · exact .inl
    · rintro (overlaps | crossed)
      · exact overlaps
      · rcases crossed.beyond with ⟨next, isTarget, _⟩
        have isNext := (merged.mem_iff next).mpr isTarget
        rw [nil] at isNext
        contradiction
  · rcases merged.exists_own nil with ⟨own, isOwn⟩
    rcases other.exists_own (mt nil_iff.mpr nil) with ⟨otherOwn, isOther⟩
    rcases merged.keepClear other ordered valid distinct disjoint otherOwn isOther with
      after | before
    · exact merged.overlaps_iff_of_before other ordered valid distinct fewer disjoint isOwn
        isOther (after own (List.mem_cons_of_mem first isOwn))
    · exact merged.overlaps_iff_of_after other ordered valid distinct disjoint isOwn
        isOther (before own (List.mem_cons_of_mem first isOwn))

end MergedInto

/-- What the search for a device finds tells what an interval is merged into. -/
theorem isMerged_of_deviceTargets? {earlier : List Candidate} {sequence targets : List DataFile}
    {device : String} {interval : Interval} (increasing : sequence.Pairwise DataFile.SortsBefore)
    (valid : ∀ file ∈ sequence, file.Valid) (inOrder : interval.Ordered)
    (search : deviceTargets? (isAvailable earlier) sequence device interval = some targets) :
    IsMerged earlier sequence device interval
      (interval.hull (ownIntervals device targets)) := by
  apply isMerged_hull
  intro file
  rw [mem_deviceTargets?_iff increasing valid inOrder search]
  simp only [isAvailable_iff]

/-! ## Members of a selection -/

section Selected

variable {registry : Registry} {key : PartitionKey} {config : Config}
  {sequence unsequence early late : List DataFile} {candidates earlier later : List Candidate}
  {candidate : Candidate} (reachable : registry.Reachable)
  (resolved : resolveInput (registry.snapshot key) sequence unsequence = .ok (early, late))
  (selected : selectFrom config (registry.snapshot key) sequence unsequence = .ok candidates)
  (split : candidates = earlier ++ candidate :: later)

include reachable resolved selected split

/-- Every device of an unsequence member is merged into sequence members, unless no
sequence file holds it. -/
theorem exists_mergedInto {member : DataFile} (taken : member ∈ candidate.unsequence)
    {device : String} (holds : member.holds device = true) :
    ∃ interval targets, member.span? device = some (.closed interval) ∧
      MergedInto earlier early device interval targets ∧
      (∀ file ∈ targets, file ∈ candidate.sequence) ∧
      (targets = [] ↔ ∀ file ∈ early, ¬ file.holds device = true) := by
  have isMember : member ∈ candidate.files := List.mem_append_right _ taken
  rcases (member.holds_iff device).mp holds with ⟨_, found⟩
  rcases closed_span_of_member reachable resolved selected split isMember found with
    ⟨interval, rfl, inOrder⟩
  obtain ⟨targets, search, isTarget_iff, members⟩ :=
    exists_device_targets reachable resolved selected split taken found
  refine ⟨interval, targets, found, ⟨inOrder, isTarget_iff, ?_⟩, members, ?_⟩
  · intro file inTargets
    have inFiles : file ∈ candidate.files := List.mem_append_left _ (members file inTargets)
    rcases ((isTarget_iff file).mp inTargets).exists_span with ⟨_, fileFound⟩
    rcases closed_span_of_member reachable resolved selected split inFiles fileFound with
      ⟨own, rfl, _⟩
    exact ⟨own, fileFound⟩
  · constructor
    · intro nil file listed fileHolds
      exact deviceTargets?_ne_nil search listed fileHolds nil
    · intro absent
      rw [List.eq_nil_iff_forall_not_mem]
      intro file inTargets
      have isTarget := (isTarget_iff file).mp inTargets
      rcases isTarget.exists_span with ⟨span, fileFound⟩
      exact absent file isTarget.mem ((file.holds_iff device).mpr ⟨span, fileFound⟩)

end Selected

/-- The merged data of members of two candidates overlaps exactly if the members do or
if they are bound crosswise. -/
theorem merged_overlap_iff {registry : Registry} {key : PartitionKey} {config : Config}
    {sequence unsequence early late : List DataFile}
    {candidates earlier middle later : List Candidate} {former latter : Candidate}
    (reachable : registry.Reachable)
    (resolved : resolveInput (registry.snapshot key) sequence unsequence = .ok (early, late))
    (selected : selectFrom config (registry.snapshot key) sequence unsequence = .ok candidates)
    (split : candidates = earlier ++ former :: (middle ++ latter :: later))
    (ordered : PerDeviceOrdered early) {first second : DataFile}
    (firstTaken : first ∈ former.unsequence) (secondTaken : second ∈ latter.unsequence)
    {device : String} (firstHolds : first.holds device = true)
    (secondHolds : second.holds device = true) :
    ∃ firstInterval secondInterval firstCover secondCover,
      first.span? device = some (.closed firstInterval) ∧
      second.span? device = some (.closed secondInterval) ∧
      IsMerged earlier early device firstInterval firstCover ∧
      IsMerged (earlier ++ former :: middle) early device secondInterval secondCover ∧
      (firstCover.Overlaps secondCover ↔ firstInterval.Overlaps secondInterval ∨
        Crossed earlier (earlier ++ former :: middle) early device firstInterval
          secondInterval) := by
  have facts := resolved_of_resolveInput resolved
  have valid : ∀ file ∈ early, file.Valid := by
    intro file listed
    exact valid_of_resolved reachable resolved (List.mem_append_left late listed)
  have secondSplit : candidates = (earlier ++ former :: middle) ++ latter :: later := by
    rw [split]
    simp
  obtain ⟨firstInterval, firstTargets, firstFound, firstMerged, firstMembers, firstNil⟩ :=
    exists_mergedInto reachable resolved selected split firstTaken firstHolds
  obtain ⟨secondInterval, secondTargets, secondFound, secondMerged, secondMembers, secondNil⟩ :=
    exists_mergedInto reachable resolved selected secondSplit secondTaken secondHolds
  have disjoint : firstTargets.Disjoint secondTargets := by
    intro file inFirst inSecond
    have frozen := frozenInTurn_of_selectFrom resolved selected _ _ _ secondSplit
    have available := (frozen.mem_sequence facts.early_distinct (secondMembers file inSecond)).2
    have isFormer : former ∈ earlier ++ former :: middle :=
      List.mem_append_right _ List.mem_cons_self
    apply available.2 former isFormer
    exact List.mem_map_of_mem (List.mem_append_left _ (firstMembers file inFirst))
  have overlaps_iff := firstMerged.overlaps_iff secondMerged ordered valid facts.early_distinct
    (fun _ => Available.of_append) disjoint (firstNil.trans secondNil.symm)
  exact ⟨firstInterval, secondInterval, _, _, firstFound, secondFound,
    isMerged_hull firstMerged.mem_iff, isMerged_hull secondMerged.mem_iff, overlaps_iff⟩

end Selection

namespace Sample

open Selection

/-- Two files in the last gap between the sequence files, and two that share a device
no sequence file holds. -/
def crowd : List DataFile :=
  [ file .unsequence .closed 11 [("a", ⟨32, 33⟩), ("b", ⟨0, 5⟩)],
    file .unsequence .closed 12 [("a", ⟨36, 37⟩)],
    file .unsequence .closed 13 [("a", ⟨5, 8⟩), ("b", ⟨3, 4⟩)] ]

def crowdedRegistry : Registry :=
  (Registry.empty.serve (.addAll key .sequence sequence)).serve (.addAll key .unsequence crowd)

def front : Candidate :=
  ⟨[file .sequence .closed 3 [("a", ⟨40, 50⟩)]],
    [file .unsequence .closed 11 [("a", ⟨32, 33⟩), ("b", ⟨0, 5⟩)]], 140⟩

def back : Candidate :=
  ⟨[file .sequence .closed 2 [("a", ⟨20, 30⟩)]],
    [file .unsequence .closed 12 [("a", ⟨36, 37⟩)]], 140⟩

def aside : Candidate :=
  ⟨[file .sequence .closed 1 [("a", ⟨0, 10⟩)]],
    [file .unsequence .closed 13 [("a", ⟨5, 8⟩), ("b", ⟨3, 4⟩)]], 140⟩

theorem crowded_eq_append :
    [front, back, aside] = [] ++ front :: ([] ++ back :: [aside]) := rfl

theorem resolveInput_crowdedRegistry :
    resolveInput (crowdedRegistry.snapshot key) sequence crowd = .ok (sequence, crowd) := by
  cbv

theorem selectFrom_crowdedRegistry :
    selectFrom config (crowdedRegistry.snapshot key) sequence crowd =
      .ok [front, back, aside] := by
  cbv

theorem crowdedRegistry_reachable : crowdedRegistry.Reachable :=
  (Registry.Reachable.empty.served _).served _

theorem isMerged_sequence {earlier : List Candidate} {device : String}
    {interval cover : Interval} {targets : List DataFile}
    (search : deviceTargets? (isAvailable earlier) sequence device interval = some targets)
    (cover_eq : cover = interval.hull (ownIntervals device targets))
    (inOrder : interval.Ordered) : IsMerged earlier sequence device interval cover := by
  rw [cover_eq]
  have facts := resolved_of_resolveInput resolveInput_crowdedRegistry
  apply isMerged_of_deviceTargets? facts.increasing _ inOrder search
  intro own listed
  exact valid_of_resolved crowdedRegistry_reachable resolveInput_crowdedRegistry
    (List.mem_append_left crowd listed)

end Sample

namespace Selection

/-- Two candidates whose members are bound crosswise collide although the members keep
clear of each other. -/
theorem merged_overlap_iff_sample :
    ∃ firstInterval secondInterval firstCover secondCover,
      (Sample.file .unsequence .closed 11 [("a", ⟨32, 33⟩), ("b", ⟨0, 5⟩)]).span? "a" =
        some (.closed firstInterval) ∧
      (Sample.file .unsequence .closed 12 [("a", ⟨36, 37⟩)]).span? "a" =
        some (.closed secondInterval) ∧
      IsMerged [] Sample.sequence "a" firstInterval firstCover ∧
      IsMerged ([] ++ Sample.front :: []) Sample.sequence "a" secondInterval secondCover ∧
      (firstCover.Overlaps secondCover ↔ firstInterval.Overlaps secondInterval ∨
        Crossed [] ([] ++ Sample.front :: []) Sample.sequence "a" firstInterval
          secondInterval) :=
  merged_overlap_iff Sample.crowdedRegistry_reachable Sample.resolveInput_crowdedRegistry
    Sample.selectFrom_crowdedRegistry Sample.crowded_eq_append Sample.perDeviceOrdered_sequence
    List.mem_cons_self List.mem_cons_self (by decide) (by decide)

/-- Candidates of one selection may collide.  On the first device two members keep
clear of each other but are bound crosswise, on the second two members overlap. -/
theorem selected_may_collide :
    Sample.crowdedRegistry.Reachable ∧
      resolveInput (Sample.crowdedRegistry.snapshot Sample.key) Sample.sequence Sample.crowd =
        .ok (Sample.sequence, Sample.crowd) ∧
      selectFrom Sample.config (Sample.crowdedRegistry.snapshot Sample.key) Sample.sequence
        Sample.crowd = .ok [Sample.front, Sample.back, Sample.aside] ∧
      PerDeviceOrdered Sample.sequence ∧
      (∃ first ∈ Sample.front.unsequence, ∃ second ∈ Sample.back.unsequence,
        first.span? "a" = some (.closed ⟨32, 33⟩) ∧
        second.span? "a" = some (.closed ⟨36, 37⟩) ∧
        IsMerged [] Sample.sequence "a" ⟨32, 33⟩ ⟨32, 50⟩ ∧
        IsMerged [Sample.front] Sample.sequence "a" ⟨36, 37⟩ ⟨20, 37⟩ ∧
        Interval.Overlaps ⟨32, 50⟩ ⟨20, 37⟩ ∧ ¬ Interval.Overlaps ⟨32, 33⟩ ⟨36, 37⟩) ∧
      ∃ first ∈ Sample.front.unsequence, ∃ second ∈ Sample.aside.unsequence,
        first.span? "b" = some (.closed ⟨0, 5⟩) ∧
        second.span? "b" = some (.closed ⟨3, 4⟩) ∧
        IsMerged [] Sample.sequence "b" ⟨0, 5⟩ ⟨0, 5⟩ ∧
        IsMerged [Sample.front, Sample.back] Sample.sequence "b" ⟨3, 4⟩ ⟨3, 4⟩ ∧
        Interval.Overlaps ⟨0, 5⟩ ⟨3, 4⟩ := by
  have searchFront : deviceTargets? (isAvailable []) Sample.sequence "a" ⟨32, 33⟩ =
      some Sample.front.sequence := by cbv
  have searchBack : deviceTargets? (isAvailable [Sample.front]) Sample.sequence "a" ⟨36, 37⟩ =
      some Sample.back.sequence := by cbv
  have searchNone : deviceTargets? (isAvailable []) Sample.sequence "b" ⟨0, 5⟩ = some [] := by cbv
  have searchLast : deviceTargets? (isAvailable [Sample.front, Sample.back]) Sample.sequence "b"
      ⟨3, 4⟩ = some [] := by cbv
  refine ⟨Sample.crowdedRegistry_reachable, Sample.resolveInput_crowdedRegistry,
    Sample.selectFrom_crowdedRegistry, Sample.perDeviceOrdered_sequence, ?_, ?_⟩
  · exact ⟨_, List.mem_cons_self, _, List.mem_cons_self, by decide, by decide,
      Sample.isMerged_sequence searchFront (by cbv) (by decide),
      Sample.isMerged_sequence searchBack (by cbv) (by decide), by decide, by decide⟩
  · exact ⟨_, List.mem_cons_self, _, List.mem_cons_self, by decide, by decide,
      Sample.isMerged_sequence searchNone rfl (by decide),
      Sample.isMerged_sequence searchLast rfl (by decide), by decide⟩

end Selection

end SeriesStore
