import SeriesStore.Proofs.Selection.Cover
import SeriesStore.Proofs.Time.Hull

/-!
# Candidates keep the order in time

When the sequence files hold the data of every device one after the other, the
merged data of a device does not reach into a file outside the candidate.  A file
that is not a target lies on one side of the interval, and the targets do not lie
beyond it on that side: an overlapping target reaches into the interval, and a
neighbour is the nearest file on its own side.
-/

namespace SeriesStore

/-- Whether files hold the data of each device in the order in which they are
sorted. -/
def PerDeviceOrdered (files : List DataFile) : Prop :=
  ∀ first ∈ files, ∀ second ∈ files, first.SortsBefore second →
    ∀ device firstSpan secondSpan, first.span? device = some firstSpan →
      second.span? device = some secondSpan → firstSpan.EndsBefore secondSpan.start

namespace Sample

theorem perDeviceOrdered_sequence : PerDeviceOrdered sequence := by
  intro first firstMem second secondMem low device firstSpan secondSpan firstFound secondFound
  simp only [sequence, List.mem_cons, List.not_mem_nil, or_false] at firstMem secondMem
  rcases firstMem with rfl | rfl | rfl <;> rcases secondMem with rfl | rfl | rfl <;>
    rw [span?_file_iff] at firstFound secondFound <;>
    rw [firstFound.2, secondFound.2] <;>
    revert low <;> decide

end Sample

namespace DataFile

/-- The closed interval of a device. -/
def interval? (file : DataFile) (device : String) : Option Interval :=
  match file.span? device with
  | some (.closed interval) => some interval
  | _ => none

theorem interval?_eq_some_iff (file : DataFile) (device : String) (interval : Interval) :
    file.interval? device = some interval ↔ file.span? device = some (.closed interval) := by
  rw [interval?]
  split
  · rename_i own found
    simp [found]
  · rename_i other
    simp only [reduceCtorEq, false_iff]
    exact other interval

/-- A span of a valid file that ends before a time starts before it. -/
theorem Valid.start_lt_of_endsBefore {file : DataFile} (valid : file.Valid) {device : String}
    {span : DeviceSpan} (found : file.span? device = some span) {time : Timestamp}
    (before : span.EndsBefore time) : span.start < time := by
  rw [← Int64.not_le]
  intro low
  exact valid.not_endsBefore_start found low before

end DataFile

namespace Selection

section Targets

variable {available : DataFile → Prop} {files : List DataFile} {device : String}
  {interval : Interval} {target other : DataFile} {targetSpan otherSpan : DeviceSpan}
  (ordered : PerDeviceOrdered files) (valid : ∀ file ∈ files, file.Valid)
  (distinct : (files.map DataFile.id).Nodup)

theorem id_ne_of_ne {first second : DataFile} (distinct : (files.map DataFile.id).Nodup)
    (firstMem : first ∈ files) (secondMem : second ∈ files) (ne : first ≠ second) :
    first.id ≠ second.id :=
  fun same => ne (List.inj_on_of_nodup_map distinct firstMem secondMem same)

include ordered valid distinct

/-- A file before the interval stands before every target. -/
theorem sortsBefore_target (inOrder : interval.Ordered)
    (isTarget : IsTarget available files device interval target)
    (targetFound : target.span? device = some targetSpan) (member : other ∈ files)
    (ne : other ≠ target) (otherFound : other.span? device = some otherSpan)
    (before : otherSpan.EndsBefore interval.start) : other.SortsBefore target := by
  have unlessBefore : ¬ targetSpan.EndsBefore interval.start → other.SortsBefore target := by
    intro notBefore
    have idNe := id_ne_of_ne distinct member isTarget.mem ne
    rcases DataFile.sortsBefore_or_of_id_ne idNe with low | high
    · exact low
    · exfalso
      apply notBefore
      have apart := ordered target isTarget.mem other member high device _ _ targetFound otherFound
      apply apart.mono
      exact Int64.le_of_lt ((valid other member).start_lt_of_endsBefore otherFound before)
  cases isTarget with
  | overlapping _ overlaps =>
      apply unlessBefore
      intro targetBefore
      rcases overlaps with ⟨_, found, reaches⟩
      cases targetFound.symm.trans found
      exact (targetSpan.not_overlaps_iff interval).mpr (.inr targetBefore) reaches
  | following _ first _ =>
      apply unlessBefore
      obtain ⟨targetMem, ⟨_, found, after⟩, _⟩ := first
      cases targetFound.symm.trans found
      apply (valid target targetMem).not_endsBefore_start targetFound
      exact Int64.le_of_lt (Int64.lt_of_le_of_lt inOrder after)
  | preceding _ _ last _ => exact last.2.2 other member ⟨_, otherFound, before⟩ ne

/-- A file after the interval stands after every target. -/
theorem target_sortsBefore (inOrder : interval.Ordered)
    (isTarget : IsTarget available files device interval target)
    (targetFound : target.span? device = some targetSpan) (member : other ∈ files)
    (ne : other ≠ target) (otherFound : other.span? device = some otherSpan)
    (after : interval.stop < otherSpan.start) : target.SortsBefore other := by
  have unlessAfter : ¬ interval.stop < targetSpan.start → target.SortsBefore other := by
    intro notAfter
    have idNe := id_ne_of_ne distinct isTarget.mem member ne.symm
    rcases DataFile.sortsBefore_or_of_id_ne idNe with low | high
    · exact low
    · exfalso
      have apart := ordered other member target isTarget.mem high device _ _ otherFound targetFound
      apply (valid other member).not_endsBefore_start otherFound _ apart
      exact Int64.le_of_lt (Int64.lt_of_le_of_lt (Int64.not_lt.mp notAfter) after)
  cases isTarget with
  | overlapping _ overlaps =>
      apply unlessAfter
      intro targetAfter
      rcases overlaps with ⟨_, found, reaches⟩
      cases targetFound.symm.trans found
      exact (targetSpan.not_overlaps_iff interval).mpr (.inl targetAfter) reaches
  | following _ first _ => exact first.2.2 other member ⟨_, otherFound, after⟩ ne
  | preceding _ _ last _ =>
      apply unlessAfter
      rcases last with ⟨targetMem, ⟨_, found, before⟩, _⟩
      cases targetFound.symm.trans found
      rw [Int64.not_lt]
      apply Int64.le_of_lt
      apply Int64.lt_of_lt_of_le _ inOrder
      exact (valid target targetMem).start_lt_of_endsBefore targetFound before

/-- A file that is not a target lies on one side of the interval and of all the
targets. -/
theorem clear_of_not_isTarget (inOrder : interval.Ordered) {parts : List Interval}
    (targets : ∀ part ∈ parts, ∃ target, IsTarget available files device interval target ∧
      target.span? device = some (.closed part))
    (member : other ∈ files) (noTarget : ¬ IsTarget available files device interval other)
    (found : other.span? device = some otherSpan) :
    (∀ part ∈ interval :: parts, part.stop < otherSpan.start) ∨
      ∀ part ∈ interval :: parts, otherSpan.EndsBefore part.start := by
  have clear : ¬ otherSpan.Overlaps interval := by
    intro overlaps
    exact noTarget (.overlapping member ⟨otherSpan, found, overlaps⟩)
  rcases (otherSpan.not_overlaps_iff interval).mp clear with after | before
  · left
    intro part listed
    rcases List.mem_cons.mp listed with rfl | listed
    · exact after
    · rcases targets part listed with ⟨target, isTarget, targetFound⟩
      have ne : other ≠ target := fun same => noTarget (same ▸ isTarget)
      have low := target_sortsBefore ordered valid distinct inOrder isTarget targetFound member ne
        found after
      exact ordered target isTarget.mem other member low device _ _ targetFound found
  · right
    intro part listed
    rcases List.mem_cons.mp listed with rfl | listed
    · exact before
    · obtain ⟨target, isTarget, targetFound⟩ := targets part listed
      have ne : other ≠ target := fun same => noTarget (same ▸ isTarget)
      have low := sortsBefore_target ordered valid distinct inOrder isTarget targetFound member ne
        found before
      exact ordered other member target isTarget.mem low device _ _ found targetFound

/-- A file that is not a target keeps clear of the hull of the interval and the
targets. -/
theorem not_overlaps_hull_of_not_isTarget (inOrder : interval.Ordered) {parts : List Interval}
    (targets : ∀ part ∈ parts, ∃ target, IsTarget available files device interval target ∧
      target.span? device = some (.closed part))
    (member : other ∈ files) (noTarget : ¬ IsTarget available files device interval other) :
    ¬ other.Overlaps device (interval.hull parts) := by
  rintro ⟨span, found, reaches⟩
  apply DeviceSpan.not_overlaps_hull _ reaches
  exact clear_of_not_isTarget ordered valid distinct inOrder targets member noTarget found

end Targets

/-- Merging an unsequence member into its targets keeps the order in time: the hull of
its interval and theirs overlaps no sequence file outside the candidate. -/
theorem selected_keeps_time_order {registry : Registry} {key : PartitionKey} {config : Config}
    {sequence unsequence early late : List DataFile} {candidates earlier later : List Candidate}
    {candidate : Candidate} (reachable : registry.Reachable)
    (resolved : resolveInput (registry.snapshot key) sequence unsequence = .ok (early, late))
    (selected : selectFrom config (registry.snapshot key) sequence unsequence = .ok candidates)
    (split : candidates = earlier ++ candidate :: later) (ordered : PerDeviceOrdered early)
    {member : DataFile} (taken : member ∈ candidate.unsequence) {device : String}
    (holds : member.holds device = true) (held : ∃ file ∈ early, file.holds device = true) :
    ∃ interval targets cover, member.span? device = some (.closed interval) ∧
      targets ≠ [] ∧
      (∀ file, file ∈ targets ↔ IsTarget (Available earlier) early device interval file) ∧
      (∀ file ∈ targets, file ∈ candidate.sequence ∧
        ∃ own, file.span? device = some (.closed own)) ∧
      cover.IsHull (fun part => part = interval ∨
        ∃ file ∈ targets, file.span? device = some (.closed part)) ∧
      ∀ file ∈ early, file ∉ candidate.sequence → ¬ file.Overlaps device cover := by
  have facts := resolved_of_resolveInput resolved
  have isMember : member ∈ candidate.files := List.mem_append_right _ taken
  have valid : ∀ file ∈ early, file.Valid := by
    intro file listed
    exact valid_of_resolved reachable resolved (List.mem_append_left late listed)
  rcases (member.holds_iff device).mp holds with ⟨_, found⟩
  rcases closed_span_of_member reachable resolved selected split isMember found with
    ⟨interval, rfl, inOrder⟩
  rcases exists_device_targets reachable resolved selected split taken found with
    ⟨targets, search, isTarget_iff, members⟩
  have nonempty : targets ≠ [] := by
    rcases held with ⟨file, listed, fileHolds⟩
    exact deviceTargets?_ne_nil search listed fileHolds
  have closed : ∀ file ∈ targets, ∃ own, file.span? device = some (.closed own) := by
    intro file listed
    have inFiles : file ∈ candidate.files := List.mem_append_left _ (members file listed)
    rcases ((isTarget_iff file).mp listed).exists_span with ⟨_, fileFound⟩
    rcases closed_span_of_member reachable resolved selected split inFiles fileFound with
      ⟨own, rfl, _⟩
    exact ⟨own, fileFound⟩
  let parts := targets.filterMap fun file => file.interval? device
  have mem_parts : ∀ part, part ∈ parts ↔
      ∃ file ∈ targets, file.span? device = some (.closed part) := by
    intro part
    simp only [parts, List.mem_filterMap, DataFile.interval?_eq_some_iff]
  have isHull : (interval.hull parts).IsHull fun part => part = interval ∨
      ∃ file ∈ targets, file.span? device = some (.closed part) := by
    apply (Interval.isHull_hull interval parts).congr
    intro part
    rw [List.mem_cons, mem_parts]
  have clear : ∀ file ∈ early, file ∉ candidate.sequence →
      ¬ file.Overlaps device (interval.hull parts) := by
    intro file listed outside
    apply not_overlaps_hull_of_not_isTarget ordered valid facts.early_distinct inOrder _ listed
    · intro isTarget
      exact outside (members file ((isTarget_iff file).mpr isTarget))
    · intro part inParts
      rcases (mem_parts part).mp inParts with ⟨target, inTargets, targetFound⟩
      exact ⟨target, (isTarget_iff target).mp inTargets, targetFound⟩
  exact ⟨interval, targets, interval.hull parts, found, nonempty, isTarget_iff,
    fun file listed => ⟨members file listed, closed file listed⟩, isHull, clear⟩

/-- Between the second and the third file of the sample the hull stops short of the
third, which the first candidate has taken. -/
theorem selected_keeps_time_order_sample :
    ∃ interval targets cover,
      (Sample.file .unsequence .closed 13 [("a", ⟨32, 35⟩)]).span? "a" =
        some (.closed interval) ∧
      targets ≠ [] ∧
      (∀ file, file ∈ targets ↔
        IsTarget (Available [Sample.first]) Sample.sequence "a" interval file) ∧
      (∀ file ∈ targets, file ∈ Sample.second.sequence ∧
        ∃ own, file.span? "a" = some (.closed own)) ∧
      cover.IsHull (fun part => part = interval ∨
        ∃ file ∈ targets, file.span? "a" = some (.closed part)) ∧
      ∀ file ∈ Sample.sequence, file ∉ Sample.second.sequence → ¬ file.Overlaps "a" cover :=
  selected_keeps_time_order Sample.registry_reachable Sample.resolveInput_registry
    Sample.selectFrom_registry Sample.candidates_eq_append
    Sample.perDeviceOrdered_sequence List.mem_cons_self (by decide)
    ⟨_, List.mem_cons_self, by decide⟩

end Selection

end SeriesStore
