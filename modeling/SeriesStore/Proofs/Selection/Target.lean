import Mathlib.Data.List.Nodup
import SeriesStore.Proofs.File.Order
import SeriesStore.Selection.Scan

/-!
# What the targets are

`IsTarget` says of a sequence file, without looking at any search, that data of a
device in an interval has to be merged into it: it overlaps the interval, or it
is the nearest available neighbour when no file does.  On valid files in strict
order this is exactly what the search of `deviceTargets?` finds.
-/

namespace SeriesStore

namespace DataFile

/-- Some data of a device in a file overlaps an interval. -/
def Overlaps (file : DataFile) (device : String) (interval : Interval) : Prop :=
  ∃ span, file.span? device = some span ∧ span.Overlaps interval

/-- All data of a device in a file comes after a time. -/
def StartsAfter (file : DataFile) (device : String) (time : Timestamp) : Prop :=
  ∃ span, file.span? device = some span ∧ time < span.start

/-- All data of a device in a file, now and later, comes before a time. -/
def EndsBefore (file : DataFile) (device : String) (time : Timestamp) : Prop :=
  ∃ span, file.span? device = some span ∧ span.EndsBefore time

theorem holds_iff (file : DataFile) (device : String) :
    file.holds device = true ↔ ∃ span, file.span? device = some span :=
  Option.isSome_iff_exists

theorem mem_closedIntervals (file : DataFile) (device : String) (interval : Interval) :
    (device, interval) ∈ file.closedIntervals ↔ file.span? device = some (.closed interval) := by
  rw [span?, SortedMap.get?_eq_some_iff, closedIntervals, List.mem_filterMap]
  constructor
  · rintro ⟨⟨name, span⟩, member, kept⟩
    cases span with
    | closed own =>
        cases kept
        exact member
    | growing start lastWrite => contradiction
  · intro member
    exact ⟨_, member, rfl⟩

/-- The spans of a valid file that is not written any more are closed and in
order. -/
theorem Valid.span?_eq_closed {file : DataFile} (valid : file.Valid)
    (settled : file.status ≠ .unclosed) {device : String} {span : DeviceSpan}
    (found : file.span? device = some span) :
    ∃ interval, span = .closed interval ∧ interval.Ordered := by
  have own := valid _ ((SortedMap.get?_eq_some_iff _ _ _).mp found)
  cases span with
  | closed interval => exact ⟨interval, rfl, own⟩
  | growing start lastWrite => exact absurd own settled

theorem Valid.ordered_of_span? {file : DataFile} (valid : file.Valid) {device : String}
    {interval : Interval} (found : file.span? device = some (.closed interval)) :
    interval.Ordered :=
  valid _ ((SortedMap.get?_eq_some_iff _ _ _).mp found)

/-- A span of a valid file does not end before its own start. -/
theorem Valid.not_endsBefore_start {file : DataFile} (valid : file.Valid) {device : String}
    {span : DeviceSpan} (found : file.span? device = some span) {time : Timestamp}
    (low : time ≤ span.start) : ¬ span.EndsBefore time := by
  have own := valid _ ((SortedMap.get?_eq_some_iff _ _ _).mp found)
  cases span with
  | closed interval =>
      intro before
      exact Int64.lt_irrefl
        (Int64.lt_of_le_of_lt own (Int64.lt_of_lt_of_le before low))
  | growing start lastWrite =>
      intro before
      exact before

end DataFile

namespace Selection

/-- The first of the files with a property. -/
def IsFirst (files : List DataFile) (wanted : DataFile → Prop) (file : DataFile) : Prop :=
  file ∈ files ∧ wanted file ∧
    ∀ other ∈ files, wanted other → other ≠ file → file.SortsBefore other

/-- The last of the files with a property. -/
def IsLast (files : List DataFile) (wanted : DataFile → Prop) (file : DataFile) : Prop :=
  file ∈ files ∧ wanted file ∧
    ∀ other ∈ files, wanted other → other ≠ file → other.SortsBefore file

/-- The sequence files into which data of a device in an interval is merged. -/
inductive IsTarget (available : DataFile → Prop) (sequence : List DataFile) (device : String)
    (interval : Interval) (file : DataFile) : Prop where
  | overlapping (member : file ∈ sequence) (overlaps : file.Overlaps device interval)
  | following (clear : ∀ other ∈ sequence, ¬ other.Overlaps device interval)
      (first : IsFirst sequence (fun other => other.StartsAfter device interval.stop) file)
      (free : available file)
  | preceding (clear : ∀ other ∈ sequence, ¬ other.Overlaps device interval)
      (taken : ∀ next,
        IsFirst sequence (fun other => other.StartsAfter device interval.stop) next →
          ¬ available next)
      (last : IsLast sequence (fun other => other.EndsBefore device interval.start) file)
      (free : available file)

theorem IsTarget.mem {available : DataFile → Prop} {sequence : List DataFile} {device : String}
    {interval : Interval} {file : DataFile}
    (target : IsTarget available sequence device interval file) : file ∈ sequence := by
  cases target with
  | overlapping member _ => exact member
  | following _ first _ => exact first.1
  | preceding _ _ last _ => exact last.1

theorem IsTarget.exists_span {available : DataFile → Prop} {sequence : List DataFile}
    {device : String} {interval : Interval} {file : DataFile}
    (target : IsTarget available sequence device interval file) :
    ∃ span, file.span? device = some span := by
  cases target with
  | overlapping _ overlaps => exact overlaps.imp fun _ both => both.1
  | following _ first _ => exact first.2.1.imp fun _ both => both.1
  | preceding _ _ last _ => exact last.2.1.imp fun _ both => both.1

/-! ## Positions -/

theorem positionOf_eq_overlapping_iff (device : String) (interval : Interval) (file : DataFile) :
    positionOf device interval file = some .overlapping ↔ file.Overlaps device interval := by
  simp only [positionOf, Option.map_eq_some_iff, DataFile.Overlaps,
    DeviceSpan.position_eq_overlapping_iff]

theorem positionOf_eq_after_iff (device : String) (interval : Interval) (file : DataFile) :
    positionOf device interval file = some .after ↔ file.StartsAfter device interval.stop := by
  simp only [positionOf, Option.map_eq_some_iff, DataFile.StartsAfter,
    DeviceSpan.position_eq_after_iff]

/-- Starting after an interval is asked before ending before it, but no valid file
does both. -/
theorem positionOf_eq_before_iff {device : String} {interval : Interval} {file : DataFile}
    (valid : file.Valid) (ordered : interval.Ordered) :
    positionOf device interval file = some .before ↔ file.EndsBefore device interval.start := by
  simp only [positionOf, Option.map_eq_some_iff, DataFile.EndsBefore]
  apply exists_congr
  intro span
  apply and_congr_right
  intro found
  have exclusive : span.EndsBefore interval.start → ¬ interval.stop < span.start := by
    intro before after
    apply valid.not_endsBefore_start found (Int64.le_of_lt ?_) before
    exact Int64.lt_of_le_of_lt ordered after
  rw [DeviceSpan.position]
  split
  · rename_i after
    simp only [reduceCtorEq, false_iff]
    intro before
    exact exclusive before after
  · split
    · rename_i before
      simp [before]
    · rename_i notBefore
      simp [notBefore]

/-! ## First and last in strict order -/

section Ordered

variable {files : List DataFile} {choice : DataFile → Bool} {wanted : DataFile → Prop}

/-- The head of the chosen files is the one that stands before all others, under any
strict order in which the files are listed. -/
theorem head?_filter_eq_some_iff {before : DataFile → DataFile → Prop}
    (asymm : ∀ first second, before first second → ¬ before second first)
    (sorted : files.Pairwise before)
    (agree : ∀ file ∈ files, choice file = true ↔ wanted file) (file : DataFile) :
    (files.filter choice).head? = some file ↔
      file ∈ files ∧ wanted file ∧
        ∀ other ∈ files, wanted other → other ≠ file → before file other := by
  have mem_iff : ∀ other, other ∈ files.filter choice ↔ other ∈ files ∧ wanted other := by
    intro other
    rw [List.mem_filter]
    exact and_congr_right (agree other)
  have sorted := sorted.filter choice
  cases split : files.filter choice with
  | nil =>
      rw [split] at mem_iff
      simp only [List.head?_nil, reduceCtorEq, false_iff]
      rintro ⟨member, isWanted, _⟩
      exact List.not_mem_nil ((mem_iff file).mpr ⟨member, isWanted⟩)
  | cons head rest =>
      rw [split] at mem_iff sorted
      have headFirst := (List.pairwise_cons.mp sorted).1
      rw [List.head?_cons, Option.some.injEq]
      constructor
      · rintro rfl
        rcases (mem_iff head).mp List.mem_cons_self with ⟨member, isWanted⟩
        have least : ∀ other ∈ files, wanted other → other ≠ head → before head other := by
          intro other otherMem otherWanted ne
          rcases List.mem_cons.mp ((mem_iff other).mpr ⟨otherMem, otherWanted⟩) with same | inRest
          · exact absurd same ne
          · exact headFirst other inRest
        exact ⟨member, isWanted, least⟩
      · rintro ⟨member, isWanted, least⟩
        rcases List.mem_cons.mp ((mem_iff file).mpr ⟨member, isWanted⟩) with same | inRest
        · exact same.symm
        · have low := headFirst file inRest
          rcases (mem_iff head).mp List.mem_cons_self with ⟨headMem, headWanted⟩
          have ne : head ≠ file := by
            rintro rfl
            exact asymm head head low low
          exact absurd low (asymm file head (least head headMem headWanted ne))

theorem head?_filter_eq_some_iff_isFirst (increasing : files.Pairwise DataFile.SortsBefore)
    (agree : ∀ file ∈ files, choice file = true ↔ wanted file) (file : DataFile) :
    (files.filter choice).head? = some file ↔ IsFirst files wanted file :=
  head?_filter_eq_some_iff (fun _ _ => DataFile.SortsBefore.asymm) increasing agree file

theorem getLast?_filter_eq_some_iff_isLast (increasing : files.Pairwise DataFile.SortsBefore)
    (agree : ∀ file ∈ files, choice file = true ↔ wanted file) (file : DataFile) :
    (files.filter choice).getLast? = some file ↔ IsLast files wanted file := by
  have decreasing : files.reverse.Pairwise fun first second => second.SortsBefore first :=
    List.pairwise_reverse.mpr increasing
  have agree : ∀ file ∈ files.reverse, choice file = true ↔ wanted file := by
    intro file member
    exact agree file (List.mem_reverse.mp member)
  rw [← List.head?_reverse, ← List.filter_reverse,
    head?_filter_eq_some_iff (fun _ _ => DataFile.SortsBefore.asymm) decreasing agree]
  simp only [List.mem_reverse, IsLast]

end Ordered

/-! ## The search finds the targets -/

section Search

variable {sequence own : List DataFile} {available : DataFile → Bool} {device : String}
  {interval : Interval}

theorem mem_filesAt_overlapping (file : DataFile) :
    file ∈ filesAt .overlapping device interval sequence ↔
      file ∈ sequence ∧ file.Overlaps device interval := by
  rw [mem_filesAt, positionOf_eq_overlapping_iff]

theorem filesAt_overlapping_eq_nil_iff :
    filesAt .overlapping device interval sequence = [] ↔
      ∀ file ∈ sequence, ¬ file.Overlaps device interval := by
  simp only [List.eq_nil_iff_forall_not_mem, mem_filesAt_overlapping, not_and]

/-- The search is blocked by any overlapping file that is not available. -/
theorem available_of_deviceTargets?
    (found : deviceTargets? available sequence device interval = some own) {file : DataFile}
    (member : file ∈ sequence) (overlaps : file.Overlaps device interval) :
    available file = true := by
  have listed := (mem_filesAt_overlapping file).mpr ⟨member, overlaps⟩
  rw [deviceTargets?_of_overlapping (List.ne_nil_of_mem listed)] at found
  split at found
  · rename_i allFree
    exact List.all_eq_true.mp allFree file listed
  · contradiction

theorem mem_deviceTargets?_of_overlaps
    (found : deviceTargets? available sequence device interval = some own) {other : DataFile}
    (otherMem : other ∈ sequence) (otherOverlaps : other.Overlaps device interval)
    (file : DataFile) : file ∈ own ↔ file ∈ sequence ∧ file.Overlaps device interval := by
  have listed := (mem_filesAt_overlapping other).mpr ⟨otherMem, otherOverlaps⟩
  rw [deviceTargets?_of_overlapping (List.ne_nil_of_mem listed)] at found
  split at found
  · cases found
    exact mem_filesAt_overlapping file
  · contradiction

theorem mem_deviceTargets?_of_clear
    (found : deviceTargets? available sequence device interval = some own)
    (clear : ∀ file ∈ sequence, ¬ file.Overlaps device interval) (file : DataFile) :
    file ∈ own ↔ neighbour? available device interval sequence = some file := by
  rw [deviceTargets?_of_no_overlapping (filesAt_overlapping_eq_nil_iff.mpr clear)] at found
  cases nearest : neighbour? available device interval sequence with
  | some other =>
      simp only [nearest, Option.some.injEq] at found
      subst found
      simp [eq_comm]
  | none =>
      simp only [nearest] at found
      split at found
      · contradiction
      · cases found
        simp

/-- The search comes back with nothing only for a device that no file holds. -/
theorem deviceTargets?_ne_nil
    (found : deviceTargets? available sequence device interval = some own) {file : DataFile}
    (member : file ∈ sequence) (holds : file.holds device = true) : own ≠ [] := by
  rintro rfl
  by_cases nil : filesAt .overlapping device interval sequence = []
  · rw [deviceTargets?_of_no_overlapping nil] at found
    split at found
    · cases found
    · split at found
      · contradiction
      · rename_i absent
        exact absent (List.any_eq_true.mpr ⟨file, member, holds⟩)
  · rw [deviceTargets?_of_overlapping nil] at found
    split at found
    · exact nil (Option.some.inj found)
    · contradiction

variable (increasing : sequence.Pairwise DataFile.SortsBefore)
  (valid : ∀ file ∈ sequence, file.Valid) (ordered : interval.Ordered)

include increasing in
theorem head?_filesAt_after (file : DataFile) :
    (filesAt .after device interval sequence).head? = some file ↔
      IsFirst sequence (fun other => other.StartsAfter device interval.stop) file := by
  apply head?_filter_eq_some_iff_isFirst increasing
  intro other _
  rw [decide_eq_true_eq, positionOf_eq_after_iff]

include increasing valid ordered

theorem getLast?_filesAt_before (file : DataFile) :
    (filesAt .before device interval sequence).getLast? = some file ↔
      IsLast sequence (fun other => other.EndsBefore device interval.start) file := by
  apply getLast?_filter_eq_some_iff_isLast increasing
  intro other member
  rw [decide_eq_true_eq, positionOf_eq_before_iff (valid other member) ordered]

theorem neighbour?_eq_some_iff (file : DataFile) :
    neighbour? available device interval sequence = some file ↔
      (IsFirst sequence (fun other => other.StartsAfter device interval.stop) file ∧
        available file = true) ∨
      ((∀ next,
          IsFirst sequence (fun other => other.StartsAfter device interval.stop) next →
            ¬ available next = true) ∧
        IsLast sequence (fun other => other.EndsBefore device interval.start) file ∧
        available file = true) := by
  simp only [neighbour?, Option.or_eq_some_iff, Option.filter_eq_some_iff,
    Option.filter_eq_none_iff, head?_filesAt_after increasing,
    getLast?_filesAt_before increasing valid ordered]

theorem neighbour?_eq_none_iff :
    neighbour? available device interval sequence = none ↔
      (∀ next, IsFirst sequence (fun other => other.StartsAfter device interval.stop) next →
        ¬ available next = true) ∧
      ∀ last, IsLast sequence (fun other => other.EndsBefore device interval.start) last →
        ¬ available last = true := by
  simp only [neighbour?, Option.or_eq_none_iff, Option.filter_eq_none_iff,
    head?_filesAt_after increasing, getLast?_filesAt_before increasing valid ordered]

theorem mem_deviceTargets?_iff
    (found : deviceTargets? available sequence device interval = some own) (file : DataFile) :
    file ∈ own ↔
      IsTarget (fun other => available other = true) sequence device interval file := by
  by_cases someOverlaps : ∃ other ∈ sequence, other.Overlaps device interval
  · rcases someOverlaps with ⟨other, otherMem, overlaps⟩
    rw [mem_deviceTargets?_of_overlaps found otherMem overlaps]
    constructor
    · rintro ⟨member, overlaps⟩
      exact .overlapping member overlaps
    · intro target
      cases target with
      | overlapping member overlaps => exact ⟨member, overlaps⟩
      | following clear _ _ => exact absurd overlaps (clear other otherMem)
      | preceding clear _ _ _ => exact absurd overlaps (clear other otherMem)
  · have clear : ∀ other ∈ sequence, ¬ other.Overlaps device interval := by
      intro other member overlaps
      exact someOverlaps ⟨other, member, overlaps⟩
    rw [mem_deviceTargets?_of_clear found clear, neighbour?_eq_some_iff increasing valid ordered]
    constructor
    · rintro (⟨first, free⟩ | ⟨taken, last, free⟩)
      · exact .following clear first free
      · exact .preceding clear taken last free
    · intro target
      cases target with
      | overlapping member overlaps => exact absurd overlaps (clear file member)
      | following _ first free => exact .inl ⟨first, free⟩
      | preceding _ taken last free => exact .inr ⟨taken, last, free⟩

end Search

/-! ## All devices of a file -/

section Devices

variable {available : DataFile → Bool} {sequence own : List DataFile} {late : DataFile}

/-- The search for a file is a search for each of its devices. -/
theorem exists_deviceTargets (found : fileTargets? available sequence late = some own)
    {device : String} {interval : Interval}
    (closed : late.span? device = some (.closed interval)) :
    ∃ targets, deviceTargets? available sequence device interval = some targets := by
  rcases Option.map_eq_some_iff.mp found with ⟨all, allFound, _⟩
  apply Option.ne_none_iff_exists'.mp
  intro blocked
  have allBlocked := (allTargets?_eq_none_iff late.closedIntervals).mpr
    ⟨_, (late.mem_closedIntervals device interval).mpr closed, blocked⟩
  rw [allBlocked] at allFound
  contradiction

theorem mem_of_neighbour? {device : String} {interval : Interval} {file : DataFile}
    (nearest : neighbour? available device interval sequence = some file) :
    file ∈ sequence ∧ available file = true := by
  rw [neighbour?, Option.or_eq_some_iff, Option.filter_eq_some_iff,
    Option.filter_eq_some_iff] at nearest
  rcases nearest with ⟨first, free⟩ | ⟨_, last, free⟩
  · exact ⟨(mem_filesAt.mp (List.mem_of_head? first)).1, free⟩
  · exact ⟨(mem_filesAt.mp (List.mem_of_getLast? last)).1, free⟩

/-- What the search finds for a device was listed before and is available. -/
theorem mem_of_mem_deviceTargets? {device : String} {interval : Interval}
    (found : deviceTargets? available sequence device interval = some own) {file : DataFile}
    (member : file ∈ own) : file ∈ sequence ∧ available file = true := by
  by_cases someOverlaps : ∃ other ∈ sequence, other.Overlaps device interval
  · rcases someOverlaps with ⟨other, otherMem, otherOverlaps⟩
    rw [mem_deviceTargets?_of_overlaps found otherMem otherOverlaps] at member
    exact ⟨member.1, available_of_deviceTargets? found member.1 member.2⟩
  · have clear : ∀ other ∈ sequence, ¬ other.Overlaps device interval := by
      intro other member overlaps
      exact someOverlaps ⟨other, member, overlaps⟩
    exact mem_of_neighbour? ((mem_deviceTargets?_of_clear found clear file).mp member)

theorem mem_of_mem_allTargets? {devices : List (String × Interval)}
    (found : allTargets? available sequence devices = some own) {file : DataFile}
    (member : file ∈ own) : file ∈ sequence := by
  obtain ⟨entry, _, targets, targetsFound, inTargets⟩ := (mem_allTargets? found file).mp member
  exact (mem_of_mem_deviceTargets? targetsFound inTargets).1

theorem fileTargets?_sublist (found : fileTargets? available sequence late = some own) :
    own.Sublist sequence := by
  obtain ⟨all, _, rfl⟩ := Option.map_eq_some_iff.mp found
  exact List.filter_sublist

theorem mem_fileTargets?_iff
    (distinct : (sequence.map DataFile.id).Nodup)
    (found : fileTargets? available sequence late = some own) (file : DataFile) :
    file ∈ own ↔ ∃ device interval targets, late.span? device = some (.closed interval) ∧
      deviceTargets? available sequence device interval = some targets ∧ file ∈ targets := by
  rcases Option.map_eq_some_iff.mp found with ⟨all, allFound, rfl⟩
  have mem_all : ∀ target, target ∈ all ↔
      ∃ device interval targets, late.span? device = some (.closed interval) ∧
        deviceTargets? available sequence device interval = some targets ∧ target ∈ targets := by
    intro target
    simp only [mem_allTargets? allFound, Prod.exists, DataFile.mem_closedIntervals,
      exists_and_left]
  have listed : ∀ target ∈ all, target ∈ sequence :=
    fun target inAll => mem_of_mem_allTargets? allFound inAll
  rw [List.mem_filter, ← mem_all, List.any_eq_true]
  constructor
  · rintro ⟨member, target, inAll, same⟩
    have same : target.id = file.id := beq_iff_eq.mp same
    have eq : target = file := List.inj_on_of_nodup_map distinct (listed target inAll) member same
    exact eq ▸ inAll
  · intro inAll
    exact ⟨listed file inAll, file, inAll, BEq.rfl⟩

theorem mem_of_mem_fileTargets?
    (distinct : (sequence.map DataFile.id).Nodup)
    (found : fileTargets? available sequence late = some own) {file : DataFile}
    (member : file ∈ own) : file ∈ sequence ∧ available file = true := by
  obtain ⟨device, interval, targets, _, targetsFound, inTargets⟩ :=
    (mem_fileTargets?_iff distinct found file).mp member
  exact mem_of_mem_deviceTargets? targetsFound inTargets

end Devices

end Selection

end SeriesStore
