import SeriesStore.Time.Span

/-!
# The hull of intervals

The hull is the least interval in which all of some intervals lie.  A span keeps
clear of a hull when it ends before all of the intervals, or starts after all of
them.
-/

namespace SeriesStore

namespace Interval

/-- Whether an interval lies in another one. -/
def Within (inner outer : Interval) : Prop :=
  outer.start ≤ inner.start ∧ inner.stop ≤ outer.stop

/-- The least interval in which two intervals lie. -/
def join (first second : Interval) : Interval :=
  ⟨min first.start second.start, max first.stop second.stop⟩

/-- The hull of an interval and further ones. -/
def hull (first : Interval) (others : List Interval) : Interval :=
  others.foldl join first

/-- An interval in which all of some intervals lie, and that itself lies in every
other such interval. -/
structure IsHull (cover : Interval) (parts : Interval → Prop) : Prop where
  covers : ∀ part, parts part → part.Within cover
  least : ∀ other : Interval, (∀ part, parts part → part.Within other) → cover.Within other

theorem IsHull.congr {cover : Interval} {parts others : Interval → Prop}
    (hull : cover.IsHull parts) (same : ∀ part, parts part ↔ others part) :
    cover.IsHull others := by
  constructor
  case covers =>
    intro part listed
    exact hull.covers part ((same part).mpr listed)
  case least =>
    intro other covered
    apply hull.least
    intro part listed
    exact covered part ((same part).mp listed)

theorem Within.refl (interval : Interval) : interval.Within interval :=
  ⟨Int64.le_refl _, Int64.le_refl _⟩

theorem join_within_iff (first second outer : Interval) :
    (join first second).Within outer ↔ first.Within outer ∧ second.Within outer := by
  simp only [Within, join, min_eq_ite, max_eq_ite]
  grind

theorem lt_start_join_iff (first second : Interval) (time : Timestamp) :
    time < (join first second).start ↔ time < first.start ∧ time < second.start := by
  simp only [join, min_eq_ite]
  grind

theorem stop_join_lt_iff (first second : Interval) (time : Timestamp) :
    (join first second).stop < time ↔ first.stop < time ∧ second.stop < time := by
  simp only [join, max_eq_ite]
  grind

theorem hull_within_iff (first : Interval) (others : List Interval) (outer : Interval) :
    (hull first others).Within outer ↔ ∀ part ∈ first :: others, part.Within outer := by
  induction others generalizing first with
  | nil => simp [hull]
  | cons second rest ih =>
      change (hull (join first second) rest).Within outer ↔ _
      rw [ih]
      simp only [List.forall_mem_cons, join_within_iff, and_assoc]

theorem isHull_hull (first : Interval) (others : List Interval) :
    (hull first others).IsHull fun part => part ∈ first :: others := by
  constructor
  case covers => exact (hull_within_iff first others _).mp (.refl _)
  case least =>
    intro other covered
    exact (hull_within_iff first others other).mpr covered

theorem lt_start_hull_iff (first : Interval) (others : List Interval) (time : Timestamp) :
    time < (hull first others).start ↔ ∀ part ∈ first :: others, time < part.start := by
  induction others generalizing first with
  | nil => simp [hull]
  | cons second rest ih =>
      change time < (hull (join first second) rest).start ↔ _
      rw [ih]
      simp only [List.forall_mem_cons, lt_start_join_iff, and_assoc]

theorem stop_hull_lt_iff (first : Interval) (others : List Interval) (time : Timestamp) :
    (hull first others).stop < time ↔ ∀ part ∈ first :: others, part.stop < time := by
  induction others generalizing first with
  | nil => simp [hull]
  | cons second rest ih =>
      change (hull (join first second) rest).stop < time ↔ _
      rw [ih]
      simp only [List.forall_mem_cons, stop_join_lt_iff, and_assoc]

theorem Ordered.asymm {first second : Interval} (firstOrdered : first.Ordered)
    (secondOrdered : second.Ordered) (apart : first.stop < second.start) :
    ¬ second.stop < first.start := by
  simp only [Ordered] at firstOrdered secondOrdered
  grind

/-! ## Two hulls that keep clear of each other's parts -/

/-- Whether every one of some intervals lies before, or after, all of the intervals
of another hull. -/
def KeepClear (parts : List Interval) (first : Interval) (others : List Interval) : Prop :=
  ∀ part ∈ parts, (∀ other ∈ first :: others, other.stop < part.start) ∨
    ∀ other ∈ first :: others, part.stop < other.start

section TwoHulls

variable {first second : Interval} {parts others : List Interval}
  (clear : KeepClear parts second others) (ordered : ∀ part ∈ parts, part.Ordered)
  (othersOrdered : ∀ other ∈ others, other.Ordered) {part other : Interval}
  (listed : part ∈ parts) (otherListed : other ∈ others)

include clear ordered othersOrdered listed otherListed

theorem KeepClear.before_all (apart : part.stop < other.start) :
    ∀ later ∈ second :: others, part.stop < later.start := by
  rcases clear part listed with after | before
  · have behind := after other (List.mem_cons_of_mem second otherListed)
    have partOrdered := ordered part listed
    exact absurd behind (partOrdered.asymm (othersOrdered other otherListed) apart)
  · exact before

theorem KeepClear.after_all (apart : other.stop < part.start) :
    ∀ earlier ∈ second :: others, earlier.stop < part.start := by
  rcases clear part listed with after | before
  · exact after
  · have ahead := before other (List.mem_cons_of_mem second otherListed)
    have partOrdered := ordered part listed
    exact absurd apart (partOrdered.asymm (othersOrdered other otherListed) ahead)

/-- The side of one part decides for all parts. -/
theorem KeepClear.same_side (otherClear : KeepClear others first parts)
    (apart : part.stop < other.start) :
    (∀ low ∈ parts, ∀ high ∈ second :: others, low.stop < high.start) ∧
      ∀ high ∈ others, ∀ low ∈ first :: parts, low.stop < high.start := by
  have partBefore := clear.before_all ordered othersOrdered listed otherListed apart
  have highAfter : ∀ high ∈ others, ∀ low ∈ first :: parts, low.stop < high.start := by
    intro high highListed
    have low := partBefore high (List.mem_cons_of_mem second highListed)
    exact otherClear.after_all othersOrdered ordered highListed listed low
  constructor
  · intro low lowListed
    have high := highAfter other otherListed low (List.mem_cons_of_mem first lowListed)
    exact clear.before_all ordered othersOrdered lowListed otherListed high
  · exact highAfter

/-- Two hulls whose parts lie one after the other overlap exactly if their first
intervals are not in this order too. -/
theorem hulls_overlap_iff (otherClear : KeepClear others first parts)
    (apart : part.stop < other.start) :
    (hull first parts).Overlaps (hull second others) ↔ second.start ≤ first.stop := by
  obtain ⟨before, after⟩ :=
    clear.same_side ordered othersOrdered listed otherListed otherClear apart
  have firstCovered := (isHull_hull first parts).covers
  have secondCovered := (isHull_hull second others).covers
  constructor
  · intro overlaps
    rw [← Int64.not_lt]
    intro inOrder
    apply Int64.not_le.mpr _ overlaps.2
    rw [stop_hull_lt_iff]
    intro low lowListed
    rw [lt_start_hull_iff]
    intro high highListed
    rcases List.mem_cons.mp lowListed with rfl | lowListed
    · rcases List.mem_cons.mp highListed with rfl | highListed
      · exact inOrder
      · exact after high highListed low List.mem_cons_self
    · exact before low lowListed high highListed
  · intro reaches
    have partCovered := firstCovered part (List.mem_cons_of_mem first listed)
    have otherCovered := secondCovered other (List.mem_cons_of_mem second otherListed)
    have firstWithin := firstCovered first List.mem_cons_self
    have secondWithin := secondCovered second List.mem_cons_self
    have partOrdered := ordered part listed
    have otherOrdered := othersOrdered other otherListed
    simp only [Within, Ordered, Overlaps] at *
    grind

end TwoHulls

end Interval

namespace DeviceSpan

@[simp]
theorem start_closed (interval : Interval) : (closed interval).start = interval.start := rfl

@[simp]
theorem endsBefore_closed (interval : Interval) (time : Timestamp) :
    (closed interval).EndsBefore time ↔ interval.stop < time := Iff.rfl

theorem not_overlaps_iff (span : DeviceSpan) (interval : Interval) :
    ¬ span.Overlaps interval ↔ interval.stop < span.start ∨ span.EndsBefore interval.start := by
  rw [← position_eq_overlapping_iff]
  rw [position]
  split
  · simp_all
  · split <;> simp_all

theorem EndsBefore.mono {span : DeviceSpan} {time later : Timestamp} (before : span.EndsBefore time)
    (low : time ≤ later) : span.EndsBefore later := by
  cases span with
  | closed interval => exact Int64.lt_of_lt_of_le before low
  | growing start lastWrite => exact before

/-- A span that ends before, or starts after, every one of some intervals does not
overlap their hull. -/
theorem not_overlaps_hull {span : DeviceSpan} {first : Interval} {others : List Interval}
    (clear : (∀ part ∈ first :: others, part.stop < span.start) ∨
      ∀ part ∈ first :: others, span.EndsBefore part.start) :
    ¬ span.Overlaps (Interval.hull first others) := by
  rw [not_overlaps_iff]
  rcases clear with after | before
  · exact .inl ((Interval.stop_hull_lt_iff first others span.start).mpr after)
  · right
    cases span with
    | closed interval => exact (Interval.lt_start_hull_iff first others interval.stop).mpr before
    | growing start lastWrite => exact before first List.mem_cons_self

end DeviceSpan

end SeriesStore
