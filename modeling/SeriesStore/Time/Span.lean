import SeriesStore.Time.Interval

/-!
# Spans of a device in a file

While a file is being written the data of a device has a start but no end yet:
its span is growing, and it only remembers the latest write.  Sealing the file
turns it into a closed span.  Growing is a case of its own, so no comparison
ever takes the latest write for a bound on what may still arrive.
-/

namespace SeriesStore

/-- Where a span lies relative to an interval. -/
inductive Position where
  | before
  | overlapping
  | after
deriving DecidableEq

/-- The time range of one device inside one file. -/
inductive DeviceSpan where
  | closed (interval : Interval)
  | growing (start lastWrite : Timestamp)
deriving DecidableEq

namespace DeviceSpan

/-- A growing span that holds a single write. -/
def growingFrom (start : Timestamp) : DeviceSpan :=
  .growing start start

/-- A growing span whose writes reach from `start` to `lastWrite`; a last write
before the start is raised to the start. -/
def growingUntil (start lastWrite : Timestamp) : DeviceSpan :=
  .growing start (max lastWrite start)

/-- The earliest timestamp of a span. -/
def start : DeviceSpan → Timestamp
  | .closed interval => interval.start
  | .growing start _ => start

/-- The latest timestamp that is known to hold data. -/
def lastWrite : DeviceSpan → Timestamp
  | .closed interval => interval.stop
  | .growing _ lastWrite => lastWrite

/-- The end of a span; a growing one has none. -/
def stop? : DeviceSpan → Option Timestamp
  | .closed interval => some interval.stop
  | .growing .. => none

/-- Whether data may still arrive for the device. -/
def isGrowing : DeviceSpan → Bool
  | .closed _ => false
  | .growing .. => true

/-- A growing span starts no later than its last write; a closed one may hold
any interval. -/
def WellFormed : DeviceSpan → Prop
  | .closed _ => True
  | .growing start lastWrite => start ≤ lastWrite

instance : (span : DeviceSpan) → Decidable span.WellFormed
  | .closed _ => inferInstanceAs (Decidable True)
  | .growing start lastWrite => inferInstanceAs (Decidable (start ≤ lastWrite))

/-- A growing span reaches arbitrarily far, so it overlaps every interval that
does not stop before its start. -/
def Overlaps : DeviceSpan → Interval → Prop
  | .closed interval, other => interval.Overlaps other
  | .growing start _, other => start ≤ other.stop

instance : (span : DeviceSpan) → (other : Interval) → Decidable (span.Overlaps other)
  | .closed interval, other => inferInstanceAs (Decidable (interval.Overlaps other))
  | .growing start _, other => inferInstanceAs (Decidable (start ≤ other.stop))

/-- Whether all data of the device lies strictly before `bound`, now and later. -/
def EndsBefore : DeviceSpan → Timestamp → Prop
  | .closed interval, bound => interval.stop < bound
  | .growing .., _ => False

instance : (span : DeviceSpan) → (bound : Timestamp) → Decidable (span.EndsBefore bound)
  | .closed interval, bound => inferInstanceAs (Decidable (interval.stop < bound))
  | .growing .., _ => inferInstanceAs (Decidable False)

/-- The position of a span relative to an interval.  Starting after the interval
is asked first, so also an inverted interval gets exactly one answer. -/
def position (span : DeviceSpan) (other : Interval) : Position :=
  if other.stop < span.start then
    .after
  else if span.EndsBefore other.start then
    .before
  else
    .overlapping

/-- Extends a span so that it includes a write at `time`. -/
def record (time : Timestamp) : DeviceSpan → DeviceSpan
  | .closed interval => .closed ⟨min interval.start time, max interval.stop time⟩
  | .growing start lastWrite => .growing (min start time) (max lastWrite time)

/-- The interval that results from closing a span at `stop`.  A span that is
closed already keeps the later end.  The result is not validated. -/
def close (stop : Timestamp) : DeviceSpan → Interval
  | .closed interval => ⟨interval.start, max interval.stop stop⟩
  | .growing start _ => ⟨start, stop⟩

/-- A span as a reader takes it from outside: the last write of a growing span
is raised to the start. -/
def normalize : DeviceSpan → DeviceSpan
  | .closed interval => .closed interval
  | .growing start lastWrite => .growingUntil start lastWrite

theorem position_eq_after_iff (span : DeviceSpan) (other : Interval) :
    span.position other = .after ↔ other.stop < span.start := by
  unfold position
  split
  · simp_all
  · split <;> simp_all

/-- A span that neither ends before an interval nor starts after it overlaps it,
and the other way round. -/
theorem position_eq_overlapping_iff (span : DeviceSpan) (other : Interval) :
    span.position other = .overlapping ↔ span.Overlaps other := by
  cases span with
  | closed interval =>
      show (if other.stop < interval.start then Position.after
        else if interval.stop < other.start then .before else .overlapping) = .overlapping ↔
          interval.start ≤ other.stop ∧ other.start ≤ interval.stop
      grind
  | growing start lastWrite =>
      show (if other.stop < start then Position.after
        else if False then .before else .overlapping) = .overlapping ↔ start ≤ other.stop
      grind

/-- A span that includes a write is well formed, whatever it was before. -/
theorem record_wellFormed (span : DeviceSpan) (time : Timestamp) :
    (span.record time).WellFormed := by
  cases span with
  | closed _ => trivial
  | growing start lastWrite =>
      show min start time ≤ max lastWrite time
      rw [min_eq_ite, max_eq_ite]
      grind

theorem growingUntil_wellFormed (start lastWrite : Timestamp) :
    (growingUntil start lastWrite).WellFormed := by
  show start ≤ max lastWrite start
  rw [max_eq_ite]
  grind

theorem normalize_wellFormed (span : DeviceSpan) : span.normalize.WellFormed := by
  cases span with
  | closed _ => trivial
  | growing start lastWrite => exact growingUntil_wellFormed start lastWrite

end DeviceSpan

end SeriesStore
