/-!
# Time intervals

A timestamp is a signed 64-bit count of time units, and an interval holds both
of its ends.  An interval is not validated when it is built: one whose start
lies after its stop is inverted, and every question below still has an answer
on it.
-/

namespace SeriesStore

/-- A moment, counted in the time unit of the store. -/
abbrev Timestamp := Int64

theorem max_eq_ite (first second : Timestamp) :
    max first second = if first ≤ second then second else first := rfl

theorem min_eq_ite (first second : Timestamp) :
    min first second = if first ≤ second then first else second := rfl

/-- The timestamps from `start` to `stop`, both ends included. -/
structure Interval where
  start : Timestamp
  stop : Timestamp
deriving DecidableEq

namespace Interval

/-- An interval that is not inverted. -/
def Ordered (interval : Interval) : Prop :=
  interval.start ≤ interval.stop

instance (interval : Interval) : Decidable interval.Ordered :=
  inferInstanceAs (Decidable (_ ≤ _))

/-- Two intervals overlap when each starts no later than the other stops. -/
def Overlaps (first second : Interval) : Prop :=
  first.start ≤ second.stop ∧ second.start ≤ first.stop

instance (first second : Interval) : Decidable (first.Overlaps second) :=
  inferInstanceAs (Decidable (_ ∧ _))

/-- A timestamp lies in an interval when it lies between the two ends. -/
def Contains (interval : Interval) (time : Timestamp) : Prop :=
  interval.start ≤ time ∧ time ≤ interval.stop

instance (interval : Interval) (time : Timestamp) : Decidable (interval.Contains time) :=
  inferInstanceAs (Decidable (_ ∧ _))

theorem overlaps_comm (first second : Interval) :
    first.Overlaps second ↔ second.Overlaps first :=
  And.comm

end Interval

end SeriesStore
