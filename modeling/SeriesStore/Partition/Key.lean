import SeriesStore.Text.Decimal
import SeriesStore.Text.Order
import SeriesStore.Time.Interval

/-!
# Partition keys

A partition is named by a storage group and a slot of time.  Slots have one
length and tile the time line, counted from zero in both directions, so a
timestamp before zero falls into a negative slot.
-/

namespace SeriesStore

/-- The name of a partition: a storage group and the number of a time slot. -/
structure PartitionKey where
  group : String
  slot : Int64
deriving DecidableEq

namespace PartitionKey

/-- The number of the slot that holds `time` when a slot has `length` time
units.  A length below one counts as one.  Truncating division is one too large
exactly when it leaves a negative remainder. -/
def slotOf (time : Timestamp) (length : Int64) : Int64 :=
  let unit := max length 1
  if time % unit < 0 then time / unit - 1 else time / unit

/-- The partition of `group` that holds `time`. -/
def forTimestamp (group : String) (time : Timestamp) (length : Int64) : PartitionKey where
  group := group
  slot := slotOf time length

/-- The text of a key in messages. -/
def label (key : PartitionKey) : String :=
  key.group ++ "/" ++ Text.writeInt key.slot.toInt

/-- Keys are ordered by their group, then by their slot. -/
def compareKeys : PartitionKey → PartitionKey → Ordering :=
  compareLex (fun first second => Text.compareUtf8 first.group second.group)
    (compareOn PartitionKey.slot)

instance : Std.TransCmp fun first second : PartitionKey =>
    Text.compareUtf8 first.group second.group :=
  inferInstanceAs (Std.TransCmp (compareOn fun key : PartitionKey => Text.utf8 key.group))

instance : Std.TransCmp compareKeys :=
  inferInstanceAs (Std.TransCmp (compareLex _ _))

instance : Std.LawfulEqCmp compareKeys where
  compare_self := Std.ReflCmp.compare_self
  eq_of_compare {first second} same := by
    obtain ⟨groups, slots⟩ := compareLex_eq_eq.mp same
    obtain ⟨firstGroup, firstSlot⟩ := first
    obtain ⟨secondGroup, secondSlot⟩ := second
    have groups_eq : firstGroup = secondGroup := Std.LawfulEqCmp.eq_of_compare groups
    have slots_eq : firstSlot = secondSlot := Std.LawfulEqCmp.eq_of_compare slots
    rw [groups_eq, slots_eq]

end PartitionKey

end SeriesStore
