import SeriesStore.Collection.SortedMap
import SeriesStore.Error
import SeriesStore.Text.Order
import SeriesStore.Time.Span

/-!
# Data files

A data file is known to the store by its metadata alone: its number, its space
and status, the numbers that order and weigh it, and the span of every device
whose data it holds.  Devices are kept in the order of their names.

A file that is still written gathers writes by `record` and is closed by
`sealWith`, which asks for an end of every span that is still growing.  Both leave
everything but the spans and the status alone.
-/

namespace SeriesStore

/-- The spans of the devices of a file, in the order of the device names. -/
abbrev DeviceMap := SortedMap String DeviceSpan Text.compareUtf8

/-- The ends that are supplied when a file is sealed. -/
abbrev EndTimes := SortedMap String Timestamp Text.compareUtf8

/-- The metadata of one data file. -/
structure DataFile where
  id : FileId
  space : Space
  status : Status
  /-- The generation by which sequence files are ordered. -/
  orderingKey : UInt64
  /-- The estimated size in bytes. -/
  size : UInt64
  /-- How often the file was compacted inside its space. -/
  innerLevel : UInt32
  /-- How often the file was compacted across the spaces. -/
  crossLevel : UInt32
  devices : DeviceMap
deriving DecidableEq

namespace DataFile

/-- The span of one device. -/
def span? (file : DataFile) (device : String) : Option DeviceSpan :=
  file.devices.get? device

/-- Whether the file holds data of a device. -/
def holds (file : DataFile) (device : String) : Bool :=
  file.devices.contains device

/-- The names of the devices in order. -/
def deviceNames (file : DataFile) : List String :=
  file.devices.keys

/-- Whether the file may be selected. -/
def isSelectable (file : DataFile) : Bool :=
  file.status.isSelectable

/-- Whether the file has data and all of it lies before `bound`. -/
def isExpired (file : DataFile) (bound : Timestamp) : Bool :=
  !file.devices.entries.isEmpty &&
    file.devices.entries.all fun entry => decide (entry.2.EndsBefore bound)

/-- The closed spans in the order of the device names; growing ones are left
out. -/
def closedIntervals (file : DataFile) : List (String × Interval) :=
  file.devices.entries.filterMap fun entry =>
    match entry.2 with
    | .closed interval => some (entry.1, interval)
    | .growing .. => none

/-- Whether `first` comes before `second` by ordering key and number, or has
both in common with it. -/
def comesFirst (first second : DataFile) : Bool :=
  first.orderingKey < second.orderingKey ||
    (first.orderingKey == second.orderingKey && first.id ≤ second.id)

/-- What is malformed about one span in a file of the given status. -/
def spanFault? (status : Status) (device : String) : DeviceSpan → Option Malformation
  | .closed interval =>
      if interval.Ordered then none else some (.invertedSpan device interval)
  | .growing .. =>
      if status = .unclosed then none else some (.growingSpan device)

/-- The first malformation in the order of the device names. -/
def fault? (file : DataFile) : Option Malformation :=
  file.devices.entries.findSome? fun entry => spanFault? file.status entry.1 entry.2

/-- A file without malformation: only an unclosed file has growing spans, and no
closed span is inverted. -/
def Valid (file : DataFile) : Prop :=
  ∀ entry ∈ file.devices.entries,
    match entry.2 with
    | .closed interval => interval.Ordered
    | .growing .. => file.status = .unclosed

/-- Refuses a malformed file. -/
def validate (file : DataFile) : Except Error Unit :=
  match file.fault? with
  | none => .ok ()
  | some cause => .error (.malformed file.id cause)

/-- Moves a file along the lifecycle. -/
def transition (next : Status) (file : DataFile) : Except Error DataFile :=
  if file.status.canBecome next then
    .ok { file with status := next }
  else
    .error (.illegalTransition file.id file.status next)

/-- The span of a device after a write at `time`; a device without one starts a
growing span. -/
def recordedSpan (time : Timestamp) : Option DeviceSpan → DeviceSpan
  | some span => span.record time
  | none => .growingFrom time

/-- Records a write of a device. -/
def record (device : String) (time : Timestamp) (file : DataFile) : DataFile :=
  { file with
    devices := file.devices.insert device (recordedSpan time (file.span? device)) }

/-- The interval that sealing makes of one span.  A supplied end must leave the
interval in order and must not lie before the last write; without one a closed
span stays as it is and a growing one cannot be sealed. -/
def sealedInterval (device : String) (span : DeviceSpan) :
    Option Timestamp → Except Malformation Interval
  | some stop =>
      if ¬ (span.close stop).Ordered then
        .error (.invertedSpan device (span.close stop))
      else if (span.close stop).stop < span.lastWrite then
        .error (.endBeforeLastWrite device span.lastWrite stop)
      else
        .ok (span.close stop)
  | none =>
      match span with
      | .closed interval => .ok interval
      | .growing .. => .error (.missingEnd device)

/-- Seals the listed spans in order; the first that cannot be sealed decides. -/
def sealedEntries (ends : EndTimes) :
    List (String × DeviceSpan) → Except Malformation (List (String × DeviceSpan))
  | [] => .ok []
  | (device, span) :: rest =>
      match sealedInterval device span (ends.get? device) with
      | .error cause => .error cause
      | .ok interval =>
          match sealedEntries ends rest with
          | .error cause => .error cause
          | .ok others => .ok ((device, .closed interval) :: others)

/-- Closes every span with the supplied ends and then the file.  The spans are
looked at before the lifecycle is; ends of unknown devices are ignored. -/
def sealWith (ends : EndTimes) (file : DataFile) : Except Error DataFile :=
  match sealedEntries ends file.devices.entries with
  | .error cause => .error (.malformed file.id cause)
  | .ok entries =>
      match file.transition .closed with
      | .error error => .error error
      | .ok closed => .ok { closed with devices := .ofList _ entries }

theorem comesFirst_iff (first second : DataFile) :
    first.comesFirst second ↔
      first.orderingKey.toNat < second.orderingKey.toNat ∨
        first.orderingKey.toNat = second.orderingKey.toNat ∧ first.id.toNat ≤ second.id.toNat := by
  simp only [comesFirst, Bool.or_eq_true, Bool.and_eq_true, decide_eq_true_eq, beq_iff_eq,
    UInt64.lt_iff_toNat_lt, UInt64.le_iff_toNat_le, UInt64.toNat_inj]

/-- The order by key and number is transitive. -/
theorem comesFirst_trans {first second third : DataFile} (low : first.comesFirst second)
    (high : second.comesFirst third) : first.comesFirst third := by
  rw [comesFirst_iff] at low high ⊢
  omega

/-- Of two files one comes first. -/
theorem comesFirst_total (first second : DataFile) :
    first.comesFirst second || second.comesFirst first := by
  rw [Bool.or_eq_true, comesFirst_iff, comesFirst_iff]
  omega

theorem fault?_eq_none_iff (file : DataFile) : file.fault? = none ↔ file.Valid := by
  simp only [fault?, List.findSome?_eq_none_iff, Valid]
  refine forall_congr' fun entry => imp_congr_right fun _ => ?_
  obtain ⟨device, span⟩ := entry
  cases span with
  | closed interval => by_cases ordered : interval.Ordered <;> simp [spanFault?, ordered]
  | growing start lastWrite =>
      by_cases unclosed : file.status = .unclosed <;> simp [spanFault?, unclosed]

theorem validate_eq_ok_iff (file : DataFile) : file.validate = .ok () ↔ file.Valid := by
  rw [← fault?_eq_none_iff, validate]
  split <;> simp_all

theorem transition_eq_ok_iff (file moved : DataFile) (next : Status) :
    file.transition next = .ok moved ↔
      file.status.canBecome next ∧ moved = { file with status := next } := by
  unfold transition
  split
  · rename_i allowed
    simp only [allowed, true_and, Except.ok.injEq]
    exact eq_comm
  · rename_i forbidden
    simp [forbidden]

end DataFile

end SeriesStore
