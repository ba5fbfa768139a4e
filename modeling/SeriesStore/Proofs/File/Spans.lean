import SeriesStore.Proofs.File.Change

/-!
# Growing spans that end before they start

A file may be handed in with a growing span whose last write lies before its start, since
no check looks for that.  Such a span stays as it is until the device is written again or
the file is sealed, and no change of a registered file makes a new one.

A sidecar brings no such span back: the last write is raised to the start.
-/

namespace SeriesStore

namespace DeviceSpan

/-- A span as a sidecar brings it back. -/
def raised : DeviceSpan → DeviceSpan
  | .closed interval => .closed interval
  | .growing start lastWrite => .growing start (max lastWrite start)

theorem normalize_eq_raised (span : DeviceSpan) : span.normalize = span.raised := by
  cases span <;> rfl

/-- A span that is well formed is taken as it is. -/
theorem raised_eq {span : DeviceSpan} (wellFormed : span.WellFormed) : span.raised = span := by
  cases span with
  | closed _ => rfl
  | growing start lastWrite =>
      have bound : start ≤ lastWrite := wellFormed
      rw [raised, max_eq_ite]
      split
      · rename_i low
        rw [Int64.le_antisymm low bound]
      · rfl

/-- Only a growing span with its last write before its start is not well formed. -/
theorem not_wellFormed_growing_iff (start lastWrite : Timestamp) :
    ¬ (growing start lastWrite).WellFormed ↔ lastWrite < start :=
  Int64.not_le

theorem map_raised_eq {entries : List (String × DeviceSpan)}
    (wellFormed : ∀ entry ∈ entries, entry.2.WellFormed) :
    entries.map (fun entry => (entry.1, entry.2.raised)) = entries := by
  calc
    entries.map (fun entry => (entry.1, entry.2.raised)) = entries.map id :=
      List.map_congr_left fun entry member => by
        rw [raised_eq (wellFormed entry member)]
        rfl
    _ = entries := List.map_id entries

end DeviceSpan

namespace DataFile

/-- A file no growing span of which has its last write before its start. -/
def SpansWellFormed (file : DataFile) : Prop :=
  ∀ entry ∈ file.devices.entries, entry.2.WellFormed

instance (file : DataFile) : Decidable file.SpansWellFormed :=
  inferInstanceAs (Decidable (∀ entry ∈ file.devices.entries, entry.2.WellFormed))

/-- A file with its spans as a sidecar brings them back. -/
def raised (file : DataFile) : DataFile :=
  { file with
    devices := .ofList _ (file.devices.entries.map fun entry => (entry.1, entry.2.raised)) }

variable {file changed : DataFile}

/-- Each device keeps its place. -/
theorem entries_raised (file : DataFile) :
    file.raised.devices.entries =
      file.devices.entries.map fun entry => (entry.1, entry.2.raised) := by
  rw [raised, SortedMap.entries_ofList_eq_iff, List.map_map]
  exact file.devices.keys_increasing

theorem SpansWellFormed.of_devices (spans : file.SpansWellFormed)
    (same : changed.devices = file.devices) : changed.SpansWellFormed := by
  rwa [SpansWellFormed, same]

theorem raised_eq (spans : file.SpansWellFormed) : file.raised = file := by
  rw [raised, DeviceSpan.map_raised_eq spans, SortedMap.ofList_entries]

theorem Valid.raised (valid : file.Valid) : file.raised.Valid := by
  intro entry member
  rw [entries_raised] at member
  rcases List.mem_map.mp member with ⟨⟨device, span⟩, isOwn, rfl⟩
  have own := valid _ isOwn
  cases span with
  | closed interval => exact own
  | growing start lastWrite => exact own

theorem recordedSpan_wellFormed (time : Timestamp) (before : Option DeviceSpan) :
    (recordedSpan time before).WellFormed := by
  cases before with
  | none => exact Int64.le_refl time
  | some span => exact span.record_wellFormed time

/-- A span that is not well formed was there before the change. -/
theorem Change.mem_of_not_wellFormed (change : file.Change changed) {entry : String × DeviceSpan}
    (member : entry ∈ changed.devices.entries) (inverted : ¬ entry.2.WellFormed) :
    entry ∈ file.devices.entries := by
  cases change with
  | recorded _ device time =>
      rcases SortedMap.mem_insertEntry member with rfl | member
      · exact absurd (recordedSpan_wellFormed time (file.span? device)) inverted
      · exact member
  | sealed ends outcome =>
      rcases exists_span_of_sealWith outcome ((SortedMap.get?_eq_some_iff _ _ _).mpr member) with
        ⟨span, interval, _, _, entry_eq⟩
      rw [entry_eq] at inverted
      exact absurd trivial inverted
  | moved next _ outcome =>
      rcases (transition_eq_ok_iff _ _ _).mp outcome with ⟨_, rfl⟩
      exact member

end DataFile

end SeriesStore
