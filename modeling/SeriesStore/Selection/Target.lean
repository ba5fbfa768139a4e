import SeriesStore.Selection.Config

/-!
# Targets

The points of an unsequence file have to be merged into sequence files.  For
every device of it these are:

* all sequence files whose data of the device overlaps it, if there are any;
* otherwise the first one that follows it, if that one is available;
* otherwise the last one that precedes it, if that one is available;
* and none when no sequence file holds the device at all.

When an overlapping file is not available, or neither neighbour is, the
unsequence file is blocked.  Sequence files are listed by ordering key and
number, and first and last are meant in this order.
-/

namespace SeriesStore.Selection

/-- Where the data of a device in a file lies relative to an interval. -/
def positionOf (device : String) (interval : Interval) (file : DataFile) : Option Position :=
  (file.span? device).map fun span => span.position interval

/-- The files whose data of a device has the given position. -/
def filesAt (position : Position) (device : String) (interval : Interval)
    (sequence : List DataFile) : List DataFile :=
  sequence.filter fun file => positionOf device interval file = some position

/-- The file that follows, or else the one that precedes, if it is available. -/
def neighbour? (available : DataFile → Bool) (device : String) (interval : Interval)
    (sequence : List DataFile) : Option DataFile :=
  ((filesAt .after device interval sequence).head?.filter available).or
    ((filesAt .before device interval sequence).getLast?.filter available)

/-- The targets of one device, or nothing when it is blocked. -/
def deviceTargets? (available : DataFile → Bool) (sequence : List DataFile) (device : String)
    (interval : Interval) : Option (List DataFile) :=
  let overlapping := filesAt .overlapping device interval sequence
  if overlapping.all available then
    if overlapping.isEmpty then
      match neighbour? available device interval sequence with
      | some neighbour => some [neighbour]
      | none => if sequence.any fun file => file.holds device then none else some []
    else
      some overlapping
  else
    none

/-- The targets of the listed devices together. -/
def allTargets? (available : DataFile → Bool) (sequence : List DataFile) :
    List (String × Interval) → Option (List DataFile)
  | [] => some []
  | (device, interval) :: rest =>
      match deviceTargets? available sequence device interval with
      | none => none
      | some targets =>
          match allTargets? available sequence rest with
          | none => none
          | some others => some (targets ++ others)

/-- The targets of an unsequence file, each once and in the order of the sequence
files, or nothing when it is blocked. -/
def fileTargets? (available : DataFile → Bool) (sequence : List DataFile) (late : DataFile) :
    Option (List DataFile) :=
  (allTargets? available sequence late.closedIntervals).map fun targets =>
    sequence.filter fun file => targets.any fun target => target.id == file.id

theorem mem_filesAt {position : Position} {device : String} {interval : Interval}
    {sequence : List DataFile} {file : DataFile} :
    file ∈ filesAt position device interval sequence ↔
      file ∈ sequence ∧ positionOf device interval file = some position := by
  simp [filesAt]

/-- Overlapping files are targets all together or not at all. -/
theorem deviceTargets?_of_overlapping {available : DataFile → Bool} {sequence : List DataFile}
    {device : String} {interval : Interval}
    (ne : filesAt .overlapping device interval sequence ≠ []) :
    deviceTargets? available sequence device interval =
      if (filesAt .overlapping device interval sequence).all available then
        some (filesAt .overlapping device interval sequence)
      else
        none := by
  simp [deviceTargets?, ne]

/-- Without an overlapping file the targets are a neighbour, or nothing when no
file holds the device. -/
theorem deviceTargets?_of_no_overlapping {available : DataFile → Bool} {sequence : List DataFile}
    {device : String} {interval : Interval}
    (nil : filesAt .overlapping device interval sequence = []) :
    deviceTargets? available sequence device interval =
      match neighbour? available device interval sequence with
      | some neighbour => some [neighbour]
      | none => if sequence.any fun file => file.holds device then none else some [] := by
  simp [deviceTargets?, nil]

/-- Targets of several devices are those of each of them. -/
theorem mem_allTargets? {available : DataFile → Bool} {sequence : List DataFile}
    {devices : List (String × Interval)} {targets : List DataFile}
    (found : allTargets? available sequence devices = some targets) (file : DataFile) :
    file ∈ targets ↔
      ∃ entry ∈ devices, ∃ own,
        deviceTargets? available sequence entry.1 entry.2 = some own ∧ file ∈ own := by
  induction devices generalizing targets with
  | nil =>
      cases found
      simp
  | cons entry rest ih =>
      obtain ⟨device, interval⟩ := entry
      simp only [allTargets?] at found
      cases first : deviceTargets? available sequence device interval with
      | none => simp [first] at found
      | some own =>
          cases others : allTargets? available sequence rest with
          | none => simp [first, others] at found
          | some more =>
              simp only [first, others, Option.some.injEq] at found
              subst found
              simp [first, ih others]

/-- A file is blocked when one of its devices is. -/
theorem allTargets?_eq_none_iff {available : DataFile → Bool} {sequence : List DataFile}
    (devices : List (String × Interval)) :
    allTargets? available sequence devices = none ↔
      ∃ entry ∈ devices, deviceTargets? available sequence entry.1 entry.2 = none := by
  induction devices with
  | nil => simp [allTargets?]
  | cons entry rest ih =>
      obtain ⟨device, interval⟩ := entry
      simp only [allTargets?]
      cases first : deviceTargets? available sequence device interval with
      | none => simp [first]
      | some own =>
          cases others : allTargets? available sequence rest with
          | none => simpa [first] using ih.mp others
          | some more =>
              rw [others] at ih
              simpa [first] using ih

end SeriesStore.Selection
