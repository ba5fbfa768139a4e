import Mathlib.Data.List.Induction
import Mathlib.Order.Bounds.Basic
import SeriesStore.Proofs.File.Change

/-!
# Writes and the seal that follows them

While a file is written, each of its spans reaches from the least to the greatest of
the timestamps that are known of the device: one end of the span that was there
before, and the writes.  This is an invariant of recording one more write, so it does
not matter in which order writes come in, or how often.

Sealing then asks of each growing span for an end that no known timestamp exceeds and
that does not come before its start.  If all ends are there, the ends become those of the
spans, and a span that was closed before keeps what lies further out.
-/

namespace SeriesStore

/-! ## The least and the greatest timestamp -/

theorem isLeast_insert_min {times : Set Timestamp} {least time : Timestamp}
    (isLeast : IsLeast times least) : IsLeast (insert time times) (min least time) := by
  rcases isLeast with ⟨member, lower⟩
  rw [min_eq_ite]
  constructor
  · split
    · exact .inr member
    · exact .inl rfl
  · rintro other (rfl | inTimes)
    · grind
    · have bound := lower inTimes
      grind

theorem isGreatest_insert_max {times : Set Timestamp} {greatest time : Timestamp}
    (isGreatest : IsGreatest times greatest) :
    IsGreatest (insert time times) (max greatest time) := by
  rcases isGreatest with ⟨member, upper⟩
  rw [max_eq_ite]
  constructor
  · split
    · exact .inl rfl
    · exact .inr member
  · rintro other (rfl | inTimes)
    · grind
    · have bound := upper inTimes
      grind

/-- A further timestamp that may be there replaces the greatest one if it is greater. -/
theorem isGreatest_union_some {times : Set Timestamp} {greatest : Timestamp}
    (isGreatest : IsGreatest times greatest) (further : Option Timestamp) :
    IsGreatest (times ∪ {time | further = some time})
      (further.elim greatest (max greatest)) := by
  cases further with
  | none => simpa using isGreatest
  | some time =>
      have union_eq : times ∪ {other | some time = some other} = insert time times := by
        ext other
        simp [eq_comm]
      rw [union_eq]
      exact isGreatest_insert_max isGreatest

theorem isLeast_unique {times : Set Timestamp} {first second : Timestamp}
    (isFirst : IsLeast times first) (isSecond : IsLeast times second) : first = second :=
  Int64.le_antisymm (isFirst.2 isSecond.1) (isSecond.2 isFirst.1)

theorem isGreatest_unique {times : Set Timestamp} {first second : Timestamp}
    (isFirst : IsGreatest times first) (isSecond : IsGreatest times second) : first = second :=
  Int64.le_antisymm (isSecond.2 isFirst.1) (isFirst.2 isSecond.1)

namespace DeviceSpan

variable (span : DeviceSpan) (time : Timestamp)

@[simp]
theorem start_record : (span.record time).start = min span.start time := by
  cases span <;> rfl

@[simp]
theorem lastWrite_record : (span.record time).lastWrite = max span.lastWrite time := by
  cases span <;> rfl

@[simp]
theorem isGrowing_record : (span.record time).isGrowing = span.isGrowing := by
  cases span <;> rfl

end DeviceSpan

namespace DataFile

/-! ## Many writes -/

/-- Records writes one after the other. -/
def recordAll (writes : List (String × Timestamp)) (file : DataFile) : DataFile :=
  writes.foldl (fun file write => file.record write.1 write.2) file

/-- The timestamps that are known of a device after writes: one end of the span that the
file had before, and the writes of the device. -/
def known (file : DataFile) (mark : DeviceSpan → Timestamp) (writes : List (String × Timestamp))
    (device : String) : Set Timestamp :=
  {time | (device, time) ∈ writes ∨ ∃ span, file.span? device = some span ∧ mark span = time}

/-- A span that reaches from the least to the greatest timestamp that is known of its
device, and that is closed just when the file had a closed one before. -/
structure Gathered (file : DataFile) (writes : List (String × Timestamp)) (device : String)
    (span : DeviceSpan) : Prop where
  start : IsLeast (file.known DeviceSpan.start writes device) span.start
  lastWrite : IsGreatest (file.known DeviceSpan.lastWrite writes device) span.lastWrite
  isGrowing_iff : span.isGrowing ↔ ∀ interval, file.span? device ≠ some (.closed interval)

@[simp]
theorem span?_record_self (file : DataFile) (device : String) (time : Timestamp) :
    (file.record device time).span? device = some (recordedSpan time (file.span? device)) :=
  SortedMap.get?_insert_self file.devices device _

theorem span?_record_of_ne (file : DataFile) {device asked : String} (ne : asked ≠ device)
    (time : Timestamp) : (file.record device time).span? asked = file.span? asked :=
  SortedMap.get?_insert_of_ne file.devices ne _

theorem recordAll_concat (file : DataFile) (writes : List (String × Timestamp))
    (device : String) (time : Timestamp) :
    file.recordAll (writes ++ [(device, time)]) = (file.recordAll writes).record device time :=
  List.foldl_append

section Known

variable (file : DataFile) (mark : DeviceSpan → Timestamp) (writes : List (String × Timestamp))
  {device : String}

theorem known_concat_self (time : Timestamp) :
    file.known mark (writes ++ [(device, time)]) device =
      insert time (file.known mark writes device) := by
  ext other
  simp only [known, List.mem_append, List.mem_singleton, Prod.mk.injEq, true_and,
    Set.mem_ofPred_eq, Set.mem_insert_iff]
  tauto

theorem known_concat_of_ne {other : String} (ne : device ≠ other) (time : Timestamp) :
    file.known mark (writes ++ [(other, time)]) device = file.known mark writes device := by
  simp [known, ne]

theorem known_of_unknown (absent : file.span? device = none)
    (unwritten : ∀ time, (device, time) ∉ writes) : file.known mark writes device = ∅ := by
  simp [known, absent, unwritten]

end Known

/-- A device has no span after writes if it had none and was not written. -/
theorem span?_recordAll_eq_none_iff (file : DataFile) (writes : List (String × Timestamp))
    (device : String) :
    (file.recordAll writes).span? device = none ↔
      file.span? device = none ∧ ∀ time, (device, time) ∉ writes := by
  induction writes using List.reverseRecOn with
  | nil => simp [recordAll]
  | append_singleton writes write ih =>
      rcases write with ⟨written, time⟩
      rw [recordAll_concat]
      by_cases same : device = written
      · subst same
        rw [span?_record_self]
        constructor
        · intro absent
          contradiction
        · rintro ⟨_, unwritten⟩
          exact absurd (List.mem_append_right writes List.mem_cons_self) (unwritten time)
      · rw [span?_record_of_ne _ same, ih]
        simp [same]

section Gathered

variable {file : DataFile} {writes : List (String × Timestamp)} {device : String}
  {span : DeviceSpan}

/-- The span that a device has before any write. -/
theorem gathered_nil (found : file.span? device = some span) : Gathered file [] device span := by
  constructor
  case start => simp [known, found, IsLeast, lowerBounds]
  case lastWrite => simp [known, found, IsGreatest, upperBounds]
  case isGrowing_iff => cases span <;> simp [found, DeviceSpan.isGrowing]

/-- The first write of a device without a span. -/
theorem gathered_growingFrom (absent : file.span? device = none)
    (unwritten : ∀ time, (device, time) ∉ writes) (time : Timestamp) :
    Gathered file (writes ++ [(device, time)]) device (.growingFrom time) := by
  constructor
  case start =>
    rw [known_concat_self, known_of_unknown _ _ _ absent unwritten]
    simp [DeviceSpan.growingFrom, DeviceSpan.start, IsLeast, lowerBounds]
  case lastWrite =>
    rw [known_concat_self, known_of_unknown _ _ _ absent unwritten]
    simp [DeviceSpan.growingFrom, DeviceSpan.lastWrite, IsGreatest, upperBounds]
  case isGrowing_iff => simp [absent, DeviceSpan.growingFrom, DeviceSpan.isGrowing]

/-- One more write of the device. -/
theorem Gathered.record (gathered : Gathered file writes device span) (time : Timestamp) :
    Gathered file (writes ++ [(device, time)]) device (span.record time) := by
  constructor
  case start =>
    rw [known_concat_self, DeviceSpan.start_record]
    exact isLeast_insert_min gathered.start
  case lastWrite =>
    rw [known_concat_self, DeviceSpan.lastWrite_record]
    exact isGreatest_insert_max gathered.lastWrite
  case isGrowing_iff =>
    rw [DeviceSpan.isGrowing_record]
    exact gathered.isGrowing_iff

/-- A write of another device. -/
theorem Gathered.skip (gathered : Gathered file writes device span) {other : String}
    (ne : device ≠ other) (time : Timestamp) :
    Gathered file (writes ++ [(other, time)]) device span := by
  constructor
  case start =>
    rw [known_concat_of_ne _ _ _ ne]
    exact gathered.start
  case lastWrite =>
    rw [known_concat_of_ne _ _ _ ne]
    exact gathered.lastWrite
  case isGrowing_iff => exact gathered.isGrowing_iff

/-- The span of a device after writes is what has been gathered.  The induction takes the
last write off, since a further write adds one timestamp to those that are known. -/
theorem gathered_of_recordAll (found : (file.recordAll writes).span? device = some span) :
    Gathered file writes device span := by
  induction writes using List.reverseRecOn generalizing span with
  | nil => exact gathered_nil found
  | append_singleton writes write ih =>
      rcases write with ⟨written, time⟩
      rw [recordAll_concat] at found
      by_cases same : device = written
      · subst same
        rw [span?_record_self] at found
        cases found
        cases held : (file.recordAll writes).span? device with
        | none =>
            rcases (span?_recordAll_eq_none_iff file writes device).mp held with
              ⟨absent, unwritten⟩
            exact gathered_growingFrom absent unwritten time
        | some own => exact (ih held).record time
      · rw [span?_record_of_ne _ same] at found
        exact (ih found).skip same time

theorem Gathered.congr {others : List (String × Timestamp)}
    (gathered : Gathered file writes device span)
    (same : ∀ write, write ∈ writes ↔ write ∈ others) : Gathered file others device span where
  start := by simpa only [known, same] using gathered.start
  lastWrite := by simpa only [known, same] using gathered.lastWrite
  isGrowing_iff := gathered.isGrowing_iff

theorem Gathered.unique {other : DeviceSpan} (gathered : Gathered file writes device span)
    (again : Gathered file writes device other) : span = other := by
  have start := isLeast_unique gathered.start again.start
  have lastWrite := isGreatest_unique gathered.lastWrite again.lastWrite
  have growing : span.isGrowing ↔ other.isGrowing :=
    gathered.isGrowing_iff.trans again.isGrowing_iff.symm
  rcases span with ⟨_, _⟩ | ⟨_, _⟩ <;> rcases other with ⟨_, _⟩ | ⟨_, _⟩ <;>
    simp_all [DeviceSpan.start, DeviceSpan.lastWrite, DeviceSpan.isGrowing]

end Gathered

/-- Writes change nothing but the spans. -/
theorem recordAll_eq (file : DataFile) (writes : List (String × Timestamp)) :
    file.recordAll writes = { file with devices := (file.recordAll writes).devices } := by
  induction writes generalizing file with
  | nil => rfl
  | cons write rest ih =>
      change (file.record write.1 write.2).recordAll rest = _
      rw [ih]
      rfl

/-- It does not matter in which order writes come in, or how often. -/
theorem recordAll_congr (file : DataFile) {writes others : List (String × Timestamp)}
    (same : ∀ write, write ∈ writes ↔ write ∈ others) :
    file.recordAll writes = file.recordAll others := by
  have devices : (file.recordAll writes).devices = (file.recordAll others).devices := by
    apply SortedMap.ext_get?
    intro device
    change (file.recordAll writes).span? device = (file.recordAll others).span? device
    have none_iff := (span?_recordAll_eq_none_iff file writes device).trans
      (Iff.trans (by simp only [same]) (span?_recordAll_eq_none_iff file others device).symm)
    cases first : (file.recordAll writes).span? device with
    | none => exact (none_iff.mp first).symm
    | some span =>
        cases second : (file.recordAll others).span? device with
        | none =>
            rw [none_iff.mpr second] at first
            contradiction
        | some other =>
            have gathered := (gathered_of_recordAll first).congr same
            rw [gathered.unique (gathered_of_recordAll second)]
  rw [recordAll_eq, recordAll_eq file others, devices]

/-! ## Sealing -/

section Seal

variable {ends : EndTimes} {device : String} {interval : Interval}

/-- A growing span is sealed when its end is supplied and lies neither before its start nor
before its last write. -/
theorem sealedInterval_growing_eq_ok_iff (start lastWrite : Timestamp)
    (supplied : Option Timestamp) :
    sealedInterval device (.growing start lastWrite) supplied = .ok interval ↔
      ∃ stop, supplied = some stop ∧ start ≤ stop ∧ lastWrite ≤ stop ∧
        interval = ⟨start, stop⟩ := by
  cases supplied with
  | none => simp [sealedInterval]
  | some stop =>
      simp only [sealedInterval, DeviceSpan.close, DeviceSpan.lastWrite, Interval.Ordered]
      by_cases ordered : start ≤ stop
      · by_cases late : stop < lastWrite
        · simp [ordered, late]
        · simp [ordered, late, Int64.not_lt.mp late, eq_comm]
      · simp [ordered]

/-- A closed span in order is always sealed, and keeps the later end. -/
theorem sealedInterval_closed {own : Interval} (ordered : own.Ordered)
    (supplied : Option Timestamp) :
    sealedInterval device (.closed own) supplied =
      .ok ⟨own.start, supplied.elim own.stop (max own.stop)⟩ := by
  cases supplied with
  | none => rfl
  | some stop =>
      have stays : own.stop ≤ max own.stop stop := by
        rw [max_eq_ite]
        grind
      have stillOrdered : own.start ≤ max own.stop stop := Int64.le_trans ordered stays
      simp [sealedInterval, DeviceSpan.close, DeviceSpan.lastWrite, Interval.Ordered,
        stillOrdered, Int64.not_lt.mpr stays]

theorem exists_sealedEntries {entries : List (String × DeviceSpan)}
    (each : ∀ entry ∈ entries, ∃ interval,
      sealedInterval entry.1 entry.2 (ends.get? entry.1) = .ok interval) :
    ∃ found, sealedEntries ends entries = .ok found := by
  induction entries with
  | nil => exact ⟨[], rfl⟩
  | cons first rest ih =>
      rcases List.forall_mem_cons.mp each with ⟨⟨interval, sealed⟩, others⟩
      rcases ih others with ⟨found, more⟩
      rw [sealedEntries, sealed, more]
      exact ⟨_, rfl⟩

/-- A file is sealed when each of its spans is and the lifecycle allows it. -/
theorem exists_sealWith_iff (file : DataFile) (ends : EndTimes) :
    (∃ changed, file.sealWith ends = .ok changed) ↔
      file.status.canBecome .closed ∧ ∀ device span, file.span? device = some span →
        ∃ interval, sealedInterval device span (ends.get? device) = .ok interval := by
  constructor
  · rintro ⟨changed, outcome⟩
    rw [sealWith] at outcome
    split at outcome
    · contradiction
    rename_i entries closing
    split at outcome
    · contradiction
    rename_i closed move
    refine ⟨((transition_eq_ok_iff _ _ _).mp move).1, fun device span held => ?_⟩
    have member := (SortedMap.get?_eq_some_iff _ _ _).mp held
    rcases (of_sealedEntries_eq_ok closing).2 _ member with ⟨interval, sealed, _⟩
    exact ⟨interval, sealed⟩
  · rintro ⟨allowed, each⟩
    have closing : ∃ found, sealedEntries ends file.devices.entries = .ok found := by
      apply exists_sealedEntries
      intro entry member
      exact each entry.1 entry.2 ((SortedMap.get?_eq_some_iff _ _ _).mpr member)
    rcases closing with ⟨found, closing⟩
    have move := (transition_eq_ok_iff file _ .closed).mpr ⟨allowed, rfl⟩
    rw [sealWith, closing, move]
    exact ⟨_, rfl⟩

/-- Ends of devices that the file does not know are not looked at. -/
theorem sealWith_congr {file : DataFile} {others : EndTimes}
    (same : ∀ device span, file.span? device = some span →
      ends.get? device = others.get? device) :
    file.sealWith ends = file.sealWith others := by
  have entries_eq : ∀ entries ⊆ file.devices.entries,
      sealedEntries ends entries = sealedEntries others entries := by
    intro entries
    induction entries with
    | nil => exact fun _ => rfl
    | cons first rest ih =>
        intro within
        rcases first with ⟨device, span⟩
        rcases List.cons_subset.mp within with ⟨member, restWithin⟩
        rw [sealedEntries, sealedEntries, ih restWithin,
          same device span ((SortedMap.get?_eq_some_iff _ _ _).mpr member)]
  rw [sealWith, sealWith, entries_eq _ (List.Subset.refl _)]

end Seal

/-! ## A seal after writes -/

/-- Whether a device has a growing span after writes: it had one before, or its first write
has made one. -/
def Grows (file : DataFile) (writes : List (String × Timestamp)) (device : String) : Prop :=
  (∃ start lastWrite, file.span? device = some (.growing start lastWrite)) ∨
    file.span? device = none ∧ ∃ time, (device, time) ∈ writes

/-- Whether there is an end for each growing span that no timestamp known of its device
exceeds and that does not come before the span starts.  The second asks for something only if
the device has not been written and its last write lies before its start. -/
def Sealable (file : DataFile) (writes : List (String × Timestamp)) (ends : EndTimes) : Prop :=
  ∀ device, file.Grows writes device → ∃ stop, ends.get? device = some stop ∧
    (∀ time ∈ file.known DeviceSpan.lastWrite writes device, time ≤ stop) ∧
    ∃ time ∈ file.known DeviceSpan.start writes device, time ≤ stop

/-- What a file becomes that takes writes and is then sealed.  Each write lies in the span of
its device. -/
structure SealedAfter (file : DataFile) (writes : List (String × Timestamp)) (ends : EndTimes)
    (sealed : DataFile) : Prop where
  closed : ∃ devices, sealed = { file with status := .closed, devices := devices }
  validated : sealed.validate = .ok ()
  kept : ∀ device time, (device, time) ∈ writes →
    ∃ interval, sealed.span? device = some (.closed interval) ∧ interval.Contains time
  grown : ∀ device, file.Grows writes device → ∃ start stop,
    sealed.span? device = some (.closed ⟨start, stop⟩) ∧
      IsLeast (file.known DeviceSpan.start writes device) start ∧
      ends.get? device = some stop
  widened : ∀ device interval, file.span? device = some (.closed interval) → ∃ start stop,
    sealed.span? device = some (.closed ⟨start, stop⟩) ∧
      IsLeast (file.known DeviceSpan.start writes device) start ∧
      IsGreatest (file.known DeviceSpan.lastWrite writes device ∪
        {time | ends.get? device = some time}) stop
  unknown : ∀ device, file.span? device = none → (∀ time, (device, time) ∉ writes) →
    sealed.span? device = none

theorem Valid.recordAll {file : DataFile} (valid : file.Valid) (unclosed : file.status = .unclosed)
    (writes : List (String × Timestamp)) : (file.recordAll writes).Valid := by
  induction writes generalizing file with
  | nil => exact valid
  | cons write rest ih => exact ih (valid.record unclosed write.1 write.2) unclosed

section SealAfterWrites

variable {file : DataFile} {writes : List (String × Timestamp)} {device : String}

theorem status_recordAll (file : DataFile) (writes : List (String × Timestamp)) :
    (file.recordAll writes).status = file.status := by
  rw [recordAll_eq]

theorem isGrowing_iff_grows {span : DeviceSpan}
    (found : (file.recordAll writes).span? device = some span) :
    span.isGrowing ↔ file.Grows writes device := by
  rw [(gathered_of_recordAll found).isGrowing_iff]
  cases held : file.span? device with
  | none =>
      have written : ∃ time, (device, time) ∈ writes := by
        by_contra unwritten
        have absent := (span?_recordAll_eq_none_iff file writes device).mpr
          ⟨held, not_exists.mp unwritten⟩
        rw [absent] at found
        contradiction
      simp [Grows, held, written]
  | some own => cases own <;> simp [Grows, held]

/-- The devices that have a growing span after writes are those for which an end must be
supplied. -/
theorem grows_iff :
    file.Grows writes device ↔
      ∃ start lastWrite, (file.recordAll writes).span? device = some (.growing start lastWrite) := by
  constructor
  · intro grows
    cases held : (file.recordAll writes).span? device with
    | none =>
        rcases (span?_recordAll_eq_none_iff file writes device).mp held with ⟨absent, unwritten⟩
        simp [Grows, absent, unwritten] at grows
    | some span =>
        have growing := (isGrowing_iff_grows held).mpr grows
        cases span with
        | closed interval => contradiction
        | growing start lastWrite => exact ⟨start, lastWrite, rfl⟩
  · rintro ⟨start, lastWrite, held⟩
    exact (isGrowing_iff_grows held).mp rfl

variable (valid : file.Valid) (unclosed : file.status = .unclosed)

include valid unclosed

/-- A span that is closed after writes is in order, so sealing keeps the later end. -/
theorem sealedInterval_recordAll_closed {own : Interval}
    (held : (file.recordAll writes).span? device = some (.closed own))
    (supplied : Option Timestamp) :
    sealedInterval device (.closed own) supplied =
      .ok ⟨own.start, supplied.elim own.stop (max own.stop)⟩ :=
  sealedInterval_closed
    (valid.recordAll unclosed writes _ ((SortedMap.get?_eq_some_iff _ _ _).mp held)) supplied

/-- A seal after writes succeeds when the ends suffice, and otherwise not. -/
theorem exists_seal_iff (ends : EndTimes) :
    (∃ sealed, (file.recordAll writes).sealWith ends = .ok sealed) ↔ file.Sealable writes ends := by
  have allowed : (file.recordAll writes).status.canBecome .closed := by
    rw [status_recordAll, unclosed]
    rfl
  rw [exists_sealWith_iff, and_iff_right allowed]
  constructor
  · intro each device grows
    rcases grows_iff.mp grows with ⟨start, lastWrite, held⟩
    rcases each device _ held with ⟨interval, sealed⟩
    rcases (sealedInterval_growing_eq_ok_iff _ _ _).mp sealed with
      ⟨stop, supplied, ordered, late, _⟩
    have gathered := gathered_of_recordAll held
    exact ⟨stop, supplied, fun time known => Int64.le_trans (gathered.lastWrite.2 known) late,
      start, gathered.start.1, ordered⟩
  · intro sealable device span held
    cases span with
    | closed own => exact ⟨_, sealedInterval_recordAll_closed valid unclosed held _⟩
    | growing start lastWrite =>
        rcases sealable device (grows_iff.mpr ⟨start, lastWrite, held⟩) with
          ⟨stop, supplied, upper, time, known, lower⟩
        have gathered := gathered_of_recordAll held
        have ordered : start ≤ stop := Int64.le_trans (gathered.start.2 known) lower
        have late : lastWrite ≤ stop := upper _ gathered.lastWrite.1
        exact ⟨⟨start, stop⟩, (sealedInterval_growing_eq_ok_iff _ _ _).mpr
          ⟨stop, supplied, ordered, late, rfl⟩⟩

/-- A sealed span starts where the span did after the writes, and nothing that is known of
the device comes after its end. -/
theorem sealed_span {ends : EndTimes} {sealed : DataFile}
    (outcome : (file.recordAll writes).sealWith ends = .ok sealed) {span : DeviceSpan}
    (held : (file.recordAll writes).span? device = some span) :
    ∃ stop, sealed.span? device = some (.closed ⟨span.start, stop⟩) ∧
      (∀ time ∈ file.known DeviceSpan.lastWrite writes device, time ≤ stop) ∧
      match span with
      | .growing .. => ends.get? device = some stop
      | .closed _ => IsGreatest (file.known DeviceSpan.lastWrite writes device ∪
          {time | ends.get? device = some time}) stop := by
  have gathered := gathered_of_recordAll held
  rcases (span?_of_sealWith outcome device).2 span held with ⟨interval, made, found⟩
  cases span with
  | growing start lastWrite =>
      rcases (sealedInterval_growing_eq_ok_iff _ _ _).mp made with ⟨stop, supplied, _, late, rfl⟩
      exact ⟨stop, found, fun time known => Int64.le_trans (gathered.lastWrite.2 known) late,
        supplied⟩
  | closed own =>
      rw [sealedInterval_recordAll_closed valid unclosed held] at made
      cases made
      have greatest := isGreatest_union_some gathered.lastWrite (ends.get? device)
      exact ⟨_, found, fun time known => greatest.2 (.inl known), greatest⟩

theorem sealedAfter_of_sealWith {ends : EndTimes} {sealed : DataFile}
    (outcome : (file.recordAll writes).sealWith ends = .ok sealed) :
    SealedAfter file writes ends sealed := by
  constructor
  case closed =>
    rcases sealWith_eq_ok outcome with ⟨entries, _, rfl⟩
    rw [recordAll_eq]
    exact ⟨_, rfl⟩
  case validated =>
    exact (validate_eq_ok_iff _).mpr ((valid.recordAll unclosed writes).sealWith outcome)
  case kept =>
    intro device time written
    cases held : (file.recordAll writes).span? device with
    | none =>
        have unwritten := ((span?_recordAll_eq_none_iff _ _ _).mp held).2 time
        contradiction
    | some span =>
        rcases sealed_span valid unclosed outcome held with ⟨stop, found, upper, _⟩
        have lower := (gathered_of_recordAll held).start.2
        exact ⟨_, found, lower (.inl written), upper time (.inl written)⟩
  case grown =>
    intro device grows
    rcases grows_iff.mp grows with ⟨start, lastWrite, held⟩
    rcases sealed_span valid unclosed outcome held with ⟨stop, found, _, supplied⟩
    exact ⟨start, stop, found, (gathered_of_recordAll held).start, supplied⟩
  case widened =>
    intro device interval before
    cases held : (file.recordAll writes).span? device with
    | none =>
        have absent := ((span?_recordAll_eq_none_iff _ _ _).mp held).1
        rw [absent] at before
        contradiction
    | some span =>
        have gathered := gathered_of_recordAll held
        rcases sealed_span valid unclosed outcome held with ⟨stop, found, _, greatest⟩
        cases span with
        | growing start lastWrite => exact absurd before (gathered.isGrowing_iff.mp rfl interval)
        | closed own => exact ⟨own.start, stop, found, gathered.start, greatest⟩
  case unknown =>
    intro device absent unwritten
    rw [(span?_of_sealWith outcome device).1, span?_recordAll_eq_none_iff]
    exact ⟨absent, unwritten⟩

end SealAfterWrites

end DataFile

end SeriesStore
