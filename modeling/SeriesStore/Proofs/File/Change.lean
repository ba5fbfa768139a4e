import SeriesStore.File.Basic

/-!
# Changes of a registered file

A registered file changes in three ways only: it takes a write while it is
unclosed, it is sealed, or it moves along the lifecycle after it has been
sealed.  None of them gives it another number or another place in its list, and none
makes a valid file malformed.
-/

namespace SeriesStore.DataFile

/-- One change of a registered file.  A bare move starts from a file that is not
written any more, so growing spans are closed by sealing alone. -/
inductive Change : DataFile → DataFile → Prop where
  | recorded {file : DataFile} (unclosed : file.status = .unclosed) (device : String)
      (time : Timestamp) : Change file (file.record device time)
  | sealed {file changed : DataFile} (ends : EndTimes)
      (outcome : file.sealWith ends = .ok changed) : Change file changed
  | moved {file changed : DataFile} (next : Status) (settled : file.status ≠ .unclosed)
      (outcome : file.transition next = .ok changed) : Change file changed

/-- Sealing closes the spans and then moves the file. -/
theorem sealWith_eq_ok {file changed : DataFile} {ends : EndTimes}
    (outcome : file.sealWith ends = .ok changed) :
    ∃ entries, sealedEntries ends file.devices.entries = .ok entries ∧
      changed = { file with status := .closed, devices := .ofList _ entries } := by
  rw [sealWith] at outcome
  split at outcome
  · contradiction
  · rename_i entries closing
    split at outcome
    · contradiction
    · rename_i closed move
      cases outcome
      rcases (transition_eq_ok_iff _ _ _).mp move with ⟨_, closed_eq⟩
      subst closed_eq
      exact ⟨entries, closing, rfl⟩

/-- When all spans are sealed, each device keeps its place. -/
theorem of_sealedEntries_eq_ok {ends : EndTimes} {entries found : List (String × DeviceSpan)}
    (outcome : sealedEntries ends entries = .ok found) :
    found.map Prod.fst = entries.map Prod.fst ∧ ∀ entry ∈ entries, ∃ interval,
      sealedInterval entry.1 entry.2 (ends.get? entry.1) = .ok interval ∧
        (entry.1, .closed interval) ∈ found := by
  induction entries generalizing found with
  | nil =>
      cases outcome
      simp
  | cons first rest ih =>
      rcases first with ⟨device, span⟩
      rw [sealedEntries] at outcome
      split at outcome
      · contradiction
      rename_i interval sealed
      split at outcome
      · contradiction
      rename_i others more
      cases outcome
      rcases ih more with ⟨keys, each⟩
      refine ⟨congrArg (device :: ·) keys, List.forall_mem_cons.mpr ⟨?_, ?_⟩⟩
      · exact ⟨interval, sealed, List.mem_cons_self⟩
      · intro entry member
        rcases each entry member with ⟨other, otherSealed, inOthers⟩
        exact ⟨other, otherSealed, List.mem_cons_of_mem _ inOthers⟩

/-- A sealed file has the same devices, each with the interval that sealing makes of its
span. -/
theorem span?_of_sealWith {file changed : DataFile} {ends : EndTimes}
    (outcome : file.sealWith ends = .ok changed) (device : String) :
    (changed.span? device = none ↔ file.span? device = none) ∧
      ∀ span, file.span? device = some span → ∃ interval,
        sealedInterval device span (ends.get? device) = .ok interval ∧
          changed.span? device = some (.closed interval) := by
  rcases sealWith_eq_ok outcome with ⟨found, closing, rfl⟩
  rcases of_sealedEntries_eq_ok closing with ⟨keys, each⟩
  have entries_eq : (SortedMap.ofList Text.compareUtf8 found).entries = found := by
    rw [SortedMap.entries_ofList_eq_iff, keys]
    exact file.devices.keys_increasing
  constructor
  · change (SortedMap.ofList Text.compareUtf8 found).get? device = none ↔ _
    rw [span?, SortedMap.get?_eq_none_iff, SortedMap.get?_eq_none_iff, SortedMap.keys,
      SortedMap.keys, entries_eq, keys]
  · intro span held
    have member := (SortedMap.get?_eq_some_iff _ _ _).mp held
    rcases each _ member with ⟨interval, sealed, inFound⟩
    refine ⟨interval, sealed, (SortedMap.get?_eq_some_iff _ _ _).mpr ?_⟩
    rwa [entries_eq]

/-- Every span of a sealed file is the interval that sealing has made of an earlier one. -/
theorem exists_span_of_sealWith {file changed : DataFile} {ends : EndTimes} {device : String}
    {later : DeviceSpan} (outcome : file.sealWith ends = .ok changed)
    (stored : changed.span? device = some later) :
    ∃ span interval, file.span? device = some span ∧
      sealedInterval device span (ends.get? device) = .ok interval ∧
      later = .closed interval := by
  rcases span?_of_sealWith outcome device with ⟨none_iff, some_of⟩
  cases held : file.span? device with
  | none =>
      rw [none_iff.mpr held] at stored
      contradiction
  | some span =>
      rcases some_of span held with ⟨interval, made, found⟩
      exact ⟨span, interval, rfl, made, Option.some.inj (stored.symm.trans found)⟩

/-- What decides the place of a file in its partition does not change. -/
theorem Change.place_eq {file changed : DataFile} (change : file.Change changed) :
    changed.id = file.id ∧ changed.space = file.space ∧
      changed.orderingKey = file.orderingKey := by
  cases change with
  | recorded _ _ _ => exact ⟨rfl, rfl, rfl⟩
  | sealed ends outcome =>
      rcases sealWith_eq_ok outcome with ⟨entries, _, rfl⟩
      exact ⟨rfl, rfl, rfl⟩
  | moved next _ outcome =>
      rcases (transition_eq_ok_iff _ _ _).mp outcome with ⟨_, rfl⟩
      exact ⟨rfl, rfl, rfl⟩

/-- A closed span stays in order when a write widens it. -/
theorem Valid.record {file : DataFile} (valid : file.Valid) (unclosed : file.status = .unclosed)
    (device : String) (time : Timestamp) : (file.record device time).Valid := by
  intro entry member
  rcases SortedMap.mem_insertEntry member with rfl | member
  · cases stored : file.span? device with
    | none => exact unclosed
    | some span =>
        have ordered := valid _ ((SortedMap.get?_eq_some_iff _ _ _).mp stored)
        cases span with
        | closed interval =>
            change interval.start ≤ interval.stop at ordered
            change min interval.start time ≤ max interval.stop time
            rw [min_eq_ite, max_eq_ite]
            grind
        | growing start lastWrite => exact unclosed
  · exact valid entry member

/-- A sealed span is closed and in order. -/
theorem ordered_of_sealedInterval {device : String} {span : DeviceSpan}
    {stop? : Option Timestamp} {interval : Interval}
    (valid : ∀ own, span = .closed own → own.Ordered)
    (outcome : sealedInterval device span stop? = .ok interval) : interval.Ordered := by
  unfold sealedInterval at outcome
  split at outcome
  · rename_i stop
    split at outcome
    · contradiction
    · rename_i ordered
      split at outcome
      · contradiction
      · cases outcome
        exact Decidable.not_not.mp ordered
  · split at outcome
    · rename_i own
      cases outcome
      exact valid _ rfl
    · contradiction

theorem Valid.sealWith {file changed : DataFile} {ends : EndTimes} (valid : file.Valid)
    (outcome : file.sealWith ends = .ok changed) : changed.Valid := by
  intro entry member
  rcases exists_span_of_sealWith outcome ((SortedMap.get?_eq_some_iff _ _ _).mpr member) with
    ⟨span, interval, held, made, entry_eq⟩
  have own : ∀ own, span = .closed own → own.Ordered := by
    rintro own rfl
    exact valid _ ((SortedMap.get?_eq_some_iff _ _ _).mp held)
  rw [entry_eq]
  exact ordered_of_sealedInterval own made

/-- A valid file that is not written any more has closed spans only, which no move
touches. -/
theorem Valid.exists_interval {file : DataFile} (valid : file.Valid)
    (settled : file.status ≠ .unclosed) {entry : String × DeviceSpan}
    (member : entry ∈ file.devices.entries) :
    ∃ interval, entry.2 = .closed interval ∧ interval.Ordered := by
  have own := valid entry member
  cases span_eq : entry.2 with
  | closed interval =>
      rw [span_eq] at own
      exact ⟨interval, rfl, own⟩
  | growing start lastWrite =>
      rw [span_eq] at own
      contradiction

theorem Change.valid {file changed : DataFile} (change : file.Change changed)
    (valid : file.Valid) : changed.Valid := by
  cases change with
  | recorded unclosed device time => exact valid.record unclosed device time
  | sealed ends outcome => exact valid.sealWith outcome
  | moved next settled outcome =>
      rcases (transition_eq_ok_iff _ _ _).mp outcome with ⟨_, rfl⟩
      intro entry member
      rcases valid.exists_interval settled member with ⟨interval, entry_eq, ordered⟩
      rw [entry_eq]
      exact ordered

end SeriesStore.DataFile
