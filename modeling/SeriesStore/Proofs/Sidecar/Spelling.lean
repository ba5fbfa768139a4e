import SeriesStore.Proofs.Collection.Weight
import SeriesStore.Proofs.Sidecar.RoundTrip

/-!
# What the bytes of a sidecar spell

A reader takes a value from bytes when whatever it returns is spelled by the bytes that it has
consumed, and when it never looks further than the bytes that it was given.  Readers that run one
after the other take the spellings one after the other, so a record that has been read is spelled
by its body, byte by byte.

Together with reading back what was written this says exactly which bytes are a sidecar, and of
which record.
-/

namespace SeriesStore.Sidecar

/-! ## Readers and what they consume -/

/-- Whether what a reader returns is spelled by the bytes that it consumes, and whether the offset
at which it finds the bytes to end lies among them. -/
structure Takes {α : Type} (reader : Reader α) (spells : List UInt8 → α → Prop) : Prop where
  consumed : ∀ before value after, reader before = .ok (value, after) →
    ∃ taken, before.rest = taken ++ after.rest ∧
      after.offset = before.offset + taken.length ∧ spells taken value
  inside : ∀ before offset, reader before = .error (.damaged (.endsEarly offset)) →
    offset ≤ before.offset + before.rest.length

variable {α β : Type} {reader : Reader α} {next : α → Reader β}
  {first : List UInt8 → α → Prop} {target : List UInt8 → β → Prop}

theorem takes_pure {value : α} (spelled : first [] value) : Takes (pure value) first where
  consumed := by
    intro before returned after outcome
    cases outcome
    exact ⟨[], rfl, rfl, spelled⟩
  inside := by
    intro before offset outcome
    cases outcome

theorem takes_throw {error : Error} (other : ∀ offset, error ≠ .damaged (.endsEarly offset)) :
    Takes (throw error) first where
  consumed := by
    intro before value after outcome
    cases outcome
  inside := by
    intro before offset outcome
    exact absurd (Except.error.inj outcome) (other offset)

theorem bind_eq_ok_iff (before after : Cursor) (result : β) :
    (reader >>= next) before = .ok (result, after) ↔
      ∃ value middle, reader before = .ok (value, middle) ∧
        next value middle = .ok (result, after) := by
  change (reader before >>= fun pair => next pair.1 pair.2) = _ ↔ _
  cases reader before with
  | error error => simp [bind, Except.bind]
  | ok pair =>
      constructor
      · intro outcome
        exact ⟨pair.1, pair.2, rfl, outcome⟩
      · rintro ⟨value, middle, read, finished⟩
        cases read
        exact finished

theorem bind_eq_error_iff (before : Cursor) (error : Error) :
    (reader >>= next) before = .error error ↔
      reader before = .error error ∨
        ∃ value middle, reader before = .ok (value, middle) ∧
          next value middle = .error error := by
  change (reader before >>= fun pair => next pair.1 pair.2) = _ ↔ _
  cases reader before with
  | error error => simp [bind, Except.bind]
  | ok pair =>
      constructor
      · intro outcome
        exact .inr ⟨pair.1, pair.2, rfl, outcome⟩
      · rintro (failed | ⟨value, middle, read, failed⟩)
        · contradiction
        · cases read
          exact failed

/-- A reader that runs after another one finishes the spelling. -/
theorem Takes.bind (own : Takes reader first)
    (others : ∀ front value, first front value →
      Takes (next value) fun back result => target (front ++ back) result) :
    Takes (reader >>= next) target where
  consumed := by
    intro before result after outcome
    rcases (bind_eq_ok_iff _ _ _).mp outcome with ⟨value, middle, read, finished⟩
    rcases own.consumed _ _ _ read with ⟨front, front_eq, front_offset, spelled⟩
    rcases (others front value spelled).consumed _ _ _ finished with
      ⟨back, back_eq, back_offset, whole⟩
    refine ⟨front ++ back, ?_, ?_, whole⟩
    · rw [front_eq, back_eq, List.append_assoc]
    · rw [back_offset, front_offset, List.length_append, Nat.add_assoc]
  inside := by
    intro before offset outcome
    rcases (bind_eq_error_iff _ _).mp outcome with failed | ⟨value, middle, read, failed⟩
    · exact own.inside _ _ failed
    · rcases own.consumed _ _ _ read with ⟨front, front_eq, front_offset, spelled⟩
      have bound := (others front value spelled).inside _ _ failed
      rw [front_offset] at bound
      rw [front_eq, List.length_append, ← Nat.add_assoc]
      exact bound

theorem takes_bytes (count : Nat) :
    Takes (Reader.bytes count) fun taken bytes => taken = bytes ∧ bytes.length = count where
  consumed := by
    intro before bytes after outcome
    rcases (Reader.bytes_eq_ok_iff _ _ _ _).mp outcome with ⟨rest_eq, length, offset_eq⟩
    exact ⟨bytes, rest_eq, by rw [offset_eq, length], rfl, length⟩
  inside := by
    intro before offset outcome
    unfold Reader.bytes at outcome
    split at outcome
    · cases outcome
      exact Nat.le_add_right _ _
    · contradiction

theorem takes_word (width : Nat) :
    Takes (Reader.word width) fun taken value =>
      taken = wordBytes width value ∧ value < wordRange width := by
  apply (takes_bytes width).bind
  rintro bytes _ ⟨rfl, rfl⟩
  apply takes_pure
  rw [List.append_nil, wordBytes_wordValue]
  exact ⟨rfl, wordValue_lt bytes⟩

theorem takes_byte : Takes Reader.byte fun taken byte => taken = [byte] := by
  apply (takes_word 1).bind
  rintro _ value ⟨rfl, _⟩
  exact takes_pure (List.append_nil _)

theorem takes_timestamp : Takes Reader.timestamp fun taken time => taken = timestampBytes time := by
  apply (takes_word 8).bind
  rintro _ value ⟨rfl, fits⟩
  apply takes_pure
  rw [List.append_nil, timestampBytes, UInt64.toUInt64_toInt64,
    UInt64.toNat_ofNat_of_lt' fits]

/-- A counted run of items is spelled item by item. -/
theorem takes_repeated {item : Reader α} {bytesOf : α → List UInt8} {holds : α → Prop}
    (each : Takes item fun taken value => taken = bytesOf value ∧ holds value) (count : Nat) :
    Takes (Reader.repeated item count) fun taken items =>
      taken = items.flatMap bytesOf ∧ items.length = count ∧ ∀ value ∈ items, holds value := by
  induction count with
  | zero => exact takes_pure ⟨rfl, rfl, by simp⟩
  | succ count ih =>
      apply each.bind
      rintro _ value ⟨rfl, own⟩
      apply ih.bind
      rintro _ items ⟨rfl, rfl, all⟩
      apply takes_pure
      exact ⟨by rw [List.append_nil, List.flatMap_cons], rfl, List.forall_mem_cons.mpr ⟨own, all⟩⟩

/-! ## Entries -/

/-- The text that bytes are read as has these bytes. -/
theorem utf8_of_fromUTF8? {bytes : List UInt8} {text : String}
    (read : String.fromUTF8? bytes.toByteArray = some text) : Text.utf8 text = bytes := by
  unfold String.fromUTF8? at read
  split at read
  · cases read
    change bytes.toByteArray.data.toList = bytes
    rw [List.data_toByteArray]
  · contradiction

theorem takes_name :
    Takes readName fun taken device =>
      taken = wordBytes 2 (Text.utf8 device).length ++ Text.utf8 device ∧
        (Text.utf8 device).length ≤ maxNameSize := by
  apply (takes_word 2).bind
  rintro _ size ⟨rfl, fits⟩
  apply (takes_bytes size).bind
  rintro _ bytes ⟨rfl, rfl⟩
  split
  · rename_i device read
    apply takes_pure
    rw [List.append_nil, utf8_of_fromUTF8? read]
    exact ⟨rfl, Nat.le_of_lt_succ fits⟩
  · exact takes_throw (by simp)

theorem spanOfKind?_eq_some {kind : UInt8} {start stop : Timestamp} {span : DeviceSpan}
    (known : spanOfKind? kind start stop = some span) :
    spanKind span = kind ∧ span.start = start ∧ span.lastWrite = stop := by
  unfold spanOfKind? at known
  split at known
  · cases known
    exact ⟨rfl, rfl, rfl⟩
  · cases known
    exact ⟨rfl, rfl, rfl⟩
  · contradiction

theorem takes_entry :
    Takes readEntry fun taken entry =>
      taken = entryBytes entry ∧ (Text.utf8 entry.1).length ≤ maxNameSize := by
  apply takes_name.bind
  rintro _ device ⟨rfl, short⟩
  apply takes_byte.bind
  rintro _ kind rfl
  apply takes_timestamp.bind
  rintro _ start rfl
  apply takes_timestamp.bind
  rintro _ stop rfl
  split
  · rename_i span known
    rcases spanOfKind?_eq_some known with ⟨rfl, rfl, rfl⟩
    apply takes_pure
    refine ⟨?_, short⟩
    simp only [entryBytes, List.append_nil, List.append_assoc]
  · exact takes_throw (by simp)

/-! ## Records -/

theorem takes_openingMark : Takes readOpeningMark fun taken _ => taken = openingMark := by
  apply (takes_bytes 4).bind
  rintro _ mark ⟨rfl, _⟩
  split
  · exact takes_throw (by simp)
  · rename_i same
    exact takes_pure (by rw [List.append_nil, Decidable.not_not.mp same])

theorem takes_version : Takes readVersion fun taken _ => taken = wordBytes 2 version := by
  apply (takes_word 2).bind
  rintro _ found ⟨rfl, _⟩
  split
  · exact takes_throw (by simp)
  · rename_i same
    exact takes_pure (by rw [List.append_nil, Decidable.not_not.mp same])

theorem takes_space : Takes readSpace fun taken space => taken = [space.code] := by
  apply takes_byte.bind
  rintro _ code rfl
  split
  · rename_i space known
    exact takes_pure (by rw [Space.code_of_ofCode? known]; rfl)
  · exact takes_throw (by simp)

theorem takes_status : Takes readStatus fun taken status => taken = [status.code] := by
  apply takes_byte.bind
  rintro _ code rfl
  split
  · rename_i status known
    exact takes_pure (by rw [Status.code_of_ofCode? known]; rfl)
  · exact takes_throw (by simp)

/-- Whether what a reader returns is spelled by all the bytes that are left, and whether the offset
at which it finds the bytes to end lies among them. -/
structure TakesAll (reader : Reader α) (spells : List UInt8 → α → Prop) : Prop where
  consumed : ∀ before value after, reader before = .ok (value, after) → spells before.rest value
  inside : ∀ before offset, reader before = .error (.damaged (.endsEarly offset)) →
    offset ≤ before.offset + before.rest.length

theorem Takes.bindAll (own : Takes reader first)
    (others : ∀ front value, first front value →
      TakesAll (next value) fun back result => target (front ++ back) result) :
    TakesAll (reader >>= next) target where
  consumed := by
    intro before result after outcome
    rcases (bind_eq_ok_iff _ _ _).mp outcome with ⟨value, middle, read, finished⟩
    rcases own.consumed _ _ _ read with ⟨front, front_eq, _, spelled⟩
    rw [front_eq]
    exact (others front value spelled).consumed _ _ _ finished
  inside := by
    intro before offset outcome
    rcases (bind_eq_error_iff _ _).mp outcome with failed | ⟨value, middle, read, failed⟩
    · exact own.inside _ _ failed
    · rcases own.consumed _ _ _ read with ⟨front, front_eq, front_offset, spelled⟩
      have bound := (others front value spelled).inside _ _ failed
      rw [front_offset] at bound
      rw [front_eq, List.length_append, ← Nat.add_assoc]
      exact bound

/-- At the end nothing is left to spell. -/
theorem takesAll_atEnd {value : α} (spelled : first [] value) :
    TakesAll (Reader.atEnd >>= fun _ => pure value) first where
  consumed := by
    rintro ⟨offset, rest⟩ returned after outcome
    cases rest with
    | nil =>
        cases outcome
        exact spelled
    | cons byte others => cases outcome
  inside := by
    rintro ⟨offset, rest⟩ early outcome
    cases rest with
    | nil => cases outcome
    | cons byte others => cases outcome

/-- A record that has been read is spelled by the bytes field by field, and it fits. -/
theorem takesAll_record :
    TakesAll readRecord fun taken record => taken = record.bodyBytes ∧ record.Fits := by
  apply takes_openingMark.bindAll
  rintro _ _ rfl
  apply takes_version.bindAll
  rintro _ _ rfl
  apply takes_space.bindAll
  rintro _ space rfl
  apply takes_status.bindAll
  rintro _ status rfl
  apply (takes_word 8).bindAll
  rintro _ id ⟨rfl, idFits⟩
  apply (takes_word 8).bindAll
  rintro _ orderingKey ⟨rfl, orderingKeyFits⟩
  apply (takes_word 8).bindAll
  rintro _ size ⟨rfl, sizeFits⟩
  apply (takes_word 4).bindAll
  rintro _ innerLevel ⟨rfl, innerLevelFits⟩
  apply (takes_word 4).bindAll
  rintro _ crossLevel ⟨rfl, crossLevelFits⟩
  apply (takes_word 4).bindAll
  rintro _ count ⟨rfl, countFits⟩
  apply (takes_repeated takes_entry count).bindAll
  rintro _ entries ⟨rfl, rfl, names⟩
  apply takesAll_atEnd
  refine ⟨?_, names, countFits⟩
  simp only [Record.bodyBytes, Record.headerBytes, UInt64.toNat_ofNat_of_lt' idFits,
    UInt64.toNat_ofNat_of_lt' orderingKeyFits, UInt64.toNat_ofNat_of_lt' sizeFits,
    UInt32.toNat_ofNat_of_lt' innerLevelFits, UInt32.toNat_ofNat_of_lt' crossLevelFits,
    List.append_nil, List.append_assoc, List.cons_append, List.nil_append]

/-! ## Sidecars -/

/-- Bytes are a body with its footer when they end in the checksum of the bytes before it and the
closing mark. -/
theorem eq_withFooter_iff (bytes body : List UInt8) :
    bytes = withFooter body ↔
      body = bytes.take (bytes.length - footerSize) ∧
        (bytes.drop (bytes.length - footerSize)).take 4 = wordBytes 4 (checksum body).toNat ∧
        (bytes.drop (bytes.length - footerSize)).drop 4 = closingMark := by
  constructor
  · intro bytes_eq
    have size : bytes.length - footerSize = body.length := by
      rw [bytes_eq, withFooter, List.length_append, length_footerBytes, Nat.add_sub_cancel]
    rw [size, bytes_eq, withFooter, List.take_left, List.drop_left, footerBytes]
    exact ⟨rfl, List.take_left' (length_wordBytes 4 _), List.drop_left' (length_wordBytes 4 _)⟩
  · rintro ⟨body_eq, stored, mark⟩
    calc
      bytes = bytes.take (bytes.length - footerSize) ++ bytes.drop (bytes.length - footerSize) :=
        (List.take_append_drop _ _).symm
      _ = body ++ ((bytes.drop (bytes.length - footerSize)).take 4 ++
            (bytes.drop (bytes.length - footerSize)).drop 4) := by
        rw [← body_eq, List.take_append_drop]
      _ = withFooter body := by
        rw [stored, mark, withFooter, footerBytes]

/-- What the checks of the footer let pass is a body with its footer. -/
theorem checkedBody_eq_ok_iff (bytes body : List UInt8) :
    checkedBody bytes = .ok body ↔ headerSize ≤ body.length ∧ bytes = withFooter body := by
  constructor
  · intro outcome
    unfold checkedBody at outcome
    split at outcome
    · contradiction
    · rename_i notShort
      dsimp only at outcome
      split at outcome
      · contradiction
      · rename_i mark
        split at outcome
        · contradiction
        · rename_i stored
          have long : headerSize + footerSize ≤ bytes.length := Nat.le_of_not_lt notShort
          have body_eq := (Except.ok.inj outcome).symm
          have checksumSize : ((bytes.drop (bytes.length - footerSize)).take 4).length = 4 := by
            rw [List.length_take, List.length_drop]
            simp only [headerSize, footerSize] at long ⊢
            omega
          have written := wordBytes_wordValue ((bytes.drop (bytes.length - footerSize)).take 4)
          rw [checksumSize, Decidable.not_not.mp stored, ← body_eq] at written
          have bodySize : body.length = bytes.length - footerSize := by
            rw [body_eq, List.length_take, Nat.min_eq_left (Nat.sub_le _ _)]
          refine ⟨by omega, (eq_withFooter_iff bytes body).mpr ?_⟩
          exact ⟨body_eq, written.symm, Decidable.not_not.mp mark⟩
  · rintro ⟨long, rfl⟩
    exact checkedBody_withFooter long

/-- The bytes that can be read are those of the records that fit the format. -/
theorem decode_eq_ok_iff (bytes : List UInt8) (file : DataFile) :
    decode bytes = .ok file ↔
      ∃ record : Record, (record.Fits ∧ bytes = withFooter record.bodyBytes) ∧
        file = record.toFile := by
  constructor
  · intro outcome
    simp only [decode, bind, Except.bind] at outcome
    split at outcome
    · contradiction
    · rename_i body checked
      split at outcome
      · contradiction
      · rename_i read
        cases outcome
        rcases takesAll_record.consumed _ _ _ read with ⟨spelled, fits⟩
        rcases (checkedBody_eq_ok_iff _ _).mp checked with ⟨_, rfl⟩
        cases spelled
        exact ⟨_, ⟨fits, rfl⟩, rfl⟩
  · rintro ⟨record, ⟨fits, rfl⟩, rfl⟩
    exact decode_withFooter fits

/-- Bytes are found to end early inside the body only. -/
theorem le_length_of_endsEarly {bytes : List UInt8} {offset : Nat}
    (outcome : decode bytes = .error (.damaged (.endsEarly offset))) :
    offset + footerSize ≤ bytes.length := by
  simp only [decode, bind, Except.bind] at outcome
  split at outcome
  · rename_i failed
    cases outcome
    unfold checkedBody at failed
    split at failed
    · cases failed
    · dsimp only at failed
      split at failed
      · cases failed
      · split at failed <;> cases failed
  · rename_i body checked
    rcases (checkedBody_eq_ok_iff _ _).mp checked with ⟨_, bytes_eq⟩
    split at outcome
    · rename_i failed
      cases outcome
      have bound := takesAll_record.inside _ _ failed
      rw [bytes_eq, withFooter, List.length_append, length_footerBytes]
      simpa using bound
    · cases outcome

/-! ## What can be read can be written

A sidecar gives the length of a name in two bytes and the number of devices in four, and it
raises the last write of a growing span to its start.  So a file that has been read from a
sidecar can be written to one, and comes back from there as it is. -/

theorem spansWellFormed_toFile (record : Record) : record.toFile.SpansWellFormed := by
  intro entry member
  rcases List.mem_map.mp (SortedMap.mem_of_mem_entries_ofList member) with ⟨read, _, rfl⟩
  exact read.2.normalize_wellFormed

theorem storable_toFile {record : Record} (fits : record.Fits) : Storable record.toFile where
  names := by
    intro entry member
    rcases List.mem_map.mp (SortedMap.mem_of_mem_entries_ofList member) with ⟨read, inRecord, rfl⟩
    exact fits.names read inRecord
  few :=
    calc
      record.toFile.devices.entries.length ≤
          (record.entries.map fun entry => (entry.1, entry.2.normalize)).length :=
        SortedMap.length_entries_ofList_le _
      _ = record.entries.length := List.length_map _
      _ < wordRange 4 := fits.few

theorem spansWellFormed_of_decode {bytes : List UInt8} {file : DataFile}
    (outcome : decode bytes = .ok file) : file.SpansWellFormed := by
  rcases (decode_eq_ok_iff bytes file).mp outcome with ⟨record, _, rfl⟩
  exact spansWellFormed_toFile record

/-- A file that has been read from a sidecar can be written to one. -/
theorem storable_of_decode {bytes : List UInt8} {file : DataFile}
    (outcome : decode bytes = .ok file) : Storable file := by
  rcases (decode_eq_ok_iff bytes file).mp outcome with ⟨record, ⟨fits, _⟩, rfl⟩
  exact storable_toFile fits

/-- Whether a file can be written depends on its devices only. -/
theorem Storable.of_devices {file other : DataFile} (storable : Storable file)
    (same : other.devices = file.devices) : Storable other := by
  rcases storable with ⟨names, few⟩
  constructor
  case names => rwa [same]
  case few => rwa [same]

/-! ## Files with too many devices -/

/-- Entries stand one after the other without a mark between them, and yet their bytes tell them
apart. -/
theorem flatMap_entryBytes_inj {first second : List (String × DeviceSpan)}
    (firstShort : ∀ entry ∈ first, (Text.utf8 entry.1).length ≤ maxNameSize)
    (secondShort : ∀ entry ∈ second, (Text.utf8 entry.1).length ≤ maxNameSize)
    (same : first.flatMap entryBytes = second.flatMap entryBytes) : first = second := by
  have nonempty : ∀ entry others, entryBytes entry ++ others ≠ [] := by
    intro entry others nothing
    have size := congrArg List.length nothing
    simp [entryBytes] at size
  induction first generalizing second with
  | nil =>
      cases second with
      | nil => rfl
      | cons entry others => exact absurd same.symm (nonempty entry _)
  | cons entry others ih =>
      cases second with
      | nil => exact absurd same (nonempty entry _)
      | cons other rest =>
          rw [List.forall_mem_cons] at firstShort secondShort
          rw [List.flatMap_cons, List.flatMap_cons] at same
          have read := reads_entry firstShort.1 0 (others.flatMap entryBytes)
          rw [same, reads_entry secondShort.1 0 (rest.flatMap entryBytes)] at read
          simp only [Except.ok.injEq, Prod.mk.injEq, Cursor.mk.injEq] at read
          rw [read.1, ih firstShort.2 secondShort.2 read.2.2.symm]

/-- The number of devices is written in four bytes, so a file with more of them has a sidecar that
nobody can read. -/
theorem decode_content_eq_ok_iff {file : DataFile}
    (names : ∀ entry ∈ file.devices.entries, (Text.utf8 entry.1).length ≤ maxNameSize)
    (restored : DataFile) :
    decode (content file) = .ok restored ↔
      file.devices.size < 2 ^ 32 ∧ restored = file.raised := by
  have read : file.devices.size < 2 ^ 32 → decode (content file) = .ok file.raised :=
    fun few => decode_content ⟨names, few⟩
  constructor
  · intro outcome
    rcases (decode_eq_ok_iff _ _).mp outcome with ⟨record, ⟨fits, same⟩, _⟩
    have body : (Record.ofFile file).bodyBytes = record.bodyBytes := withFooter_inj same
    have entries : file.devices.entries.flatMap entryBytes =
        record.entries.flatMap entryBytes := by
      apply List.append_inj_right body
      rw [length_headerBytes, length_headerBytes]
    have few : file.devices.size < 2 ^ 32 := by
      rw [SortedMap.size, flatMap_entryBytes_inj names fits.names entries]
      exact fits.few
    rw [read few] at outcome
    exact ⟨few, (Except.ok.inj outcome).symm⟩
  · rintro ⟨few, rfl⟩
    exact read few

/-! ## The format -/

/-- Whether bytes are a sidecar that spells a record: a header of 44 bytes, the entries, the
checksum of both and the closing mark. -/
structure Spells (bytes : List UInt8) (record : Record) : Prop where
  long : 52 ≤ bytes.length
  mark : bytes.drop (bytes.length - 4) = closingMark
  checked : (bytes.drop (bytes.length - 8)).take 4 =
    wordBytes 4 (checksum (bytes.take (bytes.length - 8))).toNat
  header : bytes.take 44 = record.headerBytes
  entries : (bytes.take (bytes.length - 8)).drop 44 = record.entries.flatMap entryBytes
  names : ∀ entry ∈ record.entries, (Text.utf8 entry.1).length < 2 ^ 16
  few : record.entries.length < 2 ^ 32

theorem spells_iff (bytes : List UInt8) (record : Record) :
    Spells bytes record ↔ record.Fits ∧ bytes = withFooter record.bodyBytes := by
  have header_first : ∀ size, 44 ≤ size → (bytes.take size).take 44 = bytes.take 44 := by
    intro size large
    rw [List.take_take, Nat.min_eq_left large]
  have mark_last : 8 ≤ bytes.length →
      (bytes.drop (bytes.length - 8)).drop 4 = bytes.drop (bytes.length - 4) := by
    intro long
    rw [List.drop_drop]
    congr 1
    omega
  have body_iff : 52 ≤ bytes.length →
      (record.bodyBytes = bytes.take (bytes.length - 8) ↔
        bytes.take 44 = record.headerBytes ∧
          (bytes.take (bytes.length - 8)).drop 44 = record.entries.flatMap entryBytes) := by
    intro long
    rw [← header_first (bytes.length - 8) (by omega)]
    constructor
    · intro body_eq
      rw [← body_eq, Record.bodyBytes]
      exact ⟨List.take_left' (length_headerBytes record),
        List.drop_left' (length_headerBytes record)⟩
    · rintro ⟨header, entries⟩
      rw [Record.bodyBytes, ← header, ← entries, List.take_append_drop]
  constructor
  · rintro ⟨long, mark, checked, header, entries, names, few⟩
    have body_eq := (body_iff long).mpr ⟨header, entries⟩
    refine ⟨⟨fun entry member => Nat.le_of_lt_succ (names entry member), few⟩, ?_⟩
    apply (eq_withFooter_iff bytes _).mpr
    exact ⟨body_eq, by rw [body_eq]; exact checked, (mark_last (by omega)).trans mark⟩
  · rintro ⟨⟨names, few⟩, bytes_eq⟩
    have long : 52 ≤ bytes.length := by
      rw [bytes_eq, withFooter, Record.bodyBytes]
      simp only [List.length_append, length_headerBytes, length_footerBytes, headerSize, footerSize]
      omega
    rcases (eq_withFooter_iff bytes _).mp bytes_eq with
      ⟨body_eq, checked, mark⟩
    rcases (body_iff long).mp body_eq with ⟨header, entries⟩
    rw [body_eq] at checked
    exact ⟨long, (mark_last (by omega)).symm.trans mark, checked, header, entries,
      fun entry member => Nat.lt_succ_of_le (names entry member), few⟩

/-- Whether a file is the one that a record describes: the last entry of a device counts, and the
last write of a growing span is raised to its start. -/
structure Record.Describes (record : Record) (file : DataFile) : Prop where
  space : file.space = record.space
  status : file.status = record.status
  id : file.id = record.id
  orderingKey : file.orderingKey = record.orderingKey
  size : file.size = record.size
  innerLevel : file.innerLevel = record.innerLevel
  crossLevel : file.crossLevel = record.crossLevel
  spans : ∀ device, file.span? device =
    (record.entries.reverse.find? fun entry => entry.1 = device).map fun entry =>
      match entry.2 with
      | .closed interval => .closed interval
      | .growing start lastWrite => .growing start (max lastWrite start)

theorem Record.describes_iff (record : Record) (file : DataFile) :
    record.Describes file ↔ file = record.toFile := by
  have spans : ∀ device, record.toFile.span? device =
      (record.entries.reverse.find? fun entry => entry.1 = device).map
        fun entry => entry.2.normalize := by
    intro device
    rw [DataFile.span?, Record.toFile, SortedMap.get?_ofList, ← List.map_reverse, List.find?_map,
      Option.map_map]
    rfl
  constructor
  · rintro ⟨space, status, id, orderingKey, size, innerLevel, crossLevel, described⟩
    have devices : file.devices = record.toFile.devices :=
      SortedMap.ext_get? fun device => (described device).trans (spans device).symm
    cases file
    cases space
    cases status
    cases id
    cases orderingKey
    cases size
    cases innerLevel
    cases crossLevel
    cases devices
    rfl
  · rintro rfl
    exact ⟨rfl, rfl, rfl, rfl, rfl, rfl, rfl, spans⟩

/-- The bytes that can be read are exactly those that spell a record, and they are read as the
file that it describes.  All others are refused, and none are looked for behind the body. -/
theorem decodes_exactly (bytes : List UInt8) :
    (∀ file, decode bytes = .ok file ↔ ∃ record, Spells bytes record ∧ record.Describes file) ∧
    ((∃ error, decode bytes = .error error) ↔ ¬ ∃ record, Spells bytes record) ∧
    ∀ offset, decode bytes = .error (.damaged (.endsEarly offset)) →
      offset + 8 ≤ bytes.length := by
  have exactly : ∀ file, decode bytes = .ok file ↔
      ∃ record, Spells bytes record ∧ record.Describes file := by
    intro file
    rw [decode_eq_ok_iff]
    refine exists_congr fun record => ?_
    rw [spells_iff, Record.describes_iff]
  refine ⟨exactly, ?_, fun offset => le_length_of_endsEarly⟩
  constructor
  · rintro ⟨error, failed⟩ ⟨record, spelled⟩
    have read := (exactly record.toFile).mpr
      ⟨record, spelled, (Record.describes_iff record _).mpr rfl⟩
    rw [failed] at read
    contradiction
  · intro nothing
    cases outcome : decode bytes with
    | error error => exact ⟨error, rfl⟩
    | ok file =>
        rcases (exactly file).mp outcome with ⟨record, spelled, _⟩
        exact absurd ⟨record, spelled⟩ nothing

end SeriesStore.Sidecar
