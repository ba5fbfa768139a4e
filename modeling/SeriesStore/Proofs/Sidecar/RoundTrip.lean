import Mathlib
import SeriesStore.Proofs.File.Spans
import SeriesStore.Sidecar.Format

/-!
# Reading what was written

A reader reads a value from bytes when it returns the value and leaves what follows the
bytes, wherever they stand.  Readers that run one after the other read from bytes that
stand one after the other, so the reader of a record is taken apart field by field.

A file is read back from its sidecar with all its numbers and with its growing spans raised,
so it comes back as it was when they are well formed.  The names of its devices alone decide
whether it has a sidecar.
-/

namespace SeriesStore.Sidecar

/-! ## Readers and bytes -/

/-- Whether a reader reads a value from bytes, whatever comes before and after them. -/
def Reads {α : Type} (reader : Reader α) (bytes : List UInt8) (value : α) : Prop :=
  ∀ offset rest,
    reader ⟨offset, bytes ++ rest⟩ = .ok (value, ⟨offset + bytes.length, rest⟩)

variable {α β : Type} {reader : Reader α} {first second : List UInt8}

theorem reads_pure (value : α) : Reads (pure value) [] value :=
  fun _ _ => rfl

theorem Reads.bind {next : α → Reader β} {value : α} {result : β}
    (own : Reads reader first value) (others : Reads (next value) second result) :
    Reads (reader >>= next) (first ++ second) result := by
  intro offset rest
  change (reader ⟨offset, first ++ second ++ rest⟩ >>= fun pair => next pair.1 pair.2) = _
  rw [List.append_assoc, own offset (second ++ rest)]
  change next value ⟨offset + first.length, second ++ rest⟩ = _
  rw [others, List.length_append, Nat.add_assoc]

/-- After the last bytes a reader only has to return its result. -/
theorem Reads.last {next : α → Reader β} {value : α} {result : β}
    (own : Reads reader first value) (returns : next value = pure result) :
    Reads (reader >>= next) first result := by
  have rest : Reads (next value) [] result := returns ▸ reads_pure result
  have both := own.bind rest
  rwa [List.append_nil] at both

theorem reads_bytes (bytes : List UInt8) : Reads (Reader.bytes bytes.length) bytes bytes :=
  fun offset rest => Reader.bytes_append offset bytes rest

theorem reads_word {width value : Nat} (fits : value < wordRange width) :
    Reads (Reader.word width) (wordBytes width value) value := by
  intro offset rest
  rw [Reader.word_append, Nat.mod_eq_of_lt fits, length_wordBytes]

theorem reads_byte (byte : UInt8) : Reads Reader.byte [byte] byte := by
  have word : Reads (Reader.word 1) (wordBytes 1 byte.toNat) byte.toNat :=
    reads_word byte.toNat_lt
  have bytes : wordBytes 1 byte.toNat = [byte] := by
    simp [wordBytes]
  rw [bytes] at word
  exact word.last (by rw [UInt8.ofNat_toNat])

theorem reads_timestamp (time : Timestamp) :
    Reads Reader.timestamp (timestampBytes time) time := by
  have word : Reads (Reader.word 8) (timestampBytes time) time.toUInt64.toNat :=
    reads_word time.toUInt64.toNat_lt
  exact word.last (by rw [UInt64.ofNat_toNat, Int64.toInt64_toUInt64])

/-- A counted run of items is read item by item. -/
theorem reads_repeated {item : Reader α} {bytesOf : α → List UInt8} {items : List α}
    (each : ∀ value ∈ items, Reads item (bytesOf value) value) :
    Reads (Reader.repeated item items.length) (items.flatMap bytesOf) items := by
  induction items with
  | nil => exact reads_pure []
  | cons value others ih =>
      rw [List.forall_mem_cons] at each
      rw [List.flatMap_cons]
      exact each.1.bind ((ih each.2).last rfl)

/-! ## Entries -/

/-- The bytes of a text are those of the text that they are read as. -/
theorem fromUTF8?_utf8 (text : String) :
    String.fromUTF8? (Text.utf8 text).toByteArray = some text := by
  have bytes : (Text.utf8 text).toByteArray = text.toByteArray := by
    apply ByteArray.ext
    rw [List.data_toByteArray]
    exact Array.toArray_toList
  rw [bytes]
  exact dif_pos text.isValidUTF8

theorem reads_name {device : String} (short : (Text.utf8 device).length ≤ maxNameSize) :
    Reads readName (wordBytes 2 (Text.utf8 device).length ++ Text.utf8 device) device := by
  have size : Reads (Reader.word 2) (wordBytes 2 (Text.utf8 device).length)
      (Text.utf8 device).length :=
    reads_word (Nat.lt_of_le_of_lt short (by decide))
  apply size.bind
  apply (reads_bytes (Text.utf8 device)).last
  rw [fromUTF8?_utf8]

theorem reads_entry {entry : String × DeviceSpan}
    (short : (Text.utf8 entry.1).length ≤ maxNameSize) :
    Reads readEntry (entryBytes entry) entry := by
  rcases entry with ⟨device, span⟩
  have kind : spanOfKind? (spanKind span) span.start span.lastWrite = some span := by
    cases span <;> rfl
  rw [entryBytes, List.append_assoc, List.append_assoc]
  apply (reads_name short).bind
  apply (reads_byte (spanKind span)).bind
  apply (reads_timestamp span.start).bind
  apply (reads_timestamp span.lastWrite).last
  rw [kind]

/-! ## Records -/

theorem reads_openingMark : Reads readOpeningMark openingMark () :=
  (reads_bytes openingMark).last rfl

theorem reads_version : Reads readVersion (wordBytes 2 version) () := by
  have word : Reads (Reader.word 2) (wordBytes 2 version) version := reads_word (by decide)
  exact word.last rfl

theorem reads_space (space : Space) : Reads readSpace [space.code] space := by
  apply (reads_byte space.code).last
  rw [Space.ofCode?_code]

theorem reads_status (status : Status) : Reads readStatus [status.code] status := by
  apply (reads_byte status.code).last
  rw [Status.ofCode?_code]

/-- A record that fits the format. -/
structure Record.Fits (record : Record) : Prop where
  names : ∀ entry ∈ record.entries, (Text.utf8 entry.1).length ≤ maxNameSize
  few : record.entries.length < wordRange 4

/-- Whether a reader reads a value from bytes after which nothing comes. -/
def ReadsAll (reader : Reader α) (bytes : List UInt8) (value : α) : Prop :=
  ∀ offset, reader ⟨offset, bytes⟩ = .ok (value, ⟨offset + bytes.length, []⟩)

theorem Reads.bindAll {next : α → Reader β} {value : α} {result : β}
    (own : Reads reader first value) (others : ReadsAll (next value) second result) :
    ReadsAll (reader >>= next) (first ++ second) result := by
  intro offset
  change (reader ⟨offset, first ++ second⟩ >>= fun pair => next pair.1 pair.2) = _
  rw [own offset second]
  change next value ⟨offset + first.length, second⟩ = _
  rw [others, List.length_append, Nat.add_assoc]

theorem readsAll_atEnd (value : α) :
    ReadsAll (Reader.atEnd >>= fun _ => pure value) [] value :=
  fun _ => rfl

/-- A record that fits is read from its bytes field by field. -/
theorem readsAll_record {record : Record} (fits : record.Fits) :
    ReadsAll readRecord record.bodyBytes record := by
  have entries : Reads (Reader.repeated readEntry record.entries.length)
      (record.entries.flatMap entryBytes) record.entries :=
    reads_repeated fun entry member => reads_entry (fits.names entry member)
  rw [Record.bodyBytes, Record.headerBytes]
  simp only [List.append_assoc, List.cons_append, List.nil_append]
  rw [← List.singleton_append, ← List.singleton_append (l := _ ++ _)]
  apply reads_openingMark.bindAll
  apply reads_version.bindAll
  apply (reads_space record.space).bindAll
  apply (reads_status record.status).bindAll
  apply (reads_word record.id.toNat_lt).bindAll
  apply (reads_word record.orderingKey.toNat_lt).bindAll
  apply (reads_word record.size.toNat_lt).bindAll
  apply (reads_word record.innerLevel.toNat_lt).bindAll
  apply (reads_word record.crossLevel.toNat_lt).bindAll
  apply (reads_word fits.few).bindAll
  rw [← List.append_nil (record.entries.flatMap entryBytes)]
  apply entries.bindAll
  simp only [UInt64.ofNat_toNat, UInt32.ofNat_toNat]
  exact readsAll_atEnd record

/-- Records that fit the format and have the same body are the same. -/
theorem bodyBytes_inj {first second : Record} (firstFits : first.Fits) (secondFits : second.Fits)
    (same : first.bodyBytes = second.bodyBytes) : first = second := by
  have read := readsAll_record firstFits 0
  rw [same, readsAll_record secondFits 0] at read
  exact (Prod.mk.inj (Except.ok.inj read)).1.symm

/-! ## Sidecars -/

theorem length_headerBytes (record : Record) : record.headerBytes.length = headerSize := by
  simp [Record.headerBytes, openingMark, headerSize]

theorem length_footerBytes (body : List UInt8) : (footerBytes body).length = footerSize := by
  simp [footerBytes, closingMark, footerSize]

theorem withFooter_inj {first second : List UInt8} (same : withFooter first = withFooter second) :
    first = second :=
  (List.append_inj' same (by rw [length_footerBytes, length_footerBytes])).1

theorem drop_footerBytes (body : List UInt8) : (footerBytes body).drop 4 = closingMark :=
  List.drop_left' (length_wordBytes 4 _)

theorem wordValue_take_footerBytes (body : List UInt8) :
    wordValue ((footerBytes body).take 4) = (checksum body).toNat := by
  rw [footerBytes, List.take_left' (length_wordBytes 4 _),
    wordValue_wordBytes_of_lt (checksum body).toNat_lt]

/-- The mark at the end is looked at first, and then the checksum. -/
theorem checkedBody_append {body footer : List UInt8} (long : headerSize ≤ body.length)
    (size : footer.length = footerSize) :
    checkedBody (body ++ footer) =
      if footer.drop 4 ≠ closingMark then
        .error (.wrongMark (footer.drop 4))
      else if wordValue (footer.take 4) ≠ (checksum body).toNat then
        .error (.checksumMismatch (wordValue (footer.take 4)) (checksum body).toNat)
      else
        .ok body := by
  have whole : (body ++ footer).length = body.length + footerSize := by
    rw [List.length_append, size]
  rw [checkedBody, if_neg (by omega), whole, Nat.add_sub_cancel, List.take_left, List.drop_left]

/-- A body with its footer passes the checks. -/
theorem checkedBody_withFooter {body : List UInt8} (long : headerSize ≤ body.length) :
    checkedBody (withFooter body) = .ok body := by
  rw [withFooter, checkedBody_append long (length_footerBytes body)]
  simp only [drop_footerBytes, wordValue_take_footerBytes, ne_eq, not_true_eq_false, if_false]

/-- The header alone makes a body long enough. -/
theorem headerSize_le_length_bodyBytes (record : Record) :
    headerSize ≤ record.bodyBytes.length := by
  rw [Record.bodyBytes, List.length_append, length_headerBytes]
  exact Nat.le_add_right _ _

theorem decode_withFooter {record : Record} (fits : record.Fits) :
    decode (withFooter record.bodyBytes) = .ok record.toFile := by
  have read := readsAll_record fits 0
  rw [decode, checkedBody_withFooter (headerSize_le_length_bodyBytes record)]
  change (readRecord ⟨0, record.bodyBytes⟩ >>= fun pair => pure pair.1.toFile) = _
  rw [read]
  rfl

/-- The record of a file describes the file with its spans raised. -/
theorem toFile_ofFile (file : DataFile) : (Record.ofFile file).toFile = file.raised := by
  simp only [Record.toFile, Record.ofFile, DeviceSpan.normalize_eq_raised, DataFile.raised]

/-- A file that has a sidecar which can be read.  The length of a name is written in two bytes
and the number of devices in four, so there may be fewer than `2 ^ 32`. -/
structure Storable (file : DataFile) : Prop where
  names : ∀ entry ∈ file.devices.entries, (Text.utf8 entry.1).length ≤ maxNameSize
  few : file.devices.entries.length < wordRange 4

/-- Raising spans does not touch the names. -/
theorem Storable.of_raised {file : DataFile} (storable : Storable file.raised) : Storable file := by
  rcases storable with ⟨names, few⟩
  rw [file.entries_raised] at names few
  rw [List.forall_mem_map] at names
  rw [List.length_map] at few
  exact ⟨names, few⟩

/-- The bytes of the sidecar of a file. -/
def content (file : DataFile) : List UInt8 :=
  withFooter (Record.ofFile file).bodyBytes

/-- The names of the devices alone decide whether a file has a sidecar. -/
theorem encode_eq_ok_iff (file : DataFile) (bytes : List UInt8) :
    encode file = .ok bytes ↔
      (∀ entry ∈ file.devices.entries, (Text.utf8 entry.1).length ≤ maxNameSize) ∧
        bytes = content file := by
  have fit : longName? file.devices.entries = none ↔
      ∀ entry ∈ file.devices.entries, (Text.utf8 entry.1).length ≤ maxNameSize := by
    simp [longName?]
  rw [encode, ← fit]
  cases longName? file.devices.entries with
  | some size => simp
  | none => simp [content, eq_comm]

theorem encode_eq_ok {file : DataFile} (storable : Storable file) :
    encode file = .ok (content file) :=
  (encode_eq_ok_iff file _).mpr ⟨storable.names, rfl⟩

theorem Storable.fits {file : DataFile} (storable : Storable file) : (Record.ofFile file).Fits :=
  ⟨storable.names, storable.few⟩

/-- Reading the sidecar of a file gives the file back with its spans raised. -/
theorem decode_content {file : DataFile} (storable : Storable file) :
    decode (content file) = .ok file.raised := by
  rw [content, decode_withFooter storable.fits, toFile_ofFile]

/-- The bytes of a sidecar tell more than what is read from them: they tell spans apart that are
raised to the same one. -/
theorem content_inj {first second : DataFile} (firstStorable : Storable first)
    (secondStorable : Storable second) (same : content first = content second) :
    first = second := by
  have records := bodyBytes_inj firstStorable.fits secondStorable.fits (withFooter_inj same)
  simp only [Record.ofFile, Record.mk.injEq] at records
  rcases records with ⟨space, status, id, orderingKey, size, innerLevel, crossLevel, entries⟩
  rw [DataFile.mk.injEq]
  exact ⟨id, space, status, orderingKey, size, innerLevel, crossLevel,
    SortedMap.ext_entries entries⟩

/-! ## Which files are written -/

/-- The length that is reported is that of the first of the names that are too long. -/
theorem longName?_eq (file : DataFile) :
    longName? file.devices.entries =
      (file.deviceNames.find? fun device => maxNameSize < (Text.utf8 device).length).map
        fun device => (Text.utf8 device).length := by
  rw [longName?, List.find?_map, DataFile.deviceNames, SortedMap.keys, List.find?_map,
    Option.map_map]
  rfl

/-- A file is refused for the first of its names that is too long. -/
theorem encode_eq_error_iff (file : DataFile) (error : Error) :
    encode file = .error error ↔
      ∃ device ∈ file.deviceNames, maxNameSize < (Text.utf8 device).length ∧
        (∀ other ∈ file.deviceNames, Text.compareUtf8 other device = .lt →
          (Text.utf8 other).length ≤ maxNameSize) ∧
        error = .malformed file.id (.nameTooLong (Text.utf8 device).length) := by
  have refused : encode file = .error error ↔
      ∃ size, longName? file.devices.entries = some size ∧
        error = .malformed file.id (.nameTooLong size) := by
    rw [encode]
    cases longName? file.devices.entries <;> simp [eq_comm]
  have first : ∀ device,
      file.deviceNames.find? (fun device => maxNameSize < (Text.utf8 device).length) =
          some device ↔
        device ∈ file.deviceNames ∧ maxNameSize < (Text.utf8 device).length ∧
          ∀ other ∈ file.deviceNames, Text.compareUtf8 other device = .lt →
            (Text.utf8 other).length ≤ maxNameSize := by
    intro device
    simpa [DataFile.deviceNames] using file.devices.find?_keys_eq_some_iff
      (fun device => decide (maxNameSize < (Text.utf8 device).length)) device
  rw [refused, longName?_eq]
  constructor
  · rintro ⟨size, outcome, rfl⟩
    rcases Option.map_eq_some_iff.mp outcome with ⟨device, found, rfl⟩
    rcases (first device).mp found with ⟨member, long, least⟩
    exact ⟨device, member, long, least, rfl⟩
  · rintro ⟨device, member, long, least, rfl⟩
    have found := (first device).mpr ⟨member, long, least⟩
    exact ⟨_, Option.map_eq_some_iff.mpr ⟨device, found, rfl⟩, rfl⟩

/-- The names of the devices alone decide whether a file is written, and the first of those that
are too long is reported.  What is written is read back as it was. -/
theorem encode_then_decode {file : DataFile} (few : file.devices.size < 2 ^ 32)
    (spans : file.SpansWellFormed) :
    ((∃ bytes, encode file = .ok bytes) ↔
      ∀ device ∈ file.deviceNames, (Text.utf8 device).length ≤ 65535) ∧
    (∀ error, encode file = .error error ↔
      ∃ device ∈ file.deviceNames, 65535 < (Text.utf8 device).length ∧
        (∀ other ∈ file.deviceNames, Text.compareUtf8 other device = .lt →
          (Text.utf8 other).length ≤ 65535) ∧
        error = .malformed file.id (.nameTooLong (Text.utf8 device).length)) ∧
    ∀ bytes, encode file = .ok bytes → decode bytes = .ok file := by
  refine ⟨?_, encode_eq_error_iff file, ?_⟩
  · have names : (∀ device ∈ file.deviceNames, (Text.utf8 device).length ≤ 65535) ↔
        ∀ entry ∈ file.devices.entries, (Text.utf8 entry.1).length ≤ maxNameSize := by
      simp [DataFile.deviceNames, SortedMap.keys, maxNameSize]
    rw [names]
    simp [encode_eq_ok_iff]
  · intro bytes outcome
    rcases (encode_eq_ok_iff file bytes).mp outcome with ⟨names, rfl⟩
    rw [decode_content ⟨names, few⟩, file.raised_eq spans]

/-! A file with an inverted span and a growing one, and with the largest and the smallest
numbers. -/

namespace Sample

def extreme : DataFile where
  id := 0xFFFFFFFFFFFFFFFF
  space := .unsequence
  status := .compacting
  orderingKey := 0
  size := 0xFFFFFFFFFFFFFFFF
  innerLevel := 0xFFFFFFFF
  crossLevel := 7
  devices := .ofList _
    [("root.é", .closed ⟨9, -9⟩), ("", .growing Int64.minValue Int64.maxValue)]

end Sample

theorem encode_then_decode_extreme :
    (∃ bytes, encode Sample.extreme = .ok bytes) ∧
      ∀ bytes, encode Sample.extreme = .ok bytes → decode bytes = .ok Sample.extreme := by
  have outcome := @encode_then_decode Sample.extreme (by decide +kernel) (by decide +kernel)
  exact ⟨outcome.1.mpr (by decide +kernel), outcome.2.2⟩

end SeriesStore.Sidecar
