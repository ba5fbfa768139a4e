import SeriesStore.Proofs.Sidecar.Spelling

/-!
# The canonical sidecar of a file

A file can be read from many sidecars: their entries may stand in any order, may repeat a
device, and may have a growing span whose last write lies before its start.  The file is
written to one of them only, the canonical one, in which none of this happens.  Every other
one is replaced by it when the file is read and written again, and is not shorter.
-/

namespace SeriesStore.Sidecar

/-- Whether a record lists its devices in order and lets no growing span end before its start. -/
structure Record.Canonical (record : Record) : Prop where
  increasing : (record.entries.map Prod.fst).Pairwise fun first second =>
    Text.compareUtf8 first second = .lt
  growing : ∀ device start lastWrite, (device, .growing start lastWrite) ∈ record.entries →
    start ≤ lastWrite

variable {record : Record}

/-! ## What is read and written again -/

theorem Record.canonical_iff : record.Canonical ↔
    (record.entries.map Prod.fst).Pairwise (fun first second =>
        Text.compareUtf8 first second = .lt) ∧
      ∀ entry ∈ record.entries, entry.2.WellFormed := by
  constructor
  · rintro ⟨increasing, growing⟩
    refine ⟨increasing, fun ⟨device, span⟩ member => ?_⟩
    cases span with
    | closed _ => trivial
    | growing start lastWrite => exact growing device start lastWrite member
  · rintro ⟨increasing, wellFormed⟩
    exact ⟨increasing, fun device start lastWrite member => wellFormed _ member⟩

/-- A canonical record is the one of the file that it describes, and no other record is. -/
theorem Record.ofFile_toFile_eq_iff : Record.ofFile record.toFile = record ↔
    record.Canonical := by
  rw [canonical_iff]
  have entries_iff : Record.ofFile record.toFile = record ↔
      record.toFile.devices.entries = record.entries := by
    rcases record with ⟨⟩
    simp [Record.ofFile, Record.toFile]
  rw [entries_iff]
  constructor
  · intro same
    rw [← same, List.pairwise_map]
    exact ⟨record.toFile.devices.sorted, spansWellFormed_toFile record⟩
  · rintro ⟨increasing, wellFormed⟩
    rw [Record.toFile]
    dsimp only
    simp only [DeviceSpan.normalize_eq_raised]
    rw [DeviceSpan.map_raised_eq wellFormed]
    exact (SortedMap.entries_ofList_eq_iff _).mpr increasing

theorem length_bodyBytes (record : Record) :
    record.bodyBytes.length =
      headerSize + (record.entries.map fun entry => (entryBytes entry).length).sum := by
  rw [Record.bodyBytes, List.length_append, length_headerBytes, List.length_flatMap]

/-- The size of an entry depends on the name of its device only. -/
theorem length_entryBytes (entry : String × DeviceSpan) :
    (entryBytes entry).length = 19 + (Text.utf8 entry.1).length := by
  simp [entryBytes, timestampBytes]
  omega

/-- The file that a record describes has no more entries, and none of them is longer. -/
theorem length_content_toFile_le (record : Record) :
    (content record.toFile).length ≤ (withFooter record.bodyBytes).length := by
  have entries : ((Record.ofFile record.toFile).entries.map fun entry =>
        (entryBytes entry).length).sum ≤
      (record.entries.map fun entry => (entryBytes entry).length).sum := by
    have bound := @SortedMap.sum_entries_ofList_le _ _ Text.compareUtf8 _
      (fun entry : String × DeviceSpan => (entryBytes entry).length)
      (record.entries.map fun entry => (entry.1, entry.2.normalize))
    simpa [Record.ofFile, Record.toFile, length_entryBytes, Function.comp_def] using bound
  rw [content, withFooter, withFooter, List.length_append, List.length_append,
    length_footerBytes, length_footerBytes, length_bodyBytes, length_bodyBytes]
  omega

/-! ## The record of a sidecar -/

theorem spells_iff_eq {bytes : List UInt8} (spelled : Spells bytes record) (other : Record) :
    Spells bytes other ↔ other = record := by
  constructor
  · intro otherSpelled
    rcases (spells_iff _ _).mp spelled with ⟨fits, bytes_eq⟩
    rcases (spells_iff _ _).mp otherSpelled with ⟨otherFits, rfl⟩
    exact bodyBytes_inj otherFits fits (withFooter_inj bytes_eq)
  · rintro rfl
    exact spelled

/-- A file that has been read from a sidecar can be written again, to a sidecar that is no longer
and from which it is read back as it is.  Only a canonical sidecar is left as it is. -/
theorem written_again {bytes : List UInt8} {file : DataFile} (read : decode bytes = .ok file) :
    ∃ record, (∀ other, Spells bytes other ↔ other = record) ∧
      ∃ written, encode file = .ok written ∧ written.length ≤ bytes.length ∧
        decode written = .ok file ∧ (written = bytes ↔ record.Canonical) := by
  rcases (decode_eq_ok_iff bytes file).mp read with ⟨record, ⟨fits, rfl⟩, rfl⟩
  have storable := storable_toFile fits
  have spelled : Spells (withFooter record.bodyBytes) record := (spells_iff _ _).mpr ⟨fits, rfl⟩
  have again : decode (content record.toFile) = .ok record.toFile := by
    rw [decode_content storable, record.toFile.raised_eq (spansWellFormed_toFile record)]
  refine ⟨record, spells_iff_eq spelled, content record.toFile, encode_eq_ok storable,
    length_content_toFile_le record, again, ?_⟩
  rw [← Record.ofFile_toFile_eq_iff]
  constructor
  · intro same
    exact bodyBytes_inj storable.fits fits (withFooter_inj same)
  · intro same
    rw [content, same]

/-! A sidecar whose entries stand in no order and repeat a device, and one of which ends before it
starts. -/

namespace Sample

def unordered : Record where
  space := .sequence
  status := .unclosed
  id := 7
  orderingKey := 7
  size := 70
  innerLevel := 0
  crossLevel := 1
  entries :=
    [("b", .closed ⟨0, 9⟩), ("a", .growing 5 3), ("b", .growing 4 6)]

end Sample

theorem written_again_unordered :
    decode (withFooter Sample.unordered.bodyBytes) = .ok Sample.unordered.toFile ∧
      ∃ written, encode Sample.unordered.toFile = .ok written ∧
        written.length ≤ (withFooter Sample.unordered.bodyBytes).length ∧
        decode written = .ok Sample.unordered.toFile ∧
        written ≠ withFooter Sample.unordered.bodyBytes := by
  have fits : Sample.unordered.Fits := ⟨by decide +kernel, by decide +kernel⟩
  have read : decode (withFooter Sample.unordered.bodyBytes) = .ok Sample.unordered.toFile :=
    decode_withFooter fits
  rcases written_again read with
    ⟨record, unique, written, encoded, short, again, same_iff⟩
  have record_eq : Sample.unordered = record :=
    (unique _).mp ((spells_iff _ _).mpr ⟨fits, rfl⟩)
  refine ⟨read, written, encoded, short, again, fun same => ?_⟩
  have canonical := (same_iff.mp same).growing "a" 5 3
  rw [← record_eq] at canonical
  exact absurd (canonical (by decide)) (by decide)

end SeriesStore.Sidecar
