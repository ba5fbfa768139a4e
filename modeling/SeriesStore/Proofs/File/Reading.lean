import SeriesStore.Proofs.File.Name
import SeriesStore.Proofs.Text.Numeral

/-!
# What the reader of names takes

The name of a data file or of a sidecar is read back as its four numbers.  Beyond what is
written the reader takes every text that has one of the two endings and before it four
numerals with a mark between each two of them, as long as each number fits its word.  The
ending of a sidecar contains that of a data file but does not end in it, so no text can be
read in two ways.
-/

namespace SeriesStore.FileName

open Text

/-- Whether a text is made of numerals of the four numbers, with marks between them. -/
def SpelledBy (name : FileName) (text : String) : Prop :=
  ∃ orderingKey id innerLevel crossLevel : String,
    text = orderingKey ++ "-" ++ id ++ "-" ++ innerLevel ++ "-" ++ crossLevel ∧
      Denotes orderingKey.toList name.orderingKey.toNat ∧ Denotes id.toList name.id.toNat ∧
      Denotes innerLevel.toList name.innerLevel.toNat ∧
      Denotes crossLevel.toList name.crossLevel.toNat

/-! ## Endings -/

theorem beforeEnding?_eq_some_iff (ending : String) (text stem : List Char) :
    beforeEnding? ending text = some stem ↔ text = stem ++ ending.toList := by
  constructor
  · intro cut
    rw [beforeEnding?] at cut
    split at cut
    · rename_i ends
      cases cut
      exact List.suffix_iff_eq_append.mp (List.isSuffixOf_iff_suffix.mp ends) |>.symm
    · contradiction
  · rintro rfl
    exact beforeEnding?_append ending stem

/-- No text ends both like a sidecar and like a data file: the last character but one tells
them apart. -/
theorem append_sidecarEnding_ne (first second : List Char) :
    first ++ sidecarEnding.toList ≠ second ++ dataEnding.toList := by
  intro same
  have reversed := congrArg (fun text => text.reverse[1]?) same
  simp [sidecarEnding, dataEnding] at reversed

/-- The text before the ending, whichever of the two it is. -/
theorem before_either_ending_iff (text stem : List Char) :
    (beforeEnding? sidecarEnding text <|> beforeEnding? dataEnding text) = some stem ↔
      text = stem ++ sidecarEnding.toList ∨ text = stem ++ dataEnding.toList := by
  rw [← beforeEnding?_eq_some_iff, ← beforeEnding?_eq_some_iff]
  cases sidecar : beforeEnding? sidecarEnding text with
  | none => simp
  | some own =>
      have noData : beforeEnding? dataEnding text = none := by
        rw [Option.eq_none_iff_forall_ne_some]
        intro other data
        rw [beforeEnding?_eq_some_iff] at sidecar data
        exact append_sidecarEnding_ne own other (sidecar.symm.trans data)
      simp [noData]

/-! ## Fields -/

theorem ofFields?_eq_some_iff (parts : List (List Char)) (name : FileName) :
    ofFields? parts = some name ↔
      ∃ orderingKey id innerLevel crossLevel,
        parts = [orderingKey, id, innerLevel, crossLevel] ∧
          Denotes orderingKey name.orderingKey.toNat ∧ Denotes id name.id.toNat ∧
          Denotes innerLevel name.innerLevel.toNat ∧ Denotes crossLevel name.crossLevel.toNat := by
  simp only [← readUInt64?_eq_some_iff, ← readUInt32?_eq_some_iff]
  constructor
  · intro read
    rw [ofFields?.eq_def] at read
    split at read
    · rename_i orderingKey id innerLevel crossLevel
      simp only [Option.bind_eq_bind, Option.bind_eq_some_iff, Option.pure_def,
        Option.some.injEq] at read
      obtain ⟨_, keyRead, _, idRead, _, innerRead, _, crossRead, rfl⟩ := read
      exact ⟨_, _, _, _, rfl, keyRead, idRead, innerRead, crossRead⟩
    · contradiction
  · rintro ⟨orderingKey, id, innerLevel, crossLevel, rfl, keyRead, idRead, innerRead, crossRead⟩
    simp [ofFields?, keyRead, idRead, innerRead, crossRead]

/-- A text is cut into numerals of the four numbers when it is made of them: a numeral holds
no mark, so they are cut where they were joined. -/
theorem ofFields?_fields_eq_some_iff (text : String) (name : FileName) :
    ofFields? (fields '-' text.toList) = some name ↔ name.SpelledBy text := by
  rw [ofFields?_eq_some_iff]
  have mark : "-".toList = ['-'] := rfl
  constructor
  · rintro ⟨orderingKey, id, innerLevel, crossLevel, cut, keyRead, idRead, innerRead, crossRead⟩
    refine ⟨.ofList orderingKey, .ofList id, .ofList innerLevel, .ofList crossLevel, ?_, ?_⟩
    · have joined := joinFields_fields '-' text.toList
      rw [cut] at joined
      apply String.toList_inj.mp
      simp [← joined, joinFields, mark]
    · simpa using ⟨keyRead, idRead, innerRead, crossRead⟩
  · rintro ⟨orderingKey, id, innerLevel, crossLevel, rfl, keyRead, idRead, innerRead, crossRead⟩
    refine ⟨_, _, _, _, ?_, keyRead, idRead, innerRead, crossRead⟩
    have joined : joinFields '-' [orderingKey.toList, id.toList, innerLevel.toList,
        crossLevel.toList] =
        (orderingKey ++ "-" ++ id ++ "-" ++ innerLevel ++ "-" ++ crossLevel).toList := by
      simp [joinFields, mark]
    rw [← joined]
    apply fields_joinFields (List.cons_ne_nil _ _)
    simp only [List.forall_mem_cons, List.not_mem_nil, false_implies, implies_true, and_true]
    have noMark {part : List Char} {value : Nat} (read : Denotes part value) : '-' ∉ part :=
      not_mem_of_denotes read (by decide)
    exact ⟨noMark keyRead, noMark idRead, noMark innerRead, noMark crossRead⟩

/-- What spells a name holds digits, marks and pluses and nothing else. -/
theorem SpelledBy.not_mem {stem : String} {name : FileName} (spelled : name.SpelledBy stem)
    {char : Char} (foreign : ¬ char.isDigit ∧ char ≠ '+') (noMark : char ≠ '-') :
    char ∉ stem.toList := by
  rcases spelled with ⟨orderingKey, id, innerLevel, crossLevel, rfl, key, number, inner, cross⟩
  have mark : char ∉ "-".toList := fun member => noMark (List.mem_singleton.mp member)
  simp only [String.toList_append, List.mem_append, not_or]
  exact ⟨⟨⟨⟨⟨⟨not_mem_of_denotes key foreign, mark⟩, not_mem_of_denotes number foreign⟩, mark⟩,
    not_mem_of_denotes inner foreign⟩, mark⟩, not_mem_of_denotes cross foreign⟩

/-! ## Names -/

theorem parse?_eq_some_iff (text : String) (name : FileName) :
    parse? text = some name ↔
      ∃ stem, (text = stem ++ sidecarEnding ∨ text = stem ++ dataEnding) ∧
        name.SpelledBy stem := by
  rw [parse?, Option.bind_eq_bind, Option.bind_eq_some_iff]
  constructor
  · rintro ⟨stem, cut, read⟩
    rw [before_either_ending_iff] at cut
    refine ⟨.ofList stem, ?_, ?_⟩
    · simpa [← String.toList_inj] using cut
    · rw [← ofFields?_fields_eq_some_iff, String.toList_ofList]
      exact read
  · rintro ⟨stem, ending, spelled⟩
    refine ⟨stem.toList, ?_, (ofFields?_fields_eq_some_iff _ _).mpr spelled⟩
    rw [before_either_ending_iff]
    simpa [← String.toList_inj] using ending

/-- What is written is spelled. -/
theorem spelledBy_stem (name : FileName) : name.SpelledBy name.stem := by
  rw [← ofFields?_fields_eq_some_iff, fields_stem, ofFields?_numberTexts]

/-- The names that are written are read back.  A text is read as a name exactly if it has the
ending of a sidecar or of a data file and what stands before the ending spells the numbers of
the name: four numerals, each of them one or more ASCII digits after at most one plus, with a
mark between each two. -/
theorem parses_exactly :
    (∀ name : FileName,
      parse? name.dataName = some name ∧ parse? name.sidecarName = some name) ∧
    ∀ (text : String) (name : FileName),
      parse? text = some name ↔
        ∃ stem, (text = stem ++ ".tsfile.resource" ∨ text = stem ++ ".tsfile") ∧
          name.SpelledBy stem := by
  refine ⟨fun name => ⟨?_, name.parse?_sidecarName⟩, parse?_eq_some_iff⟩
  rw [parse?_eq_some_iff]
  exact ⟨name.stem, .inr rfl, name.spelledBy_stem⟩

/-! A plus and leading zeros are read, and a level of more than 32 bits is not. -/

example : parse? "+007-1-0-4294967295.tsfile" = some ⟨7, 1, 0, 4294967295⟩ ∧
    parse? "7-1-0-4294967296.tsfile" = none := by
  decide +kernel

end SeriesStore.FileName
