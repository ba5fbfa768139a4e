import SeriesStore.File.Name
import SeriesStore.Proofs.Text.Decimal

/-!
# Names of sidecars

The name of a sidecar is read back as the numbers that it spells out, so different
numbers never share a name.  Only digits and marks stand before its ending, which keeps
it clear of everything that has a meaning in a path, and it is short enough for a name.
-/

namespace SeriesStore.FileName

open Text

variable (name : FileName)

/-- The texts of the four numbers. -/
def numberTexts : List (List Char) :=
  [name.orderingKey.toNat, name.id.toNat, name.innerLevel.toNat, name.crossLevel.toNat].map
    fun number => (writeNat number).toList

theorem toList_stem : name.stem.toList = joinFields '-' name.numberTexts := by
  have mark : "-".toList = ['-'] := rfl
  simp [stem, numberTexts, joinFields, mark]

theorem isDigit_of_mem_numberTexts {text : List Char} (member : text ∈ name.numberTexts)
    {char : Char} (charMember : char ∈ text) : char.isDigit := by
  rcases List.mem_map.mp member with ⟨number, _, rfl⟩
  exact isDigit_of_mem_writeNat charMember

theorem fields_stem : fields '-' name.stem.toList = name.numberTexts := by
  rw [toList_stem]
  apply fields_joinFields (List.cons_ne_nil _ _)
  intro text member mark
  exact absurd (name.isDigit_of_mem_numberTexts member mark) (by decide)

theorem ofFields?_numberTexts : ofFields? name.numberTexts = some name := by
  simp [numberTexts, ofFields?, readUInt64?_writeNat, readUInt32?_writeNat]

/-- Reading the name of a sidecar gives its numbers back. -/
theorem parse?_sidecarName : parse? name.sidecarName = some name := by
  have stem : beforeEnding? sidecarEnding name.sidecarName.toList = some name.stem.toList := by
    rw [sidecarName, String.toList_append, beforeEnding?_append]
  simp [parse?, stem, fields_stem, ofFields?_numberTexts]

theorem sidecarName_inj {first second : FileName}
    (same : first.sidecarName = second.sidecarName) : first = second := by
  have read := parse?_sidecarName first
  rw [same, parse?_sidecarName] at read
  exact (Option.some.inj read).symm

theorem isSidecarName_sidecarName : isSidecarName name.sidecarName := by
  rw [isSidecarName, sidecarName, String.toList_append, List.isSuffixOf_iff_suffix]
  exact List.suffix_append _ _

/-- Digits and marks stand before the ending. -/
theorem isNumeric_of_mem_stem {char : Char} (member : char ∈ name.stem.toList) :
    IsNumeric char := by
  simp only [stem, String.toList_append, List.mem_append] at member
  have digits {number : Nat} (inText : char ∈ (writeNat number).toList) : IsNumeric char :=
    .inl (isDigit_of_mem_writeNat inText)
  have mark (inText : char ∈ "-".toList) : IsNumeric char := .inr (List.mem_singleton.mp inText)
  rcases member with (((((first | second) | third) | fourth) | fifth) | sixth) | seventh
  · exact digits first
  · exact mark second
  · exact digits third
  · exact mark fourth
  · exact digits fifth
  · exact mark sixth
  · exact digits seventh

theorem utf8ByteSize_sidecarName_le : name.sidecarName.utf8ByteSize ≤ 79 := by
  have wide (number : UInt64) : (writeNat number.toNat).utf8ByteSize ≤ 20 :=
    utf8ByteSize_writeNat_le (by decide) (number.toNat_lt.trans (by decide))
  have narrow (number : UInt32) : (writeNat number.toNat).utf8ByteSize ≤ 10 :=
    utf8ByteSize_writeNat_le (by decide) (number.toNat_lt.trans (by decide))
  have mark : "-".utf8ByteSize = 1 := by decide
  have ending : sidecarEnding.utf8ByteSize = 16 := by decide
  have orderingKey := wide name.orderingKey
  have id := wide name.id
  have innerLevel := narrow name.innerLevel
  have crossLevel := narrow name.crossLevel
  simp only [sidecarName, stem, String.utf8ByteSize_append, mark, ending]
  omega

end SeriesStore.FileName
