import Mathlib.Data.String.Basic
import SeriesStore.Text.Decimal

/-!
# Characters of decimal numbers

A decimal number is written in digits, after a minus when it is negative.  So it has as
many bytes as characters, no separator of names or paths occurs in it, and numbers of 64
bits have no more than 20 characters.
-/

namespace SeriesStore.Text

/-- A character of a written number. -/
def IsNumeric (char : Char) : Prop :=
  char.isDigit ∨ char = '-'

theorem isDigit_of_mem_writeNat {value : Nat} {char : Char}
    (member : char ∈ (writeNat value).toList) : char.isDigit := by
  rw [writeNat, Nat.toList_repr] at member
  exact Nat.isDigit_of_mem_toDigits (by decide) (by decide) member

theorem isNumeric_of_mem_writeInt {value : Int} {char : Char}
    (member : char ∈ (writeInt value).toList) : IsNumeric char := by
  cases value with
  | ofNat value => exact .inl (isDigit_of_mem_writeNat member)
  | negSucc value =>
      change char ∈ ("-" ++ writeNat (value + 1)).toList at member
      rw [String.toList_append] at member
      rcases List.mem_append.mp member with minus | digit
      · exact .inr (List.mem_singleton.mp minus)
      · exact .inl (isDigit_of_mem_writeNat digit)

theorem IsNumeric.ne {char other : Char} (numeric : IsNumeric char)
    (foreign : ¬ other.isDigit ∧ other ≠ '-') : char ≠ other := by
  rintro rfl
  exact numeric.elim foreign.1 foreign.2

theorem writeNat_ne_empty (value : Nat) : writeNat value ≠ "" := by
  intro empty
  have digits : (writeNat value).toList = Nat.toDigits 10 value := Nat.toList_repr
  rw [empty] at digits
  exact Nat.toDigits_ne_nil digits.symm

theorem writeInt_ne_empty (value : Int) : writeInt value ≠ "" := by
  cases value with
  | ofNat value => exact writeNat_ne_empty value
  | negSucc value =>
      intro empty
      have text : "-" ++ writeNat (value + 1) = "" := empty
      exact absurd (String.append_eq_empty_iff.mp text).1 (by decide)

theorem utf8Len_eq_length {chars : List Char} (narrow : ∀ char ∈ chars, char.utf8Size = 1) :
    String.utf8Len chars = chars.length := by
  induction chars with
  | nil => rfl
  | cons char rest ih =>
      rw [List.forall_mem_cons] at narrow
      rw [String.utf8Len_cons, ih narrow.2, narrow.1, List.length_cons]

/-- Characters of one byte each count for the size. -/
theorem utf8ByteSize_eq_length {text : String}
    (narrow : ∀ char ∈ text.toList, char.utf8Size = 1) :
    text.utf8ByteSize = text.toList.length := by
  have size := String.utf8ByteSize_ofList text.toList
  rw [String.ofList_toList] at size
  rw [size, utf8Len_eq_length narrow]

theorem utf8Size_of_isDigit {char : Char} (digit : char.isDigit) : char.utf8Size = 1 := by
  rw [Char.utf8Size_eq_one_iff]
  simp only [Char.isDigit, Bool.and_eq_true, decide_eq_true_eq] at digit
  exact UInt32.le_trans digit.2 (by decide)

theorem utf8ByteSize_writeNat (value : Nat) :
    (writeNat value).utf8ByteSize = (Nat.toDigits 10 value).length := by
  have narrow : ∀ char ∈ (writeNat value).toList, char.utf8Size = 1 :=
    fun _ member => utf8Size_of_isDigit (isDigit_of_mem_writeNat member)
  rw [utf8ByteSize_eq_length narrow, writeNat, Nat.toList_repr]

theorem utf8ByteSize_writeNat_le {value digits : Nat} (positive : 0 < digits)
    (small : value < 10 ^ digits) : (writeNat value).utf8ByteSize ≤ digits := by
  rw [utf8ByteSize_writeNat]
  exact (Nat.length_toDigits_le_iff (by decide) positive).mpr small

theorem utf8ByteSize_writeInt64_le (value : Int64) :
    (writeInt value.toInt).utf8ByteSize ≤ 20 := by
  have lower := value.le_toInt
  have upper := value.toInt_lt
  cases number : value.toInt with
  | ofNat size =>
      rw [number] at upper
      exact utf8ByteSize_writeNat_le (by decide) (by simp at upper; omega)
  | negSucc size =>
      change ("-" ++ writeNat (size + 1)).utf8ByteSize ≤ 20
      have bound : (writeNat (size + 1)).utf8ByteSize ≤ 19 :=
        utf8ByteSize_writeNat_le (by decide) (by omega)
      rw [String.utf8ByteSize_append]
      have minus : "-".utf8ByteSize = 1 := by decide
      omega

end SeriesStore.Text
