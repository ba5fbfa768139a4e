import Mathlib.Data.Nat.Digits.Defs
import SeriesStore.Text.Decimal

/-!
# Numerals

A numeral is one or more ASCII digits, after at most one plus, and denotes the sum of its
digits by their places.  The reader of numbers takes every numeral, however many zeros it
starts with, and nothing else; a reader of words takes those that denote a word.
-/

namespace SeriesStore.Text

/-- The value of digits by their places, the last of which is that of the ones. -/
def placeValue (digits : List Char) : Nat :=
  Nat.ofDigits 10 (digits.reverse.map fun digit => digit.toNat - '0'.toNat)

/-- Whether a text is a numeral of a number. -/
def Denotes (text : List Char) (value : Nat) : Prop :=
  ∃ digits, (text = digits ∨ text = '+' :: digits) ∧ digits ≠ [] ∧
    (∀ char ∈ digits, char.isDigit) ∧ placeValue digits = value

/-- A numeral holds digits and a plus and nothing else. -/
theorem not_mem_of_denotes {text : List Char} {value : Nat} (denotes : Denotes text value)
    {char : Char} (foreign : ¬ char.isDigit ∧ char ≠ '+') : char ∉ text := by
  obtain ⟨digits, spelling, _, areDigits, _⟩ := denotes
  have outside : char ∉ digits := fun member => foreign.1 (areDigits char member)
  rcases spelling with rfl | rfl
  · exact outside
  · exact List.not_mem_cons_of_ne_of_not_mem foreign.2 outside

theorem placeValue_cons (first : Char) (rest : List Char) :
    placeValue (first :: rest) =
      10 ^ rest.length * (first.toNat - '0'.toNat) + placeValue rest := by
  simp only [placeValue, List.map_reverse]
  rw [List.map_cons, Nat.ofDigits_reverse_cons, List.length_map, Nat.add_comm]

/-- Reading digits from the left gives each of them its place. -/
theorem ofDigitChars_eq_placeValue (digits : List Char) :
    Nat.ofDigitChars 10 digits 0 = placeValue digits := by
  induction digits with
  | nil => rfl
  | cons first rest ih =>
      rw [Nat.ofDigitChars_cons, Nat.mul_zero, Nat.zero_add,
        Nat.ofDigitChars_eq_ofDigitChars_zero, ih, placeValue_cons]

theorem readDigits?_eq_some_iff (digits : List Char) (value : Nat) :
    readDigits? digits = some value ↔
      digits ≠ [] ∧ (∀ char ∈ digits, char.isDigit) ∧ placeValue digits = value := by
  rw [readDigits?, ofDigitChars_eq_placeValue]
  simp only [List.all_eq_true]
  split
  · rename_i isNumber
    rw [Option.some.injEq]
    exact ⟨fun same => ⟨isNumber.1, isNumber.2, same⟩, fun read => read.2.2⟩
  · rename_i noNumber
    simp only [reduceCtorEq, false_iff]
    exact fun read => noNumber ⟨read.1, read.2.1⟩

/-- The reader takes numerals and nothing else. -/
theorem readNat?_eq_some_iff (text : List Char) (value : Nat) :
    readNat? text = some value ↔ Denotes text value := by
  rw [readNat?.eq_def]
  split
  · rename_i digits
    rw [readDigits?_eq_some_iff]
    constructor
    · exact fun read => ⟨digits, .inr rfl, read⟩
    · rintro ⟨other, rfl | same, read⟩
      · exact absurd (read.2.1 '+' List.mem_cons_self) (by decide)
      · cases same
        exact read
  · rename_i noPlus
    rw [readDigits?_eq_some_iff]
    constructor
    · exact fun read => ⟨text, .inl rfl, read⟩
    · rintro ⟨digits, rfl | signed, read⟩
      · exact read
      · exact absurd signed (noPlus digits)

/-- A reader that turns the numbers below a bound into words finds the word of the number. -/
theorem readBelow_eq_some_iff {word : Type} {bound : Nat} {ofNat : Nat → word}
    {toNat : word → Nat} (found : word) (toNat_lt : toNat found < bound)
    (ofNat_eq_iff : ∀ value < bound, ofNat value = found ↔ value = toNat found)
    (read? : Option Nat) :
    (match read? with
      | some value => if value < bound then some (ofNat value) else none
      | none => none) = some found ↔ read? = some (toNat found) := by
  cases read? with
  | none => simp
  | some value =>
      dsimp only
      rw [Option.some.injEq]
      split
      · rename_i fits
        rw [Option.some.injEq, ofNat_eq_iff value fits]
      · rename_i large
        simp only [reduceCtorEq, false_iff]
        rintro rfl
        exact large toNat_lt

/-- The readers of words take the numerals that denote a word. -/
theorem readUInt64?_eq_some_iff (text : List Char) (word : UInt64) :
    readUInt64? text = some word ↔ Denotes text word.toNat := by
  rw [← readNat?_eq_some_iff, readUInt64?]
  refine readBelow_eq_some_iff word word.toNat_lt_size (fun value fits => ?_) (readNat? text)
  rw [← UInt64.toNat_inj, UInt64.toNat_ofNat_of_lt' fits]

theorem readUInt32?_eq_some_iff (text : List Char) (word : UInt32) :
    readUInt32? text = some word ↔ Denotes text word.toNat := by
  rw [← readNat?_eq_some_iff, readUInt32?]
  refine readBelow_eq_some_iff word word.toNat_lt_size (fun value fits => ?_) (readNat? text)
  rw [← UInt32.toNat_inj, UInt32.toNat_ofNat_of_lt' fits]

end SeriesStore.Text
