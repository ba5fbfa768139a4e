import SeriesStore.Proofs.Text.Numeral

/-!
# Signed numerals

The reader of signed numbers takes every numeral and every run of digits after a minus.  So
a number has many spellings, and one of them is what is written: the terse one, which
begins with no plus and with no zero, unless it is the number zero.
-/

namespace SeriesStore.Text

/-- Whether a text is a numeral of an integer. -/
def DenotesInt (text : List Char) (value : Int) : Prop :=
  (∃ size, Denotes text size ∧ value = size) ∨
    ∃ digits, text = '-' :: digits ∧ digits ≠ [] ∧ (∀ char ∈ digits, char.isDigit) ∧
      value = -placeValue digits

/-- What stands after the minus of a numeral, if it has one. -/
def unsigned : List Char → List Char
  | '-' :: digits => digits
  | text => text

/-- Whether nothing can be left out of a numeral: it has no plus, and unless it is zero
itself, its digits begin with no zero. -/
def Terse (text : List Char) : Prop :=
  text = ['0'] ∨ text.head? ≠ some '+' ∧ (unsigned text).head? ≠ some '0'

instance (text : List Char) : Decidable (Terse text) :=
  inferInstanceAs (Decidable (_ ∨ _))

/-- A signed numeral holds digits and a sign and nothing else. -/
theorem not_mem_of_denotesInt {text : List Char} {value : Int} (denotes : DenotesInt text value)
    {char : Char} (foreign : ¬ char.isDigit ∧ char ≠ '+') (noMinus : char ≠ '-') :
    char ∉ text := by
  rcases denotes with ⟨size, unsigned, _⟩ | ⟨digits, rfl, _, areDigits, _⟩
  · exact not_mem_of_denotes unsigned foreign
  · exact List.not_mem_cons_of_ne_of_not_mem noMinus fun member =>
      foreign.1 (areDigits char member)

theorem ne_nil_of_denotesInt {text : List Char} {value : Int} (denotes : DenotesInt text value) :
    text ≠ [] := by
  rcases denotes with ⟨_, ⟨digits, rfl | rfl, ne_nil, _⟩, _⟩ | ⟨digits, rfl, _⟩
  · exact ne_nil
  · exact List.cons_ne_nil _ _
  · exact List.cons_ne_nil _ _

/-! ## What is read -/

/-- The reader of signed numbers takes signed numerals and nothing else. -/
theorem readInt?_eq_some_iff (text : List Char) (value : Int) :
    readInt? text = some value ↔ DenotesInt text value := by
  rw [readInt?.eq_def]
  split
  · rename_i digits
    simp only [Option.map_eq_some_iff, Option.bind_eq_bind, Option.bind_eq_some_iff,
      Option.pure_def, Option.some.injEq, readDigits?_eq_some_iff]
    constructor
    · rintro ⟨_, ⟨size, ⟨ne_nil, areDigits, rfl⟩, rfl⟩, rfl⟩
      exact .inr ⟨digits, rfl, ne_nil, areDigits, rfl⟩
    · rintro (⟨size, ⟨others, signed | signed, _, areDigits, _⟩, _⟩ |
        ⟨others, same, ne_nil, areDigits, rfl⟩)
      · exact absurd (areDigits '-' (signed ▸ List.mem_cons_self)) (by decide)
      · cases signed
      · cases same
        exact ⟨_, ⟨_, ⟨ne_nil, areDigits, rfl⟩, rfl⟩, rfl⟩
  · rename_i noMinus
    simp only [Option.map_eq_some_iff, Option.bind_eq_bind, Option.bind_eq_some_iff,
      Option.pure_def, Option.some.injEq, readNat?_eq_some_iff]
    constructor
    · rintro ⟨_, ⟨size, denotes, rfl⟩, rfl⟩
      exact .inl ⟨size, denotes, rfl⟩
    · rintro (⟨size, denotes, rfl⟩ | ⟨digits, signed, _⟩)
      · exact ⟨_, ⟨size, denotes, rfl⟩, rfl⟩
      · exact absurd signed (noMinus digits)

/-- The reader of signed words takes the numerals that denote a word. -/
theorem readInt64?_eq_some_iff (text : List Char) (word : Int64) :
    readInt64? text = some word ↔ DenotesInt text word.toInt := by
  rw [← readInt?_eq_some_iff, readInt64?]
  cases readInt? text with
  | none => simp
  | some value =>
      dsimp only
      rw [Option.some.injEq]
      split
      · rename_i fits
        rw [Option.some.injEq, ← Int64.toInt_inj, Int64.toInt_ofInt_of_le fits.1]
        exact Int.lt_add_one_of_le fits.2
      · rename_i outside
        simp only [reduceCtorEq, false_iff]
        rintro rfl
        exact outside ⟨word.minValue_le_toInt, word.toInt_le⟩

/-! ## What is written -/

theorem toList_writeInt_natCast (value : Nat) :
    (writeInt value).toList = Nat.toDigits 10 value :=
  Nat.toList_repr

theorem toList_writeInt_neg {value : Nat} (positive : 0 < value) :
    (writeInt (-value)).toList = '-' :: Nat.toDigits 10 value := by
  cases value with
  | zero => contradiction
  | succ value =>
      change ("-" ++ (value + 1).repr).toList = _
      rw [String.toList_append, Nat.toList_repr]
      rfl

/-- A number that is not zero is written without a zero in front. -/
theorem head?_toDigits_ne {value : Nat} (positive : 0 < value) :
    (Nat.toDigits 10 value).head? ≠ some '0' := by
  induction value using Nat.base_induction 10 (by decide) with
  | single value small =>
      rw [Nat.toDigits_of_lt_base small]
      simpa using positive.ne'
  | digit front last isDigit frontPositive ih =>
      have first := ih frontPositive
      rw [← Nat.toDigits_append_toDigits (by decide) frontPositive isDigit, List.head?_append]
      cases front : Nat.toDigits 10 front with
      | nil => exact absurd front Nat.toDigits_ne_nil
      | cons char rest => rwa [front] at first

theorem digitChar_of_isDigit {char : Char} (digit : char.isDigit) :
    char.toNat - '0'.toNat < 10 ∧ (char.toNat - '0'.toNat).digitChar = char := by
  have zero : '0'.toNat = 48 := rfl
  have nine : '9'.toNat = 57 := rfl
  rw [Char.isDigit_iff_toNat] at digit
  have small : char.toNat - '0'.toNat < 10 := by omega
  refine ⟨small, Char.toNat_inj.mp ?_⟩
  rw [Nat.toNat_digitChar_of_lt_ten small]
  omega

/-- Digits that are read after others are written after them. -/
theorem toDigits_append {digits : List Char} (areDigits : ∀ char ∈ digits, char.isDigit)
    {front : Nat} (positive : 0 < front) :
    Nat.toDigits 10 (Nat.ofDigitChars 10 digits front) = Nat.toDigits 10 front ++ digits := by
  induction digits generalizing front with
  | nil => simp
  | cons first rest ih =>
      rw [List.forall_mem_cons] at areDigits
      obtain ⟨small, rebuilt⟩ := digitChar_of_isDigit areDigits.1
      rw [Nat.ofDigitChars_cons, ih areDigits.2 (by omega),
        ← Nat.toDigits_append_toDigits (by decide) positive small, Nat.toDigits_of_lt_base small,
        rebuilt, List.append_assoc, List.singleton_append]

/-- Digits without a zero in front are those that are written for their value. -/
theorem toDigits_placeValue {digits : List Char} (ne_nil : digits ≠ [])
    (areDigits : ∀ char ∈ digits, char.isDigit) (noZero : digits.head? ≠ some '0') :
    0 < placeValue digits ∧ Nat.toDigits 10 (placeValue digits) = digits := by
  cases digits with
  | nil => contradiction
  | cons first rest =>
      rw [List.forall_mem_cons] at areDigits
      obtain ⟨small, rebuilt⟩ := digitChar_of_isDigit areDigits.1
      have positive : 0 < first.toNat - '0'.toNat := by
        rw [Nat.pos_iff_ne_zero]
        intro zero
        rw [zero] at rebuilt
        exact noZero (congrArg some rebuilt.symm)
      have written := toDigits_append areDigits.2 positive
      have value : placeValue (first :: rest) =
          Nat.ofDigitChars 10 rest (first.toNat - '0'.toNat) := by
        rw [← ofDigitChars_eq_placeValue, Nat.ofDigitChars_cons]
        simp
      rw [← value, Nat.toDigits_of_lt_base small, rebuilt] at written
      refine ⟨?_, written⟩
      rw [placeValue_cons]
      exact Nat.add_pos_left (Nat.mul_pos (Nat.pow_pos (by decide)) positive) _

/-! ## Terse numerals -/

theorem unsigned_of_digits {digits : List Char} (areDigits : ∀ char ∈ digits, char.isDigit) :
    unsigned digits = digits := by
  rw [unsigned.eq_def]
  split
  · exact absurd (areDigits '-' List.mem_cons_self) (by decide)
  · rfl

theorem head?_ne_of_digits {digits : List Char} (areDigits : ∀ char ∈ digits, char.isDigit)
    {char : Char} (foreign : ¬ char.isDigit) : digits.head? ≠ some char :=
  fun first => foreign (areDigits char (List.mem_of_mem_head? first))

/-- Digits are terse when they begin with no zero, or are nothing else. -/
theorem terse_digits_iff {digits : List Char} (areDigits : ∀ char ∈ digits, char.isDigit) :
    Terse digits ↔ digits = ['0'] ∨ digits.head? ≠ some '0' := by
  have noPlus := head?_ne_of_digits areDigits (by decide : ¬ '+'.isDigit)
  rw [Terse, unsigned_of_digits areDigits, and_iff_right noPlus]

theorem isDigit_of_mem_toDigits {value : Nat} :
    ∀ char ∈ Nat.toDigits 10 value, char.isDigit :=
  fun _ member => Nat.isDigit_of_mem_toDigits (by decide) (by decide) member

/-- What is written is terse. -/
theorem terse_writeInt (value : Int) : Terse (writeInt value).toList := by
  by_cases positive : 0 < value.natAbs
  · have noZero := head?_toDigits_ne positive
    rcases value.natAbs_eq with same | same
    · rw [same, toList_writeInt_natCast, terse_digits_iff isDigit_of_mem_toDigits]
      exact .inr noZero
    · rw [same, toList_writeInt_neg positive]
      exact .inr ⟨by simp, noZero⟩
  · have zero : value = 0 := by omega
    subst zero
    exact .inl (Nat.toDigits_zero 10)

/-- The terse numeral of a number is the one that is written. -/
theorem eq_writeInt_iff {text : List Char} {value : Int} (denotes : DenotesInt text value) :
    text = (writeInt value).toList ↔ Terse text := by
  constructor
  · rintro rfl
    exact terse_writeInt value
  · intro terse
    rcases denotes with ⟨size, ⟨digits, rfl | rfl, ne_nil, areDigits, rfl⟩, rfl⟩ |
      ⟨digits, rfl, ne_nil, areDigits, rfl⟩
    · rw [toList_writeInt_natCast]
      rcases (terse_digits_iff areDigits).mp terse with rfl | noZero
      · exact (Nat.toDigits_zero 10).symm
      · exact (toDigits_placeValue ne_nil areDigits noZero).2.symm
    · rcases terse with zero | ⟨noPlus, _⟩
      · simp at zero
      · exact absurd rfl noPlus
    · rcases terse with zero | ⟨_, noZero⟩
      · simp at zero
      · obtain ⟨positive, written⟩ := toDigits_placeValue ne_nil areDigits noZero
        rw [toList_writeInt_neg positive, written]

/-! Of the spellings of seven and of zero one each is terse. -/

example :
    (["7", "+7", "007", "0", "-0", "00"].filter fun text => Terse text.toList) = ["7", "0"] := by
  decide

end SeriesStore.Text
