/-!
# Decimal numbers

A number is written with the fewest digits and a leading minus when it is
negative.  The reader takes more than the writer produces: a leading plus, and
any number of leading zeros, but only the ten ASCII digits and at least one of
them.
-/

namespace SeriesStore.Text

/-- The value of a text that is one or more ASCII digits. -/
def readDigits? (digits : List Char) : Option Nat :=
  if digits ≠ [] ∧ digits.all Char.isDigit then
    some (Nat.ofDigitChars 10 digits 0)
  else
    none

/-- The value of a text of digits that may start with a plus. -/
def readNat? : List Char → Option Nat
  | '+' :: digits => readDigits? digits
  | digits => readDigits? digits

/-- The value of a text of digits that may start with a plus or a minus. -/
def readInt? : List Char → Option Int
  | '-' :: digits => (readDigits? digits).map fun value => -(value : Int)
  | text => (readNat? text).map fun value => (value : Int)

/-- A number that fits 32 bits. -/
def readUInt32? (text : List Char) : Option UInt32 :=
  match readNat? text with
  | some value => if value < UInt32.size then some (UInt32.ofNat value) else none
  | none => none

/-- A number that fits 64 bits. -/
def readUInt64? (text : List Char) : Option UInt64 :=
  match readNat? text with
  | some value => if value < UInt64.size then some (UInt64.ofNat value) else none
  | none => none

/-- A signed number that fits 64 bits. -/
def readInt64? (text : List Char) : Option Int64 :=
  match readInt? text with
  | some value =>
      if Int64.minValue.toInt ≤ value ∧ value ≤ Int64.maxValue.toInt then
        some (Int64.ofInt value)
      else
        none
  | none => none

/-- The decimal text of a natural number. -/
def writeNat (value : Nat) : String :=
  value.repr

/-- The decimal text of an integer. -/
def writeInt (value : Int) : String :=
  value.repr

theorem readDigits?_toDigits (value : Nat) :
    readDigits? (Nat.toDigits 10 value) = some value := by
  have digits : (Nat.toDigits 10 value).all Char.isDigit :=
    List.all_eq_true.mpr fun _ member =>
      Nat.isDigit_of_mem_toDigits (by decide) (by decide) member
  rw [readDigits?, if_pos ⟨Nat.toDigits_ne_nil, digits⟩,
    Nat.ofDigitChars_toDigits (by decide) (by decide)]

/-- A text of digits starts with no sign. -/
theorem toDigits_eq_cons (value : Nat) :
    ∃ first rest, Nat.toDigits 10 value = first :: rest ∧ first ≠ '+' ∧ first ≠ '-' := by
  cases digits : Nat.toDigits 10 value with
  | nil => exact absurd digits Nat.toDigits_ne_nil
  | cons first rest =>
      have isDigit : first.isDigit :=
        Nat.isDigit_of_mem_toDigits (by decide) (by decide) (digits ▸ List.mem_cons_self)
      refine ⟨first, rest, rfl, ?_, ?_⟩ <;> rintro rfl <;> exact absurd isDigit (by decide)

/-- Reading what was written gives the number back. -/
theorem readNat?_writeNat (value : Nat) :
    readNat? (writeNat value).toList = some value := by
  rw [writeNat, Nat.toList_repr]
  obtain ⟨first, rest, digits, notPlus, _⟩ := toDigits_eq_cons value
  have read := readDigits?_toDigits value
  rw [digits] at read ⊢
  unfold readNat?
  split
  · rename_i first_eq
    simp_all
  · exact read

/-- Reading what was written gives the integer back. -/
theorem readInt?_writeInt (value : Int) :
    readInt? (writeInt value).toList = some value := by
  cases value with
  | ofNat value =>
      have text : (writeInt (Int.ofNat value)).toList = Nat.toDigits 10 value :=
        Nat.toList_repr
      have read := readNat?_writeNat value
      rw [writeNat, Nat.toList_repr] at read
      rw [text]
      obtain ⟨first, rest, digits, _, notMinus⟩ := toDigits_eq_cons value
      rw [digits] at read ⊢
      unfold readInt?
      split
      · rename_i first_eq
        simp_all
      · rw [read]
        rfl
  | negSucc value =>
      have text : (writeInt (Int.negSucc value)).toList = '-' :: Nat.toDigits 10 (value + 1) := by
        show ("-" ++ (value + 1).repr).toList = _
        rw [String.toList_append, Nat.toList_repr]
        rfl
      rw [text]
      show (readDigits? (Nat.toDigits 10 (value + 1))).map (fun value => -(value : Int)) = _
      rw [readDigits?_toDigits]
      rfl

/-- Reading back a 64-bit number. -/
theorem readUInt64?_writeNat (value : UInt64) :
    readUInt64? (writeNat value.toNat).toList = some value := by
  simp [readUInt64?, readNat?_writeNat, value.toNat_lt_size]

/-- Reading back a 32-bit number. -/
theorem readUInt32?_writeNat (value : UInt32) :
    readUInt32? (writeNat value.toNat).toList = some value := by
  simp [readUInt32?, readNat?_writeNat, value.toNat_lt_size]

/-- Reading back a signed 64-bit number. -/
theorem readInt64?_writeInt (value : Int64) :
    readInt64? (writeInt value.toInt).toList = some value := by
  have lower := value.minValue_le_toInt
  have upper := value.toInt_le
  simp only [readInt64?, readInt?_writeInt]
  rw [if_pos ⟨lower, upper⟩]
  simp

end SeriesStore.Text
