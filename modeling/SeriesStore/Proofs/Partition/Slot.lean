import Mathlib.Tactic.Linarith
import SeriesStore.Partition.Key

/-!
# Slots of time

The slot of a time is its quotient by the length of a slot, rounded down, so the slots tile
the time line: each of them begins where the one before it ends, also before time zero.

Rounding down is truncating division and a correction after it.  Whether their exact
results are words is kept track of by `checkedSlotOf?`, which has the same steps and stops
where a result fits no word.
-/

namespace SeriesStore.PartitionKey

/-! ## Steps that may overflow -/

/-- The word of an exact result, if there is one. -/
def fitted? (exact : Int) : Option Int64 :=
  if Int64.minValue.toInt ≤ exact ∧ exact ≤ Int64.maxValue.toInt then
    some (Int64.ofInt exact)
  else
    none

/-- The quotient of two words and what remains, the quotient truncated.  There is neither
for a divisor of zero, nor when no word holds the quotient. -/
def divided? (dividend divisor : Int64) : Option (Int64 × Int64) :=
  if divisor = 0 then
    none
  else do
    let quotient ← fitted? (dividend.toInt.tdiv divisor.toInt)
    let remainder ← fitted? (dividend.toInt.tmod divisor.toInt)
    return (quotient, remainder)

/-- The number of the slot that holds `time`, unless a step on the way overflows. -/
def checkedSlotOf? (time : Timestamp) (length : Int64) : Option Int64 := do
  let (quotient, remainder) ← divided? time (max length 1)
  if remainder < 0 then
    fitted? (quotient.toInt - 1)
  else
    return quotient

theorem fitted?_eq_some_iff (exact : Int) (word : Int64) :
    fitted? exact = some word ↔ word.toInt = exact := by
  rw [fitted?]
  split
  · rename_i fits
    rw [Option.some.injEq, ← Int64.toInt_inj, Int64.toInt_ofInt_of_le fits.1]
    · exact eq_comm
    · exact Int.lt_add_one_of_le fits.2
  · rename_i outside
    simp only [reduceCtorEq, false_iff]
    rintro rfl
    exact outside ⟨word.minValue_le_toInt, word.toInt_le⟩

/-! ## Rounding down -/

/-- The length that counts. -/
theorem toInt_max_one (length : Int64) : (max length 1).toInt = max length.toInt 1 := by
  rw [max_eq_ite]
  split
  · rename_i small
    rw [Int64.le_iff_toInt_le] at small
    exact (max_eq_right small).symm
  · rename_i large
    rw [Int64.le_iff_toInt_le, not_le] at large
    exact (max_eq_left large.le).symm

theorem toInt_max_one_pos (length : Int64) : 0 < (max length 1).toInt := by
  rw [toInt_max_one]
  omega

/-- One less than the truncated quotient when something negative remains is the quotient
rounded down. -/
theorem tdiv_corrected {dividend divisor : Int} (positive : 0 < divisor) :
    (if dividend.tmod divisor < 0 then dividend.tdiv divisor - 1 else dividend.tdiv divisor) =
      dividend / divisor := by
  have nonneg := Int.emod_nonneg dividend positive.ne'
  have small := Int.emod_lt_of_pos dividend positive
  rw [Int.tdiv_eq_ediv, Int.tmod_eq_emod, Int.sign_eq_one_of_pos positive]
  by_cases whole : 0 ≤ dividend ∨ divisor ∣ dividend
  · simp only [if_pos whole]
    rw [if_neg (by omega)]
    omega
  · simp only [if_neg whole]
    rw [if_pos (by omega)]
    omega

/-- The quotient by a positive word is a word. -/
theorem ediv_fits (time : Int64) {divisor : Int} (positive : 0 < divisor) :
    Int64.minValue.toInt ≤ time.toInt / divisor ∧ time.toInt / divisor ≤ Int64.maxValue.toInt := by
  have lower := time.minValue_le_toInt
  have upper := time.toInt_le
  constructor
  · rw [Int.le_ediv_iff_mul_le positive]
    have shrinks : Int64.minValue.toInt * divisor ≤ Int64.minValue.toInt * 1 :=
      Int.mul_le_mul_of_nonpos_left (by decide) positive
    omega
  · rw [← Int.lt_add_one_iff, Int.ediv_lt_iff_lt_mul positive]
    have grows : (Int64.maxValue.toInt + 1) * 1 ≤ (Int64.maxValue.toInt + 1) * divisor :=
      Int.mul_le_mul_of_nonneg_left positive (by decide)
    omega

theorem toInt_div_max_one (time : Timestamp) (length : Int64) :
    (time / max length 1).toInt = time.toInt.tdiv (max length 1).toInt := by
  apply Int64.toInt_div_of_ne_right
  intro minusOne
  have positive := toInt_max_one_pos length
  rw [minusOne] at positive
  exact absurd positive (by decide)

theorem slotOf_eq_ite (time : Timestamp) (length : Int64) :
    slotOf time length =
      if time % max length 1 < 0 then time / max length 1 - 1 else time / max length 1 :=
  rfl

theorem remainder_neg_iff (time unit : Int64) :
    time % unit < 0 ↔ time.toInt.tmod unit.toInt < 0 := by
  rw [Int64.lt_iff_toInt_lt, Int64.toInt_mod, Int64.toInt_zero]

/-- The number of a slot is the quotient rounded down. -/
theorem toInt_slotOf (time : Timestamp) (length : Int64) :
    (slotOf time length).toInt = time.toInt / max length.toInt 1 := by
  have positive := toInt_max_one_pos length
  have fits := ediv_fits time positive
  rw [← toInt_max_one, ← tdiv_corrected positive]
  rw [← tdiv_corrected positive] at fits
  rw [slotOf_eq_ite]
  simp only [remainder_neg_iff]
  split
  · rename_i remains
    rw [if_pos remains] at fits
    rw [Int64.toInt_sub, toInt_div_max_one, Int64.toInt_one]
    exact Int.bmod_eq_of_le fits.1 (Int.lt_add_one_of_le fits.2)
  · exact toInt_div_max_one time length

/-! The moment before zero lies in the slot before the first one, also when a slot is no longer
than a moment. -/

example : slotOf (-1) 604800000 = -1 ∧ slotOf (-1) 0 = -1 ∧ slotOf (-604800000) 604800000 = -1 := by
  decide

/-! ## No step overflows -/

theorem divided?_max_one (time : Timestamp) (length : Int64) :
    divided? time (max length 1) = some (time / max length 1, time % max length 1) := by
  have nonzero : max length 1 ≠ 0 := by
    intro zero
    have positive := toInt_max_one_pos length
    rw [zero] at positive
    exact absurd positive (by decide)
  have quotient := (fitted?_eq_some_iff _ _).mpr (toInt_div_max_one time length)
  have remainder := (fitted?_eq_some_iff _ _).mpr (Int64.toInt_mod time (max length 1))
  rw [divided?, if_neg nonzero, quotient, remainder]
  rfl

/-- All steps have results, and they are those of the steps without checks. -/
theorem checkedSlotOf?_eq (time : Timestamp) (length : Int64) :
    checkedSlotOf? time length = some (slotOf time length) := by
  have rounded := toInt_slotOf time length
  rw [← toInt_max_one, ← tdiv_corrected (toInt_max_one_pos length)] at rounded
  rw [checkedSlotOf?, divided?_max_one]
  simp only [slotOf_eq_ite, remainder_neg_iff] at rounded ⊢
  by_cases remains : time.toInt.tmod (max length 1).toInt < 0
  · rw [if_pos remains, if_pos remains] at rounded
    simp only [Option.bind_eq_bind, Option.bind_some, remainder_neg_iff, if_pos remains]
    rw [fitted?_eq_some_iff, rounded, toInt_div_max_one]
  · simp only [Option.bind_eq_bind, Option.bind_some, remainder_neg_iff, if_neg remains]
    rfl

/-- The slots tile the time line: a time lies in its slot and not beyond, later times lie in
no earlier slot, and no step towards the number of the slot leaves the words. -/
theorem slots_tile_time (group : String) (time : Timestamp) (length : Int64) :
    (forTimestamp group time length).slot.toInt * max length.toInt 1 ≤ time.toInt ∧
      time.toInt < ((forTimestamp group time length).slot.toInt + 1) * max length.toInt 1 ∧
      checkedSlotOf? time length = some (forTimestamp group time length).slot ∧
      ∀ later, time ≤ later →
        (forTimestamp group time length).slot ≤ (forTimestamp group later length).slot := by
  have positive : 0 < max length.toInt 1 := by omega
  have slot (moment : Timestamp) :
      (forTimestamp group moment length).slot.toInt = moment.toInt / max length.toInt 1 :=
    toInt_slotOf moment length
  refine ⟨?_, ?_, checkedSlotOf?_eq time length, fun later isLater => ?_⟩
  · rw [slot]
    exact Int.ediv_mul_le _ positive.ne'
  · rw [slot]
    exact Int.lt_ediv_add_one_mul_self _ positive
  · rw [Int64.le_iff_toInt_le] at isLater
    rw [Int64.le_iff_toInt_le, slot, slot]
    exact Int.ediv_le_ediv positive isLater

/-- From the first moment to the last one with slots of a week. -/
theorem slots_tile_time_extremes :
    (-15250284453 : Int) * 604800000 ≤ Int64.minValue.toInt ∧
      Int64.minValue.toInt < (-15250284453 + 1 : Int) * 604800000 ∧
      checkedSlotOf? Int64.minValue 604800000 = some (-15250284453) ∧
      Int64.minValue ≤ Int64.maxValue ∧
      (-15250284453 : Int64) ≤ (forTimestamp "root.sg" Int64.maxValue 604800000).slot := by
  have number : (forTimestamp "root.sg" Int64.minValue 604800000).slot = -15250284453 := by
    decide
  have isLater : Int64.minValue ≤ Int64.maxValue := by
    decide
  rcases slots_tile_time "root.sg" Int64.minValue 604800000 with
    ⟨starts, stops, checked, ordered⟩
  rw [number] at starts stops checked ordered
  exact ⟨starts, stops, checked, isLater, ordered Int64.maxValue isLater⟩

end SeriesStore.PartitionKey
