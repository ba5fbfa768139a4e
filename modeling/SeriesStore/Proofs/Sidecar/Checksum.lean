import Mathlib
import SeriesStore.Sidecar.Checksum
import SeriesStore.Sidecar.Word

/-!
# What the checksum tells apart

Shifting the register respects exclusive or, and it loses nothing: the generator has its
lowest power in the highest bit, which a bare shift leaves clear.  So registers that differ
still differ after any bytes have been taken in.

Taking in up to four bytes is adding the word that they spell to the register and then
shifting it eight times for each of them.  The word of four bytes fills the register and no
more, so different words of one length lead to different registers.  Together this means that
a change of at most four bytes in a row always shows in the checksum.
-/

namespace SeriesStore.Sidecar

/-! ## Shifts of the register -/

theorem and_one_eq_one_iff (register : UInt32) :
    register &&& 1 = 1 ↔ register.toNat % 2 = 1 := by
  rw [← UInt32.toNat_inj, UInt32.toNat_and, UInt32.toNat_one, Nat.and_one_is_mod]

theorem shiftRegister_xor (first second : UInt32) :
    shiftRegister (first ^^^ second) = shiftRegister first ^^^ shiftRegister second := by
  have odd : (first ^^^ second) &&& 1 = 1 ↔ ¬ (first &&& 1 = 1 ↔ second &&& 1 = 1) := by
    simp only [and_one_eq_one_iff, UInt32.toNat_xor]
    exact Nat.xor_mod_two_eq_one
  have cancel (left right : UInt32) :
      left ^^^ generator ^^^ (right ^^^ generator) = left ^^^ right := by
    rw [UInt32.xor_comm right, UInt32.xor_assoc, ← UInt32.xor_assoc generator,
      UInt32.xor_self, UInt32.zero_xor]
  simp only [shiftRegister, odd, UInt32.shiftRight_xor]
  by_cases firstOdd : first &&& 1 = 1 <;> by_cases secondOdd : second &&& 1 = 1 <;>
    simp only [firstOdd, secondOdd, iff_true, iff_false, not_true_eq_false, not_false_eq_true,
      if_true, if_false]
  · exact (cancel _ _).symm
  · rw [UInt32.xor_assoc, UInt32.xor_assoc, UInt32.xor_comm (second >>> 1)]
  · rw [UInt32.xor_assoc]

theorem eq_zero_of_shiftRegister {register : UInt32} (vanishes : shiftRegister register = 0) :
    register = 0 := by
  have half : (register >>> 1).toNat = register.toNat / 2 := UInt32.toNat_shiftRight _ _
  have bound := register.toNat_lt
  rw [shiftRegister] at vanishes
  split at vanishes
  · -- The generator has a bit that no shifted register has.
    rw [UInt32.xor_eq_zero_iff] at vanishes
    rw [vanishes] at half
    have size : generator.toNat = 0xEDB88320 := rfl
    omega
  · rename_i even
    rw [vanishes] at half
    rw [and_one_eq_one_iff] at even
    rw [← UInt32.toNat_inj]
    have zero : (0 : UInt32).toNat = 0 := rfl
    omega

theorem shiftRegister_injective : Function.Injective shiftRegister := by
  intro first second same
  rw [← UInt32.xor_eq_zero_iff]
  apply eq_zero_of_shiftRegister
  rw [shiftRegister_xor, same, UInt32.xor_self]

theorem iterate_shiftRegister_xor (count : Nat) (first second : UInt32) :
    shiftRegister^[count] (first ^^^ second) =
      shiftRegister^[count] first ^^^ shiftRegister^[count] second := by
  induction count generalizing first second with
  | zero => rfl
  | succ count ih => rw [Function.iterate_succ_apply, shiftRegister_xor, ih]; rfl

theorem shiftRegister_double {value : Nat} (fits : 2 * value < 2 ^ 32) :
    shiftRegister (UInt32.ofNat (2 * value)) = UInt32.ofNat value := by
  have even : ¬ UInt32.ofNat (2 * value) &&& 1 = 1 := by
    rw [and_one_eq_one_iff, UInt32.toNat_ofNat_of_lt' fits]
    omega
  have half : value < 2 ^ 32 := by omega
  rw [shiftRegister, if_neg even, ← UInt32.toNat_inj, UInt32.toNat_shiftRight,
    UInt32.toNat_ofNat_of_lt' fits, UInt32.toNat_ofNat_of_lt' half]
  exact Nat.mul_div_cancel_left value Nat.zero_lt_two

/-- No bit falls out of a number whose lowest bits are clear. -/
theorem iterate_shiftRegister_scaled {count value : Nat} (fits : 2 ^ count * value < 2 ^ 32) :
    shiftRegister^[count] (UInt32.ofNat (2 ^ count * value)) = UInt32.ofNat value := by
  induction count with
  | zero => simp
  | succ count ih =>
      rw [Nat.pow_succ', Nat.mul_assoc] at fits ⊢
      rw [Function.iterate_succ_apply, shiftRegister_double fits, ih (by omega)]

/-! ## Bytes -/

theorem takeByte_eq (register : UInt32) (byte : UInt8) :
    takeByte register byte = shiftRegister^[8] (register ^^^ byte.toUInt32) :=
  rfl

/-- Different registers stay different. -/
theorem takeBytes_injective (bytes : List UInt8) :
    Function.Injective fun register => takeBytes register bytes := by
  induction bytes with
  | nil => exact Function.injective_id
  | cons byte rest ih =>
      intro first second same
      have firstByte : takeByte first byte = takeByte second byte := ih same
      rw [takeByte_eq, takeByte_eq] at firstByte
      exact (UInt32.xor_left_inj _).mp (shiftRegister_injective.iterate 8 firstByte)

/-- A byte and the bytes above it do not share a bit. -/
theorem ofNat_wordValue_cons (byte : UInt8) (rest : List UInt8) :
    UInt32.ofNat (wordValue (byte :: rest)) =
      byte.toUInt32 ^^^ UInt32.ofNat (2 ^ 8 * wordValue rest) := by
  have apart : byte.toNat ^^^ 2 ^ 8 * wordValue rest = 2 ^ 8 * wordValue rest + byte.toNat := by
    apply Nat.eq_of_testBit_eq
    intro bit
    rw [Nat.testBit_xor, Nat.testBit_two_pow_mul, Nat.testBit_two_pow_mul_add _ byte.toNat_lt]
    by_cases low : bit < 8
    · simp [low, Nat.not_le.mpr low]
    · have clear : byte.toNat.testBit bit = false :=
        Nat.testBit_lt_two_pow (Nat.lt_of_lt_of_le byte.toNat_lt
          (Nat.pow_le_pow_right Nat.zero_lt_two (Nat.le_of_not_lt low)))
      simp [low, clear, Nat.le_of_not_lt low]
  rw [wordValue, Nat.add_comm, show 256 = 2 ^ 8 from rfl, ← apart, UInt32.ofNat_xor]
  congr 1
  exact UInt32.toNat_inj.mp (by simp)

theorem wordRange_eq_pow (width : Nat) : wordRange width = 256 ^ width := by
  induction width with
  | zero => rfl
  | succ width ih => rw [wordRange, ih, Nat.pow_succ']

/-- Taking in a few bytes adds their word to the register and shifts it. -/
theorem takeBytes_eq {bytes : List UInt8} (few : bytes.length ≤ 4) (register : UInt32) :
    takeBytes register bytes =
      shiftRegister^[8 * bytes.length] (register ^^^ UInt32.ofNat (wordValue bytes)) := by
  induction bytes generalizing register with
  | nil => exact (UInt32.xor_zero).symm
  | cons byte rest ih =>
      rw [List.length_cons] at few
      have fits : 2 ^ 8 * wordValue rest < 2 ^ 32 :=
        calc
          2 ^ 8 * wordValue rest < 256 * wordRange rest.length :=
            Nat.mul_lt_mul_of_pos_left (wordValue_lt rest) (by decide)
          _ = 256 ^ (rest.length + 1) := by rw [wordRange_eq_pow, Nat.pow_succ']
          _ ≤ 256 ^ 4 := Nat.pow_le_pow_right (by decide) few
          _ = 2 ^ 32 := rfl
      change takeBytes (takeByte register byte) rest = _
      rw [ih (by omega), takeByte_eq, ofNat_wordValue_cons, List.length_cons, Nat.mul_succ,
        Function.iterate_add_apply, ← UInt32.xor_assoc, iterate_shiftRegister_xor 8 (_ ^^^ _),
        iterate_shiftRegister_scaled fits]

/-- Bytes of one length that are different words lead to different registers. -/
theorem eq_of_takeBytes_eq {first second : List UInt8} (sameLength : first.length = second.length)
    (few : first.length ≤ 4) {register : UInt32}
    (same : takeBytes register first = takeBytes register second) : first = second := by
  rw [takeBytes_eq few, takeBytes_eq (sameLength ▸ few), ← sameLength] at same
  have words := (UInt32.xor_right_inj _).mp (shiftRegister_injective.iterate _ same)
  have fits : ∀ bytes : List UInt8, bytes.length ≤ 4 → wordValue bytes < 2 ^ 32 := by
    intro bytes short
    apply Nat.lt_of_lt_of_le (wordValue_lt bytes)
    rw [wordRange_eq_pow]
    exact Nat.pow_le_pow_right (by decide) short
  have values : wordValue first = wordValue second := by
    have numbers := congrArg UInt32.toNat words
    rwa [UInt32.toNat_ofNat_of_lt' (fits first few),
      UInt32.toNat_ofNat_of_lt' (fits second (sameLength ▸ few))] at numbers
  rw [← wordBytes_wordValue first, ← wordBytes_wordValue second, sameLength, values]

/-- A change of at most four bytes in a row shows in the checksum. -/
theorem checksum_ne {first second : List UInt8} (sameLength : first.length = second.length)
    (few : first.length ≤ 4) (differ : first ≠ second) (before after : List UInt8) :
    checksum (before ++ first ++ after) ≠ checksum (before ++ second ++ after) := by
  intro same
  have registers := (UInt32.xor_left_inj _).mp same
  rw [takeBytes_append, takeBytes_append, takeBytes_append, takeBytes_append] at registers
  exact differ (eq_of_takeBytes_eq sameLength few (takeBytes_injective after registers))

end SeriesStore.Sidecar
