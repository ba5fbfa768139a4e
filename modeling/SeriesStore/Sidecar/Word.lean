/-!
# Little-endian words

Numbers stand in a sidecar with their lowest byte first, in a fixed count of
bytes.  Writing keeps the number modulo the range of its width, and reading
back what was written gives that remainder.
-/

namespace SeriesStore.Sidecar

/-- The lowest `width` bytes of a number, lowest first. -/
def wordBytes : (width : Nat) → Nat → List UInt8
  | 0, _ => []
  | width + 1, value => UInt8.ofNat value :: wordBytes width (value / 256)

/-- The number whose bytes are listed lowest first. -/
def wordValue : List UInt8 → Nat
  | [] => 0
  | byte :: rest => byte.toNat + 256 * wordValue rest

/-- How many numbers there are of a width. -/
def wordRange : (width : Nat) → Nat
  | 0 => 1
  | width + 1 => 256 * wordRange width

@[simp]
theorem length_wordBytes (width value : Nat) : (wordBytes width value).length = width := by
  induction width generalizing value with
  | zero => rfl
  | succ width ih => simp [wordBytes, ih]

theorem wordValue_lt (bytes : List UInt8) : wordValue bytes < wordRange bytes.length := by
  induction bytes with
  | nil => exact Nat.zero_lt_one
  | cons byte rest ih =>
      have bound := byte.toNat_lt
      simp only [wordValue, List.length_cons, wordRange]
      omega

/-- Reading gives the written number modulo the range of the width. -/
theorem wordValue_wordBytes (width value : Nat) :
    wordValue (wordBytes width value) = value % wordRange width := by
  induction width generalizing value with
  | zero => exact (Nat.mod_one value).symm
  | succ width ih =>
      rw [wordBytes, wordValue, ih, UInt8.toNat_ofNat', wordRange, Nat.mod_mul]

/-- A number below the range of the width comes back as it is. -/
theorem wordValue_wordBytes_of_lt {width value : Nat} (fits : value < wordRange width) :
    wordValue (wordBytes width value) = value := by
  rw [wordValue_wordBytes, Nat.mod_eq_of_lt fits]

/-- Writing in its own width what was read gives the bytes back. -/
theorem wordBytes_wordValue (bytes : List UInt8) :
    wordBytes bytes.length (wordValue bytes) = bytes := by
  induction bytes with
  | nil => rfl
  | cons byte rest ih =>
      have bound := byte.toNat_lt
      have high : (byte.toNat + 256 * wordValue rest) / 256 = wordValue rest := by omega
      have low : UInt8.ofNat (byte.toNat + 256 * wordValue rest) = byte := by
        apply UInt8.toNat_inj.mp
        rw [UInt8.toNat_ofNat']
        omega
      rw [wordValue, List.length_cons, wordBytes, high, low, ih]

end SeriesStore.Sidecar
