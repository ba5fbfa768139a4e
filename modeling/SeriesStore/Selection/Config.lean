import SeriesStore.File.Basic

/-!
# The budget of a selection

The budget bounds every candidate on its own, by the number and the total size
of its files, and the number of candidates of one run.  Two filters look at
unsequence files alone: one below the least level stops the scan, one whose
data has outlived its time is passed over.
-/

namespace SeriesStore.Selection

/-- The limits and filters of a selection. -/
structure Config where
  /-- The most files that one candidate may have. -/
  maxFiles : Nat := 500
  /-- The most bytes that the files of one candidate may have together. -/
  maxSize : UInt64 := 5368709120
  /-- The most candidates of one run. -/
  maxCandidates : Nat := 4
  /-- The least inner level of an unsequence file. -/
  minLevel : UInt32 := 0
  /-- The time before which data has expired. -/
  expiry? : Option Timestamp := none
  /-- How many partitions a round looks at side by side; zero counts as one. -/
  threads : Nat := 8
deriving DecidableEq

namespace Config

/-- Whether the scan goes on at an unsequence file. -/
def admits (config : Config) (late : DataFile) : Bool :=
  late.isSelectable && config.minLevel ≤ late.innerLevel

/-- Whether the scan passes over an unsequence file because it has expired. -/
def passesOver (config : Config) (late : DataFile) : Bool :=
  match config.expiry? with
  | none => false
  | some bound => late.isExpired bound

end Config

/-- A sum of sizes that stays at the largest size instead of overflowing. -/
def addCapped (first second : UInt64) : UInt64 :=
  if first.toNat + second.toNat < UInt64.size then
    first + second
  else
    UInt64.ofNat (UInt64.size - 1)

/-- A capped sum is the exact sum or the largest size, whichever is less. -/
theorem toNat_addCapped (first second : UInt64) :
    (addCapped first second).toNat = min (first.toNat + second.toNat) (UInt64.size - 1) := by
  unfold addCapped
  split
  · rename_i fits
    rw [UInt64.toNat_add, Nat.mod_eq_of_lt fits]
    omega
  · rename_i overflows
    rw [UInt64.toNat_ofNat', Nat.mod_eq_of_lt (by decide)]
    omega

end SeriesStore.Selection
