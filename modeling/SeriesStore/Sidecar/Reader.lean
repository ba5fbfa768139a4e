import SeriesStore.Error
import SeriesStore.Sidecar.Word

/-!
# Reading bytes in order

A reader consumes a list of bytes from the front and keeps count of what it has
consumed, so that a list that ends early is reported with the offset at which
the missing piece would have started.
-/

namespace SeriesStore.Sidecar

/-- The bytes still to be read and the number of those already read. -/
structure Cursor where
  offset : Nat
  rest : List UInt8
deriving DecidableEq

/-- A step that consumes bytes and may fail. -/
abbrev Reader := StateT Cursor (Except Error)

/-- Splits off exactly `count` bytes. -/
def splitExactly : (count : Nat) → List UInt8 → Option (List UInt8 × List UInt8)
  | 0, rest => some ([], rest)
  | _ + 1, [] => none
  | count + 1, byte :: rest =>
      match splitExactly count rest with
      | none => none
      | some (taken, rest) => some (byte :: taken, rest)

theorem splitExactly_eq_some_iff (count : Nat) (bytes taken rest : List UInt8) :
    splitExactly count bytes = some (taken, rest) ↔
      bytes = taken ++ rest ∧ taken.length = count := by
  induction count generalizing bytes taken with
  | zero =>
      simp only [splitExactly, Option.some.injEq, Prod.mk.injEq, List.length_eq_zero_iff]
      constructor
      · rintro ⟨rfl, rfl⟩
        exact ⟨rfl, rfl⟩
      · rintro ⟨rfl, rfl⟩
        exact ⟨rfl, rfl⟩
  | succ count ih =>
      cases bytes with
      | nil =>
          simp only [splitExactly, reduceCtorEq, false_iff, not_and]
          intro nil_eq length_eq
          have taken_nil := (List.append_eq_nil_iff.mp nil_eq.symm).1
          rw [taken_nil] at length_eq
          contradiction
      | cons byte others =>
          simp only [splitExactly]
          split
          · rename_i short
            simp only [reduceCtorEq, false_iff, not_and]
            intro split_eq length_eq
            cases taken with
            | nil => contradiction
            | cons first taken =>
                obtain ⟨_, others_eq⟩ := List.cons.inj split_eq
                have found := (ih others taken).mpr ⟨others_eq, Nat.succ.inj length_eq⟩
                rw [short] at found
                contradiction
          · rename_i front back found
            simp only [Option.some.injEq, Prod.mk.injEq]
            constructor
            · rintro ⟨rfl, rfl⟩
              obtain ⟨others_eq, length_eq⟩ := (ih others front).mp found
              exact ⟨by rw [others_eq]; rfl, by rw [List.length_cons, length_eq]⟩
            · rintro ⟨split_eq, length_eq⟩
              cases taken with
              | nil => contradiction
              | cons first taken =>
                  obtain ⟨first_eq, others_eq⟩ := List.cons.inj split_eq
                  have again := (ih others taken).mpr ⟨others_eq, Nat.succ.inj length_eq⟩
                  rw [found] at again
                  cases again
                  exact ⟨by rw [first_eq], rfl⟩

namespace Reader

/-- Reads exactly `count` bytes. -/
def bytes (count : Nat) : Reader (List UInt8) := fun cursor =>
  match splitExactly count cursor.rest with
  | none => .error (.damaged (.endsEarly cursor.offset))
  | some (taken, rest) => .ok (taken, ⟨cursor.offset + count, rest⟩)

/-- Reads a word of `width` bytes. -/
def word (width : Nat) : Reader Nat := do
  return wordValue (← bytes width)

/-- Reads one byte. -/
def byte : Reader UInt8 := do
  return UInt8.ofNat (← word 1)

/-- Reads a signed 64-bit word. -/
def timestamp : Reader Timestamp := do
  return (UInt64.ofNat (← word 8)).toInt64

/-- Runs a reader as often as told and lists what it reads. -/
def repeated {α : Type} (item : Reader α) : (count : Nat) → Reader (List α)
  | 0 => return []
  | count + 1 => do
      let first ← item
      let others ← repeated item count
      return first :: others

/-- Reads nothing, and refuses bytes that are left over. -/
def atEnd : Reader Unit := do
  let cursor ← get
  if cursor.rest ≠ [] then
    throw (.damaged (.trailingBytes cursor.rest.length))

/-- Bytes at the front are read, and what follows them is left. -/
theorem bytes_append (offset : Nat) (taken rest : List UInt8) :
    bytes taken.length ⟨offset, taken ++ rest⟩ = .ok (taken, ⟨offset + taken.length, rest⟩) := by
  unfold bytes
  rw [(splitExactly_eq_some_iff _ _ _ _).mpr ⟨rfl, rfl⟩]

/-- A word at the front is read, and what follows it is left. -/
theorem word_append (offset width value : Nat) (rest : List UInt8) :
    word width ⟨offset, wordBytes width value ++ rest⟩ =
      .ok (value % wordRange width, ⟨offset + width, rest⟩) := by
  have read := bytes_append offset (wordBytes width value) rest
  rw [length_wordBytes] at read
  show (bytes width >>= fun taken => pure (wordValue taken)) ⟨offset, _⟩ = _
  simp only [bind, StateT.bind, read, Except.bind, wordValue_wordBytes]
  rfl

/-- What a reader of bytes returns stood at the front of what it was given. -/
theorem bytes_eq_ok_iff (count : Nat) (before after : Cursor) (taken : List UInt8) :
    bytes count before = .ok (taken, after) ↔
      before.rest = taken ++ after.rest ∧ taken.length = count ∧
        after.offset = before.offset + count := by
  unfold bytes
  cases found : splitExactly count before.rest with
  | none =>
      simp only [reduceCtorEq, false_iff, not_and]
      intro rest_eq length_eq
      rw [(splitExactly_eq_some_iff _ _ _ _).mpr ⟨rest_eq, length_eq⟩] at found
      contradiction
  | some pair =>
      obtain ⟨front, back⟩ := pair
      obtain ⟨rest_eq, length_eq⟩ := (splitExactly_eq_some_iff _ _ _ _).mp found
      obtain ⟨offset, rest⟩ := after
      simp only [Except.ok.injEq, Prod.mk.injEq, Cursor.mk.injEq]
      constructor
      · rintro ⟨rfl, rfl, rfl⟩
        exact ⟨rest_eq, length_eq, rfl⟩
      · rintro ⟨split_eq, count_eq, rfl⟩
        have same := (splitExactly_eq_some_iff _ _ _ _).mpr ⟨split_eq, count_eq⟩
        rw [found] at same
        cases same
        exact ⟨rfl, rfl, rfl⟩

end Reader

end SeriesStore.Sidecar
