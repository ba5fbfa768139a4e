import Mathlib.Data.List.Induction
import Mathlib.Data.List.Sort
import SeriesStore.Proofs.Partition.Consistent

/-!
# Filling a partition

Files that come in together can come in one part after the other.  Each goes to the list
of its space: unsequence files stay in the order in which they come, and sequence files are
sorted by their keys.

Placing one sequence file after the other sorts them as a stable sort of all of them does
(`sortByKey`), since placing a last file and inserting a first one do not depend on their
order, also not when keys are equal.
-/

namespace SeriesStore.Partition

variable {partition : Partition} {files others : List DataFile}

theorem insertAll_append (partition : Partition) (files others : List DataFile) :
    partition.insertAll (files ++ others) = (partition.insertAll files).insertAll others :=
  List.foldl_append

/-- Files are fresh together when the first are and leave the others fresh. -/
theorem fresh_append_iff :
    partition.Fresh (files ++ others) ↔
      partition.Fresh files ∧ (partition.insertAll files).Fresh others := by
  constructor
  · intro fresh
    induction files generalizing partition with
    | nil => exact ⟨⟨by simp, by simp, by simp⟩, fresh⟩
    | cons file rest ih =>
        rcases (fresh_cons_iff _ _ _).mp fresh with ⟨valid, free, tail⟩
        rcases ih tail with ⟨first, second⟩
        exact ⟨(fresh_cons_iff _ _ _).mpr ⟨valid, free, first⟩, second⟩
  · rintro ⟨first, second⟩
    exact first.append second

/-- Coming in together is coming in one part after the other. -/
theorem gains_append_iff {gained : Partition} :
    Gains partition gained (files ++ others) ↔
      ∃ middle, Gains partition middle files ∧ Gains middle gained others := by
  constructor
  · rintro ⟨fresh, rfl⟩
    rcases fresh_append_iff.mp fresh with ⟨first, second⟩
    exact ⟨_, ⟨first, rfl⟩, second, insertAll_append _ _ _⟩
  · rintro ⟨middle, first, second⟩
    exact first.append second

/-! ## The two lists -/

/-- The files of one space. -/
abbrev ofSpace (space : Space) (files : List DataFile) : List DataFile :=
  files.filter fun file => file.space = space

theorem sequence_insertAll_perm (partition : Partition) (files : List DataFile) :
    (partition.insertAll files).sequence.Perm
      (partition.sequence ++ ofSpace .sequence files) := by
  induction files generalizing partition with
  | nil => simp [insertAll]
  | cons file rest ih =>
      change ((partition.insert file).insertAll rest).sequence.Perm _
      apply (ih _).trans
      cases space : file.space with
      | sequence =>
          rw [insert_of_sequence space, ofSpace, ofSpace,
            List.filter_cons_of_pos (by simpa using space)]
          exact ((placeByKey_perm file _).append_right _).trans List.perm_middle.symm
      | unsequence =>
          rw [insert_of_unsequence space, ofSpace, ofSpace,
            List.filter_cons_of_neg (by simp [space])]

theorem unsequence_insertAll (partition : Partition) (files : List DataFile) :
    (partition.insertAll files).unsequence =
      partition.unsequence ++ ofSpace .unsequence files := by
  induction files generalizing partition with
  | nil => simp [insertAll]
  | cons file rest ih =>
      change ((partition.insert file).insertAll rest).unsequence = _
      rw [ih]
      cases space : file.space with
      | sequence =>
          rw [insert_of_sequence space, ofSpace, ofSpace,
            List.filter_cons_of_neg (by simp [space])]
      | unsequence =>
          rw [insert_of_unsequence space, ofSpace, ofSpace,
            List.filter_cons_of_pos (by simpa using space), List.append_assoc]
          rfl

/-! ## Sorting by key -/

/-- Whether the keys of two files do not fall. -/
def InKeyOrder (first second : DataFile) : Prop :=
  first.orderingKey ≤ second.orderingKey

instance : DecidableRel InKeyOrder :=
  fun first second => inferInstanceAs (Decidable (first.orderingKey ≤ second.orderingKey))

/-- Sorts files by their keys; files of one key keep their order. -/
def sortByKey (files : List DataFile) : List DataFile :=
  files.mergeSort fun first second => decide (InKeyOrder first second)

theorem inKeyOrder_trans {first second third : DataFile} (low : InKeyOrder first second)
    (high : InKeyOrder second third) : InKeyOrder first third :=
  UInt64.le_trans low high

theorem inKeyOrder_total (first second : DataFile) :
    InKeyOrder first second ∨ InKeyOrder second first :=
  UInt64.le_total _ _

instance : IsTrans DataFile InKeyOrder :=
  ⟨fun _ _ _ => inKeyOrder_trans⟩

instance : Std.Total InKeyOrder :=
  ⟨inKeyOrder_total⟩

theorem sortByKey_perm (files : List DataFile) : (sortByKey files).Perm files :=
  List.mergeSort_perm _ _

theorem pairwise_sortByKey (files : List DataFile) : (sortByKey files).Pairwise InKeyOrder :=
  List.pairwise_mergeSort' InKeyOrder files

theorem sortByKey_of_pairwise (sorted : files.Pairwise InKeyOrder) : sortByKey files = files :=
  List.mergeSort_of_pairwise (sorted.imp decide_eq_true)

/-- A file that comes before others goes in front of those whose keys are not smaller. -/
theorem sortByKey_cons (file : DataFile) (files : List DataFile) :
    sortByKey (file :: files) = (sortByKey files).orderedInsert InKeyOrder file := by
  have trans : ∀ first second third : DataFile, decide (InKeyOrder first second) = true →
      decide (InKeyOrder second third) = true → decide (InKeyOrder first third) = true :=
    fun _ _ _ low high =>
      decide_eq_true (inKeyOrder_trans (of_decide_eq_true low) (of_decide_eq_true high))
  have total : ∀ first second : DataFile,
      (decide (InKeyOrder first second) || decide (InKeyOrder second first)) = true := by
    intro first second
    rw [Bool.or_eq_true, decide_eq_true_iff, decide_eq_true_iff]
    exact inKeyOrder_total first second
  rcases List.mergeSort_cons trans total file files with ⟨smaller, others, whole, rest, apart⟩
  have sorted := pairwise_sortByKey (file :: files)
  rw [sortByKey, whole, List.pairwise_append, List.pairwise_cons] at sorted
  have passed : ∀ other ∈ smaller, decide (¬ InKeyOrder file other) = true := by
    intro other member
    rw [decide_not]
    exact apart other member
  rw [sortByKey, whole, sortByKey, rest, List.orderedInsert_eq_take_drop,
    List.takeWhile_append_of_pos passed, List.dropWhile_append_of_pos passed]
  cases others with
  | nil => simp
  | cons next more =>
      have behind : InKeyOrder file next := sorted.2.1.1 next List.mem_cons_self
      simp [behind]

theorem placeByKey_cons (file first : DataFile) (files : List DataFile) :
    placeByKey file (first :: files) =
      if InKeyOrder first file then first :: placeByKey file files else file :: first :: files := by
  by_cases passed : first.orderingKey ≤ file.orderingKey
  · simp [placeByKey, InKeyOrder, passed]
  · simp [placeByKey, InKeyOrder, passed]

/-- Placing a file and inserting another one in front of all of its key do not depend on
their order. -/
theorem placeByKey_orderedInsert (file first : DataFile) (files : List DataFile) :
    placeByKey file (files.orderedInsert InKeyOrder first) =
      (placeByKey file files).orderedInsert InKeyOrder first := by
  induction files with
  | nil =>
      change placeByKey file [first] = [file].orderedInsert InKeyOrder first
      rw [placeByKey_cons, List.orderedInsert_cons]
      rfl
  | cons next rest ih =>
      rw [List.orderedInsert_cons, placeByKey_cons file next]
      by_cases ahead : InKeyOrder first next
      · rw [if_pos ahead, placeByKey_cons, placeByKey_cons]
        by_cases passed : InKeyOrder next file
        · rw [if_pos passed, if_pos (inKeyOrder_trans ahead passed), List.orderedInsert_cons,
            if_pos ahead]
        · rw [if_neg passed, List.orderedInsert_cons, List.orderedInsert_cons, if_pos ahead]
      · rw [if_neg ahead, placeByKey_cons, ih]
        by_cases passed : InKeyOrder next file
        · rw [if_pos passed, if_pos passed, List.orderedInsert_cons, if_neg ahead]
        · have low : InKeyOrder next first := (inKeyOrder_total next first).resolve_right ahead
          have apart : ¬ InKeyOrder first file := fun high => passed (inKeyOrder_trans low high)
          rw [if_neg passed, if_neg passed, List.orderedInsert_cons, if_neg apart,
            List.orderedInsert_cons, if_neg ahead]

/-- Placing a file in sorted ones sorts it behind them. -/
theorem placeByKey_sortByKey (file : DataFile) (files : List DataFile) :
    placeByKey file (sortByKey files) = sortByKey (files ++ [file]) := by
  induction files with
  | nil =>
      rw [List.nil_append, sortByKey_of_pairwise .nil, sortByKey_of_pairwise (List.pairwise_singleton _ _)]
      rfl
  | cons first rest ih =>
      rw [sortByKey_cons, placeByKey_orderedInsert, ih, List.cons_append, sortByKey_cons]

/-- Files that come in are sorted behind those of the list that have the same key. -/
theorem sequence_insertAll_eq_sortByKey (partition : Partition) (files : List DataFile)
    (sorted : partition.sequence.Pairwise InKeyOrder) :
    (partition.insertAll files).sequence =
      sortByKey (partition.sequence ++ ofSpace .sequence files) := by
  induction files using List.reverseRecOn with
  | nil =>
      rw [ofSpace, List.filter_nil, List.append_nil, sortByKey_of_pairwise sorted]
      rfl
  | append_singleton before file ih =>
      rw [insertAll_append, ofSpace, List.filter_append, ← List.append_assoc]
      change ((partition.insertAll before).insert file).sequence = _
      cases space : file.space with
      | sequence =>
          rw [insert_of_sequence space, List.filter_cons_of_pos (by simpa using space),
            List.filter_nil, ← placeByKey_sortByKey, ← ih]
      | unsequence =>
          rw [insert_of_unsequence space, List.filter_cons_of_neg (by simp [space]),
            List.filter_nil, List.append_nil, ← ih]

/-- Sequence files that come in by rising keys stay in that order. -/
theorem sequence_insertAll (partition : Partition) (files : List DataFile)
    (sorted : (partition.sequence ++ ofSpace .sequence files).Pairwise fun first second =>
      first.orderingKey ≤ second.orderingKey) :
    (partition.insertAll files).sequence = partition.sequence ++ ofSpace .sequence files := by
  rw [sequence_insertAll_eq_sortByKey partition files (List.pairwise_append.mp sorted).1]
  exact sortByKey_of_pairwise sorted

end SeriesStore.Partition
