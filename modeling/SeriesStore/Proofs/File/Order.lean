import Mathlib.Data.List.Nodup
import SeriesStore.File.Basic

/-!
# The strict order of files

Files are sorted by ordering key and then by number.  Sorting files of different
numbers leaves no ties, so the result is strictly increasing.
-/

namespace SeriesStore.DataFile

/-- Whether a file stands before another one by ordering key and then by number. -/
def SortsBefore (first second : DataFile) : Prop :=
  first.orderingKey < second.orderingKey ∨
    (first.orderingKey = second.orderingKey ∧ first.id < second.id)

instance (first second : DataFile) : Decidable (first.SortsBefore second) :=
  inferInstanceAs (Decidable (_ ∨ _))

theorem sortsBefore_iff (first second : DataFile) :
    first.SortsBefore second ↔
      first.orderingKey.toNat < second.orderingKey.toNat ∨
        (first.orderingKey.toNat = second.orderingKey.toNat ∧
          first.id.toNat < second.id.toNat) := by
  simp only [SortsBefore, UInt64.lt_iff_toNat_lt, UInt64.toNat_inj]

theorem SortsBefore.asymm {first second : DataFile} (before : first.SortsBefore second) :
    ¬ second.SortsBefore first := by
  rw [sortsBefore_iff] at before ⊢
  omega

theorem SortsBefore.orderingKey_le {first second : DataFile} (before : first.SortsBefore second) :
    first.orderingKey ≤ second.orderingKey := by
  rw [sortsBefore_iff] at before
  rw [UInt64.le_iff_toNat_le]
  omega

/-- Of two files with different numbers one stands before the other. -/
theorem sortsBefore_or_of_id_ne {first second : DataFile} (ne : first.id ≠ second.id) :
    first.SortsBefore second ∨ second.SortsBefore first := by
  have numbers : first.id.toNat ≠ second.id.toNat := fun same => ne (UInt64.toNat_inj.mp same)
  rw [sortsBefore_iff, sortsBefore_iff]
  omega

theorem sortsBefore_of_comesFirst {first second : DataFile} (low : first.comesFirst second)
    (ne : first.id ≠ second.id) : first.SortsBefore second := by
  have numbers : first.id.toNat ≠ second.id.toNat := fun same => ne (UInt64.toNat_inj.mp same)
  rw [comesFirst_iff] at low
  rw [sortsBefore_iff]
  omega

theorem SortsBefore.comesFirst {first second : DataFile} (before : first.SortsBefore second) :
    first.comesFirst second := by
  rw [sortsBefore_iff] at before
  rw [comesFirst_iff]
  omega

/-- Sorted files of different numbers increase strictly. -/
theorem pairwise_sortsBefore_mergeSort {files : List DataFile}
    (distinct : (files.map DataFile.id).Nodup) :
    (files.mergeSort comesFirst).Pairwise SortsBefore := by
  have sorted : (files.mergeSort comesFirst).Pairwise fun first second =>
      first.comesFirst second := by
    apply List.pairwise_mergeSort
    · intro first second third low high
      exact comesFirst_trans low high
    · exact comesFirst_total
  have different : (files.mergeSort comesFirst).Pairwise fun first second =>
      first.id ≠ second.id := by
    rw [← List.pairwise_map]
    exact ((List.mergeSort_perm files comesFirst).map DataFile.id).symm.nodup distinct
  exact (sorted.and different).imp fun both => sortsBefore_of_comesFirst both.1 both.2

/-- Files that increase strictly are determined by which files they are. -/
theorem eq_of_increasing {first second : List DataFile} (firstOrder : first.Pairwise SortsBefore)
    (secondOrder : second.Pairwise SortsBefore) (same : ∀ file, file ∈ first ↔ file ∈ second) :
    first = second := by
  have nodup : ∀ {files : List DataFile}, files.Pairwise SortsBefore → files.Nodup := by
    intro files order
    apply order.imp
    rintro file _ before rfl
    exact before.asymm before
  have perm : first.Perm second :=
    (List.perm_ext_iff_of_nodup (nodup firstOrder) (nodup secondOrder)).mpr same
  apply perm.eq_of_pairwise _ firstOrder secondOrder
  intro file other _ _ before after
  exact absurd after before.asymm

/-- Files that increase strictly are the sorted ones of any list with the same files. -/
theorem eq_mergeSort {files increasing : List DataFile}
    (order : increasing.Pairwise SortsBefore) (distinct : (files.map DataFile.id).Nodup)
    (same : ∀ file, file ∈ increasing ↔ file ∈ files) :
    increasing = files.mergeSort comesFirst :=
  eq_of_increasing order (pairwise_sortsBefore_mergeSort distinct)
    fun file => (same file).trans List.mem_mergeSort.symm

/-- Sorting leaves the numbers in place exactly when the files increase strictly. -/
theorem map_id_mergeSort_eq_iff {files : List DataFile}
    (distinct : (files.map DataFile.id).Nodup) :
    (files.mergeSort comesFirst).map DataFile.id = files.map DataFile.id ↔
      files.Pairwise SortsBefore := by
  constructor
  · intro same
    have files_eq : files.mergeSort comesFirst = files := by
      apply List.ext_getElem (List.length_mergeSort files)
      intro index inSorted inFiles
      have sorted : (files.mergeSort comesFirst)[index] ∈ files :=
        (List.mergeSort_perm files comesFirst).mem_iff.mp (List.getElem_mem inSorted)
      apply List.inj_on_of_nodup_map distinct sorted (List.getElem_mem inFiles)
      simpa [inSorted, inFiles] using congrArg (fun ids => ids[index]?) same
    rw [← files_eq]
    exact pairwise_sortsBefore_mergeSort distinct
  · intro increasing
    rw [List.mergeSort_of_pairwise (increasing.imp SortsBefore.comesFirst)]

end SeriesStore.DataFile
