import SeriesStore.Proofs.Selection.Run
import SeriesStore.Proofs.Selection.Target

/-!
# What a draft holds

Every fact about a filled draft is proved along the commits that filled it.  The
sequence files in it are exactly the targets of its unsequence files, each once
and available, and its size is the capped sum of the sizes of all its files,
which never leaves the budget.
-/

namespace SeriesStore.Selection

/-- A closed file that is in none of the candidates before. -/
def Available (earlier : List Candidate) (file : DataFile) : Prop :=
  file.status = .closed ∧ ∀ candidate ∈ earlier, file.id ∉ candidate.ids

theorem isAvailable_iff (earlier : List Candidate) (file : DataFile) :
    isAvailable earlier file = true ↔ Available earlier file := by
  simp [isAvailable, Available, DataFile.isSelectable, Status.isSelectable, Candidate.contains,
    Candidate.ids]

theorem Available.of_append {earlier others : List Candidate} {file : DataFile}
    (available : Available (earlier ++ others) file) : Available earlier file :=
  ⟨available.1, fun candidate made => available.2 candidate (List.mem_append_left _ made)⟩

/-- The exact sum of the sizes of files. -/
def totalSize : List DataFile → Nat
  | [] => 0
  | file :: rest => file.size.toNat + totalSize rest

theorem totalSize_append (first second : List DataFile) :
    totalSize (first ++ second) = totalSize first + totalSize second := by
  induction first with
  | nil => exact (Nat.zero_add _).symm
  | cons file rest ih =>
      rw [List.cons_append, totalSize, totalSize, ih, Nat.add_assoc]

theorem totalSize_perm {first second : List DataFile} (same : first.Perm second) :
    totalSize first = totalSize second := by
  induction same with
  | nil => rfl
  | cons file _ ih => rw [totalSize, totalSize, ih]
  | swap file other rest =>
      simp only [totalSize]
      omega
  | trans _ _ firstEq secondEq => exact firstEq.trans secondEq

namespace Draft

variable {config : Config} {sequence : List DataFile} {done : List Candidate} {draft : Draft}

@[simp]
theorem commit_sequence (late : DataFile) (added : List DataFile) :
    (draft.commit late added).sequence = draft.sequence ++ added := rfl

@[simp]
theorem commit_unsequence (late : DataFile) (added : List DataFile) :
    (draft.commit late added).unsequence = draft.unsequence ++ [late] := rfl

theorem mem_missing (targets : List DataFile) (file : DataFile) :
    file ∈ draft.missing targets ↔
      file ∈ targets ∧ ∀ other ∈ draft.sequence, other.id ≠ file.id := by
  simp [missing]

/-- Capping at every step is capping once at the end. -/
theorem toNat_foldl_addCapped (start : UInt64) (files : List DataFile) :
    (files.foldl (fun size file => addCapped size file.size) start).toNat =
      min (start.toNat + totalSize files) (UInt64.size - 1) := by
  induction files generalizing start with
  | nil =>
      have bound := start.toNat_lt_size
      simp only [List.foldl_nil, totalSize]
      omega
  | cons file rest ih =>
      rw [List.foldl_cons, ih, toNat_addCapped]
      rw [totalSize]
      omega

theorem toNat_size_commit (late : DataFile) (added : List DataFile) :
    (draft.commit late added).size.toNat =
      min (draft.size.toNat + (late.size.toNat + totalSize added)) (UInt64.size - 1) := by
  change (addCapped draft.size (shareSize late added)).toNat = _
  rw [toNat_addCapped, shareSize, toNat_foldl_addCapped]
  omega

namespace Filled

variable (filled : draft.Filled config sequence done)

include filled

/-- Every unsequence file in a draft was found targets. -/
theorem exists_targets {late : DataFile} (member : late ∈ draft.unsequence) :
    ∃ own, fileTargets? (isAvailable done) sequence late = some own := by
  induction filled with
  | empty => contradiction
  | commit filled own_eq fits ih =>
      rcases List.mem_append.mp member with member | member
      · exact ih member
      · cases List.mem_singleton.mp member
        exact ⟨_, own_eq⟩

/-- A draft stays within the budget. -/
theorem within_budget : draft.count ≤ config.maxFiles ∧ draft.size ≤ config.maxSize := by
  cases filled with
  | empty => exact ⟨Nat.zero_le _, UInt64.zero_le⟩
  | commit filled own_eq fits =>
      rw [Draft.fits, Bool.and_eq_true, decide_eq_true_eq, decide_eq_true_eq] at fits
      constructor
      · have countFits := fits.1
        simp only [count, commit_sequence, commit_unsequence, List.length_append,
          List.length_singleton] at countFits ⊢
        omega
      · exact fits.2

theorem toNat_size :
    draft.size.toNat =
      min (totalSize (draft.sequence ++ draft.unsequence)) (UInt64.size - 1) := by
  induction filled with
  | empty => rfl
  | commit filled own_eq fits ih =>
      rw [toNat_size_commit, ih]
      simp only [commit_sequence, commit_unsequence, totalSize_append, totalSize]
      omega

/-- A draft is over the budget with one more unsequence file and the sequence files that it
adds when there are too many files or their capped sum is too large. -/
theorem fits_eq_false_iff (late : DataFile) (added : List DataFile) :
    draft.fits config late added = false ↔
      config.maxFiles < draft.count + (1 + added.length) ∨
        config.maxSize.toNat <
          min (totalSize (draft.sequence ++ draft.unsequence) +
            (late.size.toNat + totalSize added)) (UInt64.size - 1) := by
  rw [fits, Bool.and_eq_false_iff, decide_eq_false_iff_not, decide_eq_false_iff_not,
    UInt64.le_iff_toNat_le, toNat_addCapped, shareSize, toNat_foldl_addCapped, filled.toNat_size]
  omega

variable (distinct : (sequence.map DataFile.id).Nodup)

include distinct

theorem mem_sequence {file : DataFile} (member : file ∈ draft.sequence) :
    file ∈ sequence ∧ isAvailable done file = true := by
  induction filled with
  | empty => contradiction
  | commit filled own_eq fits ih =>
      rcases List.mem_append.mp member with member | member
      · exact ih member
      · exact mem_of_mem_fileTargets? distinct own_eq ((mem_missing _ _).mp member).1

/-- The sequence files in a draft are the targets of its unsequence files. -/
theorem mem_sequence_iff (file : DataFile) :
    file ∈ draft.sequence ↔ ∃ late ∈ draft.unsequence, ∃ own,
      fileTargets? (isAvailable done) sequence late = some own ∧ file ∈ own := by
  induction filled with
  | empty => simp [Draft.empty]
  | @commit draft late own filled own_eq fits ih =>
      simp only [commit_sequence, commit_unsequence, List.mem_append, List.mem_singleton]
      constructor
      · rintro (member | member)
        · rcases ih.mp member with ⟨other, otherMem, targets, targets_eq, inTargets⟩
          exact ⟨other, .inl otherMem, targets, targets_eq, inTargets⟩
        · exact ⟨late, .inr rfl, own, own_eq, ((mem_missing _ _).mp member).1⟩
      · rintro ⟨other, otherMem | rfl, targets, targets_eq, inTargets⟩
        · exact .inl (ih.mpr ⟨other, otherMem, targets, targets_eq, inTargets⟩)
        · -- A target that is not missing has its number, and so itself, in the draft.
          rw [own_eq, Option.some.injEq] at targets_eq
          subst targets_eq
          by_cases present : ∃ member ∈ draft.sequence, member.id = file.id
          · rcases present with ⟨member, memberMem, same⟩
            have memberListed := (filled.mem_sequence distinct memberMem).1
            have fileListed := (mem_of_mem_fileTargets? distinct own_eq inTargets).1
            have eq : member = file :=
              List.inj_on_of_nodup_map distinct memberListed fileListed same
            exact .inl (eq ▸ memberMem)
          · right
            rw [mem_missing]
            exact ⟨inTargets, fun member memberMem same => present ⟨member, memberMem, same⟩⟩

theorem sequence_distinct : (draft.sequence.map DataFile.id).Nodup := by
  induction filled with
  | empty => exact List.nodup_nil
  | @commit draft late own filled own_eq fits ih =>
      rw [commit_sequence, List.map_append, List.nodup_append]
      constructor
      · exact ih
      constructor
      · have sublist : (draft.missing own).Sublist sequence :=
          List.filter_sublist.trans (fileTargets?_sublist own_eq)
        exact (sublist.map DataFile.id).nodup distinct
      · rintro id inDraft _ inMissing rfl
        rcases List.mem_map.mp inDraft with ⟨member, memberMem, rfl⟩
        obtain ⟨added, addedMem, same⟩ := List.mem_map.mp inMissing
        exact ((mem_missing _ _).mp addedMem).2 member memberMem same.symm

end Filled

theorem freeze?_eq_some_iff (candidate : Candidate) :
    draft.freeze? = some candidate ↔
      draft.sequence ≠ [] ∧ draft.unsequence ≠ [] ∧
        candidate =
          ⟨draft.sequence.mergeSort DataFile.comesFirst, draft.unsequence, draft.size⟩ := by
  rw [freeze?]
  split
  · rename_i lacking
    rw [Bool.or_eq_true, List.isEmpty_iff, List.isEmpty_iff] at lacking
    simp only [reduceCtorEq, false_iff]
    rintro ⟨hasEarly, hasLate, _⟩
    exact lacking.elim hasEarly hasLate
  · rename_i complete
    rw [Bool.or_eq_true, List.isEmpty_iff, List.isEmpty_iff, not_or] at complete
    simp only [ne_eq, complete, not_false_eq_true, true_and, Option.some.injEq]
    exact eq_comm

section Freezing

variable {candidate : Candidate} (frozen : draft.freeze? = some candidate)

include frozen

theorem mem_sequence_of_freeze? (file : DataFile) :
    file ∈ candidate.sequence ↔ file ∈ draft.sequence := by
  obtain ⟨_, _, rfl⟩ := (freeze?_eq_some_iff candidate).mp frozen
  exact List.mem_mergeSort

theorem unsequence_of_freeze? : candidate.unsequence = draft.unsequence := by
  obtain ⟨_, _, rfl⟩ := (freeze?_eq_some_iff candidate).mp frozen
  rfl

theorem files_perm_of_freeze? : candidate.files.Perm (draft.sequence ++ draft.unsequence) := by
  obtain ⟨_, _, rfl⟩ := (freeze?_eq_some_iff candidate).mp frozen
  exact (List.mergeSort_perm _ _).append_right _

theorem count_of_freeze? : candidate.count = draft.count := by
  rw [Candidate.count, (files_perm_of_freeze? frozen).length_eq, List.length_append, count]

end Freezing

end Draft

/-! ## Frozen candidates -/

namespace Frozen

variable {config : Config} {sequence : List DataFile} {earlier : List Candidate}
  {candidate : Candidate} (frozen : Frozen config sequence earlier candidate)

include frozen

theorem exists_draft : ∃ draft : Draft, draft.Filled config sequence earlier ∧
    draft.sequence ≠ [] ∧ draft.unsequence ≠ [] ∧
    candidate =
      ⟨draft.sequence.mergeSort DataFile.comesFirst, draft.unsequence, draft.size⟩ := by
  rcases frozen with ⟨draft, filled, freezing⟩
  exact ⟨draft, filled, (Draft.freeze?_eq_some_iff candidate).mp freezing⟩

theorem ne_nil : candidate.sequence ≠ [] ∧ candidate.unsequence ≠ [] := by
  rcases frozen.exists_draft with ⟨draft, _, hasEarly, hasLate, rfl⟩
  constructor
  · rcases List.exists_mem_of_ne_nil _ hasEarly with ⟨file, member⟩
    exact List.ne_nil_of_mem (List.mem_mergeSort.mpr member)
  · exact hasLate

theorem within_budget :
    candidate.count ≤ config.maxFiles ∧ candidate.size ≤ config.maxSize := by
  rcases frozen with ⟨draft, filled, freezing⟩
  rcases filled.within_budget with ⟨countFits, sizeFits⟩
  obtain ⟨_, _, candidate_eq⟩ := (Draft.freeze?_eq_some_iff candidate).mp freezing
  rw [Draft.count_of_freeze? freezing, candidate_eq]
  exact ⟨countFits, sizeFits⟩

theorem toNat_size :
    candidate.size.toNat = min (totalSize candidate.files) (UInt64.size - 1) := by
  rcases frozen with ⟨draft, filled, freezing⟩
  obtain ⟨_, _, candidate_eq⟩ := (Draft.freeze?_eq_some_iff candidate).mp freezing
  rw [totalSize_perm (Draft.files_perm_of_freeze? freezing), candidate_eq, filled.toNat_size]

theorem exists_targets {late : DataFile} (member : late ∈ candidate.unsequence) :
    ∃ own, fileTargets? (isAvailable earlier) sequence late = some own := by
  rcases frozen.exists_draft with ⟨draft, filled, _, _, rfl⟩
  exact filled.exists_targets member

variable (distinct : (sequence.map DataFile.id).Nodup)

include distinct

theorem mem_sequence {file : DataFile} (member : file ∈ candidate.sequence) :
    file ∈ sequence ∧ Available earlier file := by
  obtain ⟨draft, filled, _, _, rfl⟩ := frozen.exists_draft
  rw [List.mem_mergeSort] at member
  rw [← isAvailable_iff]
  exact filled.mem_sequence distinct member

theorem mem_sequence_iff (file : DataFile) :
    file ∈ candidate.sequence ↔ ∃ late ∈ candidate.unsequence, ∃ own,
      fileTargets? (isAvailable earlier) sequence late = some own ∧ file ∈ own := by
  rcases frozen.exists_draft with ⟨draft, filled, _, _, rfl⟩
  rw [List.mem_mergeSort]
  exact filled.mem_sequence_iff distinct file

theorem sequence_distinct : (candidate.sequence.map DataFile.id).Nodup := by
  rcases frozen.exists_draft with ⟨draft, filled, _, _, rfl⟩
  have sorting := List.mergeSort_perm draft.sequence DataFile.comesFirst
  exact (sorting.map DataFile.id).symm.nodup (filled.sequence_distinct distinct)

theorem sequence_increasing : candidate.sequence.Pairwise DataFile.SortsBefore := by
  rcases frozen.exists_draft with ⟨draft, filled, _, _, rfl⟩
  exact DataFile.pairwise_sortsBefore_mergeSort (filled.sequence_distinct distinct)

end Frozen

end SeriesStore.Selection
