import SeriesStore.Proofs.Disk.Recovery

/-!
# Why recovery fails

When every sidecar is in place and what it brings back is well formed, there is one reason left for
recovery to fail: a number that comes back twice in a partition.  Recovery stops there and names
that number.
-/

namespace SeriesStore

theorem Partition.files_empty : Partition.empty.files = [] :=
  rfl

theorem Partition.files_insertAll_perm (partition : Partition) (files : List DataFile) :
    (partition.insertAll files).files.Perm (partition.files ++ files) := by
  induction files generalizing partition with
  | nil =>
      rw [List.append_nil]
      exact .refl _
  | cons file rest ih =>
      exact (ih (partition.insert file)).trans
        (((partition.files_insert_perm file).append_right rest).trans List.perm_middle.symm)

namespace Disk

variable {tree : Tree} {space : Space} {partition : Partition} {kept : DataFile}
  {name : FileName} {path : String} {error : Error}

/-- Whether an error names a number that occurs twice among some files. -/
def NamesTwice (error : Error) (files : List DataFile) : Prop :=
  ∃ id, error = .malformed id .listedTwice ∧ 2 ≤ (files.map DataFile.id).count id

theorem NamesTwice.of_sublist {files others : List DataFile} (names : NamesTwice error files)
    (sublist : files.Sublist others) : NamesTwice error others := by
  rcases names with ⟨id, error_eq, twice⟩
  exact ⟨id, error_eq, twice.trans ((sublist.map DataFile.id).count_le id)⟩

theorem NamesTwice.of_perm {files others : List DataFile} (names : NamesTwice error files)
    (perm : files.Perm others) : NamesTwice error others := by
  rcases names with ⟨id, error_eq, twice⟩
  exact ⟨id, error_eq, twice.trans_eq ((perm.map DataFile.id).count_eq id)⟩

/-! ## Sidecar by sidecar -/

theorem recoverSidecar_of_inPlace (inPlace : InPlace tree space (name, path)) :
    recoverSidecar tree space partition name path =
      match restoredAt? tree path with
      | none => .ok partition
      | some kept => addRestored partition kept := by
  rcases inPlace with ⟨file, reading, spaceFits, idFits⟩
  dsimp only at reading idFits
  rw [recoverSidecar, restoredAt?, reading]
  dsimp only
  rw [restored?_eq]
  have fits : ¬ (file.space ≠ space ∨ file.id ≠ name.id) := by simp [spaceFits, idFits]
  cases revived? file with
  | none => exact if_neg fits
  | some kept => exact if_neg fits

/-- A well-formed file is taken in, or its number is there already. -/
theorem addRestored_cases (partition : Partition) (valid : kept.Valid) :
    addRestored partition kept = .ok (partition.insert kept) ∨
      addRestored partition kept = .error (.malformed kept.id .listedTwice) ∧
        ∃ other ∈ partition.files, other.id = kept.id := by
  rw [addRestored, kept.validate_eq_ok_iff.mpr valid]
  dsimp only
  split
  · rename_i taken
    exact .inr ⟨rfl, (Partition.contains_iff _ _).mp taken⟩
  · exact .inl rfl

theorem namesTwice_of_recoverSidecars {sidecars : List (FileName × String)}
    (inPlace : ∀ sidecar ∈ sidecars, InPlace tree space sidecar)
    (valid : ∀ kept ∈ sidecars.filterMap fun sidecar => restoredAt? tree sidecar.2, kept.Valid)
    (outcome : recoverSidecars tree space partition sidecars = .error error) :
    NamesTwice error
      (partition.files ++ sidecars.filterMap fun sidecar => restoredAt? tree sidecar.2) := by
  induction sidecars generalizing partition with
  | nil => contradiction
  | cons sidecar rest ih =>
      rcases sidecar with ⟨name, path⟩
      rw [List.forall_mem_cons] at inPlace
      rcases inPlace with ⟨own, others⟩
      rw [recoverSidecars, recoverSidecar_of_inPlace own] at outcome
      cases back : restoredAt? tree path with
      | none =>
          simp only [List.filterMap_cons, back] at valid ⊢
          rw [back] at outcome
          exact ih others valid outcome
      | some kept =>
          simp only [List.filterMap_cons, back, List.forall_mem_cons] at valid ⊢
          rw [back] at outcome
          dsimp only at outcome
          rcases addRestored_cases partition valid.1 with
            taken | ⟨refused, other, member, sameId⟩
          · rw [taken] at outcome
            apply (ih others valid.2 outcome).of_perm
            exact ((partition.files_insert_perm kept).append_right _).trans List.perm_middle.symm
          · rw [refused] at outcome
            cases outcome
            refine ⟨kept.id, rfl, ?_⟩
            have before : 1 ≤ (partition.files.map DataFile.id).count kept.id :=
              List.one_le_count_iff.mpr (List.mem_map.mpr ⟨other, member, sameId⟩)
            rw [List.map_append, List.count_append, List.map_cons, List.count_cons_self]
            omega

/-! ## Partition by partition -/

namespace Layout

variable {layout : Layout} {key : PartitionKey}

theorem namesTwice_of_recoverSpaces {spaces : List Space}
    (inPlace : ∀ space ∈ spaces, layout.AllInPlace tree key space)
    (valid : ∀ kept ∈ spaces.flatMap (layout.restoredIn tree key), kept.Valid)
    (outcome : layout.recoverSpaces tree key partition spaces = .error error) :
    NamesTwice error (partition.files ++ spaces.flatMap (layout.restoredIn tree key)) := by
  induction spaces generalizing partition with
  | nil => contradiction
  | cons space rest ih =>
      rw [List.forall_mem_cons] at inPlace
      rcases inPlace with ⟨⟨sidecars, listed, own⟩, others⟩
      rw [List.flatMap_cons, List.forall_mem_append] at valid
      rcases valid with ⟨valid, validOthers⟩
      rw [recoverSpaces, listed] at outcome
      dsimp only at outcome
      rw [List.flatMap_cons, ← List.append_assoc]
      split at outcome
      · rename_i taken
        cases outcome
        rw [restoredIn_eq listed] at valid ⊢
        exact (namesTwice_of_recoverSidecars own valid taken).of_sublist
          (List.sublist_append_left _ _)
      · rename_i middle taken
        rcases (recoverSidecars_eq_ok_iff _ _ _ _ _).mp taken with ⟨_, _, rfl⟩
        rw [← restoredIn_eq listed] at outcome
        exact (ih others validOthers outcome).of_perm
          ((Partition.files_insertAll_perm _ _).append_right _)

theorem exists_recoverSpaces_of_recoverPartitions {registry : Registry} {keys : List PartitionKey}
    (outcome : layout.recoverPartitions tree registry keys = .error error) :
    ∃ key ∈ keys, layout.recoverSpaces tree key .empty Space.all = .error error := by
  induction keys generalizing registry with
  | nil => contradiction
  | cons first rest ih =>
      rw [recoverPartitions] at outcome
      split at outcome
      · rename_i failed
        cases outcome
        exact ⟨first, List.mem_cons_self, failed⟩
      · rcases ih outcome with ⟨key, member, failed⟩
        exact ⟨key, List.mem_cons_of_mem first member, failed⟩

/-- Recovery from sidecars that are in place and bring back well-formed files fails only for a
number that comes back twice in one partition. -/
theorem namesTwice_of_recover {keys : List PartitionKey}
    (listed : layout.listPartitions tree = .ok keys)
    (inPlace : ∀ key ∈ keys, ∀ space, layout.AllInPlace tree key space)
    (valid : ∀ key ∈ keys, ∀ kept ∈ layout.restored tree key, kept.Valid)
    (outcome : layout.recover tree = .error error) :
    ∃ key ∈ keys, NamesTwice error (layout.restored tree key) := by
  rw [recover, listed] at outcome
  rcases exists_recoverSpaces_of_recoverPartitions outcome with ⟨key, member, failed⟩
  have names := namesTwice_of_recoverSpaces (fun space _ => inPlace key member space)
    (valid key member) failed
  rw [← restored, Partition.files_empty, List.nil_append] at names
  exact ⟨key, member, names⟩

end Layout

end Disk

end SeriesStore
