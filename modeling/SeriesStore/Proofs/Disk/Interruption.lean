import SeriesStore.Disk.Interruption
import SeriesStore.Proofs.Disk.Tidy
import SeriesStore.Proofs.Partition.Edit

/-!
# Writes that fail

A write that fails leaves what a write may leave that is stopped.  So whatever is shown of
the trees that `Layout.Stops` allows for is shown of failed writes as well.
-/

namespace SeriesStore.Disk

variable {layout : Layout} {tree left : Tree} {key : PartitionKey} {file : DataFile}
  {error : Error}

namespace Tree

variable {location : Location} {path : String}

/-- Making directories fails after some of them have been made. -/
theorem exists_take_of_makeAlong_error {steps : List String}
    (outcome : makeAlong location steps tree = .error error left) :
    ∃ count, makeAlong location (steps.take count) tree = .ok () left := by
  induction steps generalizing location tree with
  | nil => contradiction
  | cons step rest ih =>
      rw [makeAlong_eq] at outcome
      split at outcome
      · cases outcome
        exact ⟨0, rfl⟩
      · rename_i short
        split at outcome
        · rename_i standing
          rcases ih outcome with ⟨count, made⟩
          refine ⟨count + 1, ?_⟩
          rw [List.take_succ_cons, makeAlong_eq, if_neg short, standing]
          exact made
        · cases outcome
          exact ⟨0, rfl⟩
        · rename_i absent
          rcases ih outcome with ⟨count, made⟩
          refine ⟨count + 1, ?_⟩
          rw [List.take_succ_cons, makeAlong_eq, if_neg short, absent]
          exact made

theorem write_eq_error {bytes : List UInt8} (outcome : write path bytes tree = .error error left) :
    left = tree := by
  rw [write_eq] at outcome
  split at outcome
  · cases outcome
    rfl
  · split at outcome <;> cases outcome
    rfl

theorem rename_eq_error {source target : String}
    (outcome : rename source target tree = .error error left) : left = tree := by
  unfold rename at outcome
  split at outcome
  · cases outcome
    rfl
  · cases outcome
    rfl
  · split at outcome <;> cases outcome <;> rfl

end Tree

namespace Layout

/-- The write of a sidecar that fails is as good as stopped. -/
theorem begins_of_persist_error (outcome : layout.persist key file tree = .error error left) :
    layout.Begins key file tree left := by
  rw [layout.persist_eq] at outcome
  split at outcome
  · rename_i failure
    cases outcome
    rw [makeDirectories_eq] at failure
    split at failure
    · cases failure
      exact .making 0 rfl
    · rcases Tree.exists_take_of_makeAlong_error failure with ⟨count, made⟩
      exact .making count made
  rename_i made directories
  have all : layout.Begins key file tree made := by
    have along := directories
    rw [makeDirectories_eq] at along
    split at along
    · contradiction
    · apply Begins.making (Path.steps (layout.partitionDirectory file.space key)).length
      rw [List.take_length]
      exact along
  rw [Tree.writeSidecar] at outcome
  split at outcome
  · cases outcome
    exact all
  rename_i bytes _
  rw [Tree.bind_eq] at outcome
  split at outcome
  · rename_i failure
    cases outcome
    rw [Tree.write_eq_error failure]
    exact all
  · rename_i prepared writing
    rw [Tree.rename_eq_error outcome]
    exact .preparing bytes directories writing

/-- Writing sidecars one after the other leaves, also when it fails, what writing may leave that
is stopped. -/
theorem stops_persistAll (layout : Layout) (key : PartitionKey) (files : List DataFile)
    (tree : Tree) :
    ∃ count, layout.Stops key files count tree (leftBehind (layout.persistAll key files tree)) := by
  induction files generalizing tree with
  | nil => exact ⟨0, tree, rfl, .inl rfl⟩
  | cons file rest ih =>
      rw [persistAll, Tree.bind_eq]
      cases outcome : layout.persist key file tree with
      | error error left =>
          exact ⟨0, tree, rfl, .inr ⟨file, rfl, begins_of_persist_error outcome⟩⟩
      | ok _ made =>
          rcases ih made with ⟨count, written, first, stopped⟩
          refine ⟨count + 1, written, ?_, stopped⟩
          rw [List.take_succ_cons, persistAll, Tree.bind_eq, outcome]
          exact first

end Layout

end SeriesStore.Disk
