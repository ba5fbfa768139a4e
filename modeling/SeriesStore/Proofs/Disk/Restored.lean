import SeriesStore.Disk.Recovery
import SeriesStore.Proofs.File.Spans

/-!
# Files and what their sidecars bring back

The sidecar of a file is found by the space of the file and the four numbers in its name.
No change of a registered file touches these, so a file keeps the place of its sidecar for
as long as it is registered.

A sidecar brings its file back unless it is deleted, and without a claim.  So the same comes
back before and after a group is claimed, started or given back, and it is well formed when
the file is.  A file that goes to its sidecar and comes back has its growing spans raised
besides.
-/

namespace SeriesStore

namespace DataFile

/-- Whether two files have their sidecar at the same place of a partition. -/
structure SamePlace (file other : DataFile) : Prop where
  space : other.space = file.space
  name : FileName.ofFile other = FileName.ofFile file

variable {file other third changed : DataFile}

theorem SamePlace.refl (file : DataFile) : file.SamePlace file :=
  ⟨rfl, rfl⟩

theorem SamePlace.symm (same : file.SamePlace other) : other.SamePlace file :=
  ⟨same.space.symm, same.name.symm⟩

theorem SamePlace.trans (first : file.SamePlace other) (second : other.SamePlace third) :
    file.SamePlace third :=
  ⟨second.space.trans first.space, second.name.trans first.name⟩

theorem SamePlace.id (same : file.SamePlace other) : other.id = file.id :=
  congrArg FileName.id same.name

/-- No change of a registered file moves its sidecar. -/
theorem Change.samePlace (change : file.Change changed) : file.SamePlace changed := by
  cases change with
  | recorded _ _ _ => exact ⟨rfl, rfl⟩
  | sealed ends outcome =>
      rcases sealWith_eq_ok outcome with ⟨entries, _, rfl⟩
      exact ⟨rfl, rfl⟩
  | moved next _ outcome =>
      rcases (transition_eq_ok_iff _ _ _).mp outcome with ⟨_, rfl⟩
      exact ⟨rfl, rfl⟩

/-- The file without the claim that a group may have on it. -/
def unclaimed (file : DataFile) : DataFile :=
  match file.status with
  | .candidate | .compacting => { file with status := .closed }
  | .unclosed | .closed | .deleted => file

/-- A file is unclaimed already, or it is claimed and comes out as closed. -/
theorem unclaimed_cases (file : DataFile) :
    file.unclaimed = file ∨
      file.status ≠ .unclosed ∧ file.unclaimed = { file with status := .closed } := by
  rw [unclaimed]
  cases file.status <;> simp

theorem unclaimed_eq (free : file.status.isClaimed = false) : file.unclaimed = file := by
  rw [unclaimed]
  cases status : file.status <;> rw [status] at free <;> first | rfl | contradiction

/-- A file that is neither written any more nor deleted comes out as closed. -/
theorem unclaimed_of_settled (settled : file.status ≠ .unclosed)
    (alive : file.status ≠ .deleted) : file.unclaimed = { file with status := .closed } := by
  rcases file with ⟨id, space, status, orderingKey, size, innerLevel, crossLevel, devices⟩
  cases status <;> first | contradiction | rfl

end DataFile

namespace Disk

/-- What is left of a file that has been read from a sidecar: nothing of a deleted file, and
every other one without a claim. -/
def revived? (file : DataFile) : Option DataFile :=
  if file.status = .deleted then none else some file.unclaimed

variable {file kept : DataFile}

/-- Recovery keeps just that. -/
theorem restored?_eq (file : DataFile) : restored? file = revived? file := by
  rcases file with ⟨id, space, status, orderingKey, size, innerLevel, crossLevel, devices⟩
  cases status <;> rfl

theorem revived?_eq_some_iff :
    revived? file = some kept ↔ file.status ≠ .deleted ∧ kept = file.unclaimed := by
  rw [revived?]
  split
  · simp_all
  · simp_all [eq_comm]

/-- What comes back is the file itself or, when the file was claimed, the file as closed. -/
theorem revived?_eq_some (revived : revived? file = some kept) :
    file.status ≠ .deleted ∧
      (kept = file ∨ file.status ≠ .unclosed ∧ kept = { file with status := .closed }) := by
  rcases revived?_eq_some_iff.mp revived with ⟨alive, rfl⟩
  exact ⟨alive, file.unclaimed_cases⟩

theorem revived?_of_alive (alive : file.status ≠ .deleted) :
    revived? file = some file.unclaimed :=
  if_neg alive

theorem samePlace_of_revived? (revived : revived? file = some kept) :
    file.SamePlace kept := by
  rcases (revived?_eq_some revived).2 with rfl | ⟨_, rfl⟩
  · exact .refl _
  · exact ⟨rfl, rfl⟩

theorem devices_of_revived? (revived : revived? file = some kept) :
    kept.devices = file.devices := by
  rcases (revived?_eq_some revived).2 with rfl | ⟨_, rfl⟩ <;> rfl

/-- A claimed file that is well formed has closed spans only. -/
theorem valid_of_revived? (revived : revived? file = some kept) (valid : file.Valid) :
    kept.Valid := by
  rcases (revived?_eq_some revived).2 with rfl | ⟨settled, rfl⟩
  · exact valid
  · intro entry member
    rcases valid.exists_interval settled member with ⟨interval, entry_eq, ordered⟩
    rw [entry_eq]
    exact ordered

/-- Claiming, starting and giving back is not seen in what comes back. -/
theorem revived?_of_transition {changed : DataFile} {target : Status}
    (settled : file.status ≠ .unclosed) (alive : target ≠ .deleted)
    (outcome : file.transition target = .ok changed) : revived? changed = revived? file := by
  rcases (DataFile.transition_eq_ok_iff _ _ _).mp outcome with ⟨allowed, rfl⟩
  have fileAlive : file.status ≠ .deleted := by
    intro deleted
    rw [deleted, Status.canBecome_deleted] at allowed
    contradiction
  have targetSettled : target ≠ .unclosed := by
    rintro rfl
    cases source : file.status <;> rw [source] at allowed <;> contradiction
  rw [revived?_of_alive fileAlive, DataFile.unclaimed_of_settled settled fileAlive]
  rw [revived?_of_alive alive]
  exact congrArg some (DataFile.unclaimed_of_settled targetSettled alive)

/-! ## Going to the disk and coming back -/

/-- What comes back of a file from its sidecar. -/
def comesBack? (file : DataFile) : Option DataFile :=
  revived? file.raised

theorem comesBack?_of_deleted (deleted : file.status = .deleted) : comesBack? file = none :=
  if_pos deleted

theorem comesBack?_of_alive (alive : file.status ≠ .deleted) :
    comesBack? file = some file.raised.unclaimed :=
  revived?_of_alive alive

theorem comesBack?_eq_some (back : comesBack? file = some kept) : file.status ≠ .deleted :=
  (revived?_eq_some_iff.mp back).1

theorem samePlace_of_comesBack? (back : comesBack? file = some kept) : file.SamePlace kept := by
  rcases samePlace_of_revived? back with ⟨space, name⟩
  exact ⟨space, name⟩

theorem valid_of_comesBack? (back : comesBack? file = some kept) (valid : file.Valid) :
    kept.Valid :=
  valid_of_revived? back valid.raised

theorem comesBack?_of_spans (spans : file.SpansWellFormed) : comesBack? file = revived? file := by
  rw [comesBack?, file.raised_eq spans]

/-- Raising spans and dropping a claim do not depend on each other. -/
theorem comesBack?_eq_map (file : DataFile) :
    comesBack? file = (revived? file).map DataFile.raised := by
  rcases file with ⟨id, space, status, orderingKey, size, innerLevel, crossLevel, devices⟩
  cases status <;> rfl

theorem comesBack?_congr {other : DataFile} (same : revived? file = revived? other) :
    comesBack? file = comesBack? other := by
  rw [comesBack?_eq_map, comesBack?_eq_map, same]

end Disk

end SeriesStore
