import SeriesStore.Disk.Layout
import SeriesStore.Proofs.Disk.Path
import SeriesStore.Proofs.Disk.Restored

/-!
# Paths of sidecars

The path of a sidecar spells out the partition and the place of the file in it, so files of
different places never share a path.  A group may be any single segment, also one or two
dots.  A dot is no step, but then the path is one step shorter than all others.

Paths are compared both as texts and by the steps that they take.  Any comparison that lets
some empty segments and dots count and others not lies between the two.
-/

namespace SeriesStore

namespace Disk

namespace Path

/-- A text that is a single segment of a path, which may be one dot or two. -/
structure Single (name : String) : Prop where
  ne_empty : name ≠ ""
  no_slash : '/' ∉ name.toList

instance (name : String) : Decidable (Single name) :=
  decidable_of_iff (name ≠ "" ∧ '/' ∉ name.toList)
    ⟨fun ⟨ne_empty, no_slash⟩ => ⟨ne_empty, no_slash⟩,
      fun single => ⟨single.ne_empty, single.no_slash⟩⟩

theorem Plain.single {name : String} (plain : Plain name) : Single name :=
  ⟨plain.ne_empty, plain.no_slash⟩

/-- The steps that a single segment takes: none for a dot. -/
def stepsOf (name : String) : List String :=
  if name = "." then [] else [name]

theorem Single.isIdle_eq {name : String} (single : Single name) :
    isIdle name.toList = decide (name = ".") := by
  have dot : ".".toList = ['.'] := rfl
  rw [isIdle, decide_eq_decide, ← dot, String.toList_inj, String.toList_eq_nil_iff]
  exact or_iff_right single.ne_empty

theorem steps_join_single (left : String) {name : String} (single : Single name) :
    steps (join left name) = steps left ++ stepsOf name := by
  rcases segments_join left single.no_slash with ⟨front, segmented, moves⟩
  have own : (moving [name.toList]).map String.ofList = stepsOf name := by
    rw [moving, List.filter_singleton, single.isIdle_eq, stepsOf]
    by_cases dot : name = "." <;> simp [dot]
  rw [steps, steps, segmented, List.filter_append, List.map_append]
  change (moving front).map _ ++ (moving [name.toList]).map _ = _
  rw [moves, own]

/-- One segment is told from another by its steps. -/
theorem stepsOf_inj {first second : String} (same : stepsOf first = stepsOf second) :
    first = second := by
  rw [stepsOf, stepsOf] at same
  split at same <;> split at same <;> simp_all

end Path

namespace Layout

variable (layout : Layout) {key other : PartitionKey} (file another : DataFile)

/-- The steps from the root to a sidecar. -/
theorem steps_sidecarPath (single : Path.Single key.group) :
    Path.steps (layout.sidecarPath key file) =
      Path.steps layout.root ++ ([file.space.directoryName] ++ (Path.stepsOf key.group ++
        [Text.writeInt key.slot.toInt, (FileName.ofFile file).sidecarName])) := by
  rw [sidecarPath, Path.steps_join _ (Path.plain_sidecarName _), partitionDirectory,
    Path.steps_join _ (Path.plain_writeInt _), Path.steps_join_single _ single, spaceDirectory,
    Path.steps_join _ (Path.plain_directoryName _)]
  simp only [List.append_assoc, List.cons_append, List.nil_append]

/-- Below one root the steps to a sidecar tell its partition and its place there. -/
theorem place_eq_of_steps {layout : Layout} {file another : DataFile}
    (single : Path.Single key.group) (otherSingle : Path.Single other.group)
    (same : Path.steps (layout.sidecarPath key file) =
      Path.steps (layout.sidecarPath other another)) :
    key = other ∧ file.SamePlace another := by
  rw [steps_sidecarPath _ _ single, steps_sidecarPath _ _ otherSingle] at same
  rcases List.append_inj (List.append_cancel_left same) (by simp) with ⟨spaces, rest⟩
  rcases List.append_inj' rest (by simp) with ⟨groups, names⟩
  simp only [List.cons.injEq, and_true] at spaces names
  rcases key with ⟨group, slot⟩
  rcases other with ⟨otherGroup, otherSlot⟩
  cases Path.stepsOf_inj groups
  cases Path.writeInt_inj names.1
  exact ⟨rfl, (Path.directoryName_inj spaces).symm, (FileName.sidecarName_inj names.2).symm⟩

theorem place_eq_of_sidecarPath {layout : Layout} {file another : DataFile}
    (single : Path.Single key.group) (otherSingle : Path.Single other.group)
    (same : layout.sidecarPath key file = layout.sidecarPath other another) :
    key = other ∧ file.SamePlace another :=
  place_eq_of_steps single otherSingle (congrArg Path.steps same)

/-- The path at which a sidecar is prepared ends in a step that no sidecar's path ends in. -/
theorem steps_temporary_ne (elsewhere : Layout) (key other : PartitionKey) :
    Path.steps (Path.temporary (layout.sidecarPath key file)) ≠
      Path.steps (elsewhere.sidecarPath other another) := by
  intro same
  rw [sidecarPath, Path.temporary_join, Path.steps_join _ (Path.plain_preparedName _),
    sidecarPath, Path.steps_join _ (Path.plain_sidecarName _), List.append_singleton_inj] at same
  exact Path.ne_preparedName (FileName.isSidecarName_sidecarName _) _ same.2.symm

/-- The numbers and the space that make up a place. -/
theorem samePlace_iff (file another : DataFile) :
    file.SamePlace another ↔
      file.space = another.space ∧ file.orderingKey = another.orderingKey ∧
        file.id = another.id ∧ file.innerLevel = another.innerLevel ∧
          file.crossLevel = another.crossLevel := by
  have names : FileName.ofFile another = FileName.ofFile file ↔
      another.orderingKey = file.orderingKey ∧ another.id = file.id ∧
        another.innerLevel = file.innerLevel ∧ another.crossLevel = file.crossLevel := by
    rw [FileName.ofFile, FileName.ofFile, FileName.mk.injEq]
  constructor
  · rintro ⟨space, name⟩
    rcases names.mp name with ⟨orderingKey, id, innerLevel, crossLevel⟩
    exact ⟨space.symm, orderingKey.symm, id.symm, innerLevel.symm, crossLevel.symm⟩
  · rintro ⟨space, orderingKey, id, innerLevel, crossLevel⟩
    exact ⟨space.symm, names.mpr ⟨orderingKey.symm, id.symm, innerLevel.symm, crossLevel.symm⟩⟩

theorem sidecarPath_of_samePlace {file another : DataFile} (same : file.SamePlace another)
    (key : PartitionKey) : layout.sidecarPath key another = layout.sidecarPath key file := by
  rw [sidecarPath, sidecarPath, same.space, same.name]

/-- Below one root two files share the path of their sidecars exactly if they share the
partition, the space and the four numbers, and then only do the paths take the same steps.
The path at which a sidecar is prepared is that of no sidecar, below whatever root. -/
theorem sidecar_paths_apart (single : Path.Single key.group)
    (otherSingle : Path.Single other.group) :
    (layout.sidecarPath key file = layout.sidecarPath other another ↔
      key = other ∧ file.space = another.space ∧ file.orderingKey = another.orderingKey ∧
        file.id = another.id ∧ file.innerLevel = another.innerLevel ∧
          file.crossLevel = another.crossLevel) ∧
      (Path.steps (layout.sidecarPath key file) = Path.steps (layout.sidecarPath other another) →
        layout.sidecarPath key file = layout.sidecarPath other another) ∧
      ∀ (elsewhere : Layout) (third : PartitionKey) (kept : DataFile),
        Path.temporary (layout.sidecarPath key file) ≠ elsewhere.sidecarPath third kept ∧
          Path.steps (Path.temporary (layout.sidecarPath key file)) ≠
            Path.steps (elsewhere.sidecarPath third kept) := by
  refine ⟨?_, fun same => ?_, fun elsewhere third kept => ?_⟩
  · rw [← samePlace_iff]
    constructor
    · exact place_eq_of_sidecarPath single otherSingle
    · rintro ⟨rfl, place⟩
      exact (layout.sidecarPath_of_samePlace place key).symm
  · rcases place_eq_of_steps single otherSingle same with ⟨rfl, place⟩
    exact (layout.sidecarPath_of_samePlace place key).symm
  · have apart := layout.steps_temporary_ne file kept elsewhere key third
    exact ⟨fun same => apart (congrArg Path.steps same), apart⟩

end Layout

end Disk

/-! A group of one dot and one of two, although neither is the name of a directory. -/

namespace Sample

def bare : DataFile where
  id := 1
  space := .sequence
  status := .closed
  orderingKey := 1
  size := 0
  innerLevel := 0
  crossLevel := 0
  devices := .empty

end Sample

namespace Disk.Layout

theorem sidecar_paths_apart_dots :
    Path.Single "." ∧ Path.Single ".." ∧
      sidecarPath ⟨"store"⟩ ⟨".", -1⟩ Sample.bare ≠ sidecarPath ⟨"store"⟩ ⟨"..", -1⟩ Sample.bare ∧
      Path.temporary (sidecarPath ⟨"store"⟩ ⟨".", -1⟩ Sample.bare) ≠
        sidecarPath ⟨"store"⟩ ⟨"..", -1⟩ Sample.bare := by
  have dot : Path.Single (PartitionKey.mk "." (-1)).group := by
    decide
  have dots : Path.Single (PartitionKey.mk ".." (-1)).group := by
    decide
  rcases sidecar_paths_apart ⟨"store"⟩ Sample.bare Sample.bare dot dots with
    ⟨same_iff, _, prepared⟩
  refine ⟨dot, dots, fun same => ?_, (prepared _ _ _).1⟩
  exact absurd (same_iff.mp same).1 (by decide)

end Disk.Layout

end SeriesStore
