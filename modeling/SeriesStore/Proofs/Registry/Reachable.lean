import Mathlib
import SeriesStore.Proofs.Disk.Restored
import SeriesStore.Proofs.Partition.Edit
import SeriesStore.Selection.Round
import SeriesStore.Store

/-!
# Reachable registries

A registry is reachable when requests lead to it from the registry without
partitions or from a recovered one.  Requests may carry any arguments and may
fail.

`Served` says once what a request can do: it revises partitions, or it revises one
and brings fresh files into it.  Recovery fills partitions with the files of their
sidecars.  So every partition of a reachable registry is built by edits, and all
its files are valid.
-/

namespace SeriesStore

namespace Registry

/-- A request to the registry.  Finishing with persistence also reads and writes
a directory tree, of which nothing is known. -/
inductive Request where
  | addAll (key : PartitionKey) (space : Space) (files : List DataFile)
  | recordWrite (key : PartitionKey) (id : FileId) (device : String) (time : Timestamp)
  | sealFile (key : PartitionKey) (id : FileId) (ends : EndTimes)
  | delete (key : PartitionKey) (id : FileId)
  | claim (key : PartitionKey) (ids : List FileId)
  | release (key : PartitionKey) (ids : List FileId)
  | start (key : PartitionKey) (ids : List FileId)
  | abort (key : PartitionKey) (ids : List FileId)
  | finish (key : PartitionKey) (ids : List FileId) (outputs : List DataFile)
  | finishAndPersist (layout : Disk.Layout) (disk : Disk.Tree) (key : PartitionKey)
      (ids : List FileId) (outputs : List DataFile)
  | selectAndClaim (config : Selection.Config) (key : PartitionKey)
  | runRound (config : Selection.Config)

/-- The registry that a request leaves behind. -/
def serve (registry : Registry) : Request → Registry
  | .addAll key space files => leftBehind (registry.addAll key space files)
  | .recordWrite key id device time => leftBehind (registry.recordWrite key id device time)
  | .sealFile key id ends => leftBehind (registry.sealFile key id ends)
  | .delete key id => leftBehind (registry.delete key id)
  | .claim key ids => leftBehind (registry.claim key ids)
  | .release key ids => leftBehind (registry.release key ids)
  | .start key ids => leftBehind (registry.start key ids)
  | .abort key ids => leftBehind (registry.abort key ids)
  | .finish key ids outputs => leftBehind (registry.finish key ids outputs)
  | .finishAndPersist layout disk key ids outputs =>
      (leftBehind (Store.finishAndPersist layout key ids outputs ⟨registry, disk⟩)).registry
  | .selectAndClaim config key => leftBehind (Selection.selectAndClaim config key registry)
  | .runRound config => (Selection.runRound config registry).2

/-- A registry that requests have made from the empty one or from a recovered
one. -/
inductive Reachable : Registry → Prop where
  | empty : Reachable .empty
  | recovered {layout : Disk.Layout} {disk : Disk.Tree} {registry : Registry}
      (outcome : layout.recover disk = .ok registry) : Reachable registry
  | served {registry : Registry} (reachable : Reachable registry) (request : Request) :
      Reachable (registry.serve request)

/-- A registry all of whose partitions are built by edits. -/
def Built (registry : Registry) : Prop :=
  ∀ key partition, registry.partition? key = some partition → partition.Built

/-! ## What a request does -/

theorem partition_snapshot {registry : Registry} {key : PartitionKey} {partition : Partition}
    (present : registry.partition? key = some partition) :
    (registry.snapshot key).partition = partition := by
  rw [snapshot, present]
  rfl

/-- A registry with the partitions of another one, revised. -/
def Revised (before after : Registry) : Prop :=
  ∀ key, Option.Rel Partition.Revisions (before.partition? key) (after.partition? key)

/-- Files that come in under one key. -/
def under (key : PartitionKey) (files : List DataFile) (asked : PartitionKey) : List DataFile :=
  if asked = key then files else []

/-- A request revises partitions, or it revises one and then brings fresh files into
it.  The index lists the files that come in under each key. -/
inductive Served (before : Registry) : Registry → (PartitionKey → List DataFile) → Prop where
  | revised {after : Registry} (revised : before.Revised after) : Served before after fun _ => []
  | entered (key : PartitionKey) {left : Partition} {files : List DataFile}
      (revisions : Partition.Revisions (before.snapshot key).partition left)
      (fresh : left.Fresh files) :
      Served before (before.put key (left.insertAll files)) (under key files)

/-- What a step brings in that is to bring files in: all of them when it succeeds,
and none when it fails. -/
def broughtIn {ε σ α : Type} (files : List DataFile) : EStateM.Result ε σ α → List DataFile
  | .ok .. => files
  | .error .. => []

/-- The files that a request brings in under each key.  Only adding files and
finishing a group do, and only when they succeed. -/
def entering (registry : Registry) : Request → PartitionKey → List DataFile
  | .addAll key space files =>
      under key (broughtIn files (registry.addAll key space files))
  | .finish key ids outputs | .finishAndPersist _ _ key ids outputs =>
      under key (broughtIn outputs (registry.finish key ids outputs))
  | _ => fun _ => []

@[simp]
theorem under_nil (key : PartitionKey) : under key [] = fun _ => [] := by
  funext asked
  exact ite_self []

theorem Revised.refl (registry : Registry) : registry.Revised registry := by
  intro key
  cases registry.partition? key with
  | none => exact .none
  | some partition => exact .some .refl

theorem Revised.trans {before middle after : Registry} (first : before.Revised middle)
    (second : middle.Revised after) : before.Revised after := by
  intro key
  have firstKey := first key
  have secondKey := second key
  generalize before.partition? key = earlier at firstKey ⊢
  generalize middle.partition? key = halfway at firstKey secondKey
  generalize after.partition? key = later at secondKey ⊢
  cases firstKey with
  | none => exact secondKey
  | some revisions =>
      cases secondKey with
      | some more => exact .some (revisions.trans more)

theorem Revised.snapshot {before after : Registry} (revised : before.Revised after)
    (key : PartitionKey) :
    Partition.Revisions (before.snapshot key).partition (after.snapshot key).partition := by
  have revisedKey := revised key
  unfold Registry.snapshot
  generalize before.partition? key = earlier at revisedKey ⊢
  generalize after.partition? key = later at revisedKey ⊢
  cases revisedKey with
  | none => exact .refl
  | some revisions => exact revisions

theorem leftBehind_run {α : Type} (registry : Registry) (key : PartitionKey)
    (partition : Partition) (step : Partition.Step α) :
    leftBehind (registry.run key partition step) =
      registry.put key (leftBehind (step partition)) := by
  rw [run]
  cases step partition <;> rfl

theorem revised_put {registry : Registry} {key : PartitionKey} {partition left : Partition}
    (present : registry.partition? key = some partition)
    (revisions : Partition.Revisions partition left) :
    registry.Revised (registry.put key left) := by
  intro asked
  by_cases same : asked = key
  · subst same
    rw [present, partition?_put_self]
    exact .some revisions
  · rw [partition?_put_of_ne registry same]
    exact Revised.refl registry asked

theorem revised_within {α : Type} (registry : Registry) (key : PartitionKey)
    {step : Partition.Step α}
    (revisions : ∀ partition, Partition.Revisions partition (leftBehind (step partition))) :
    registry.Revised (leftBehind (within key step registry)) := by
  rw [within]
  split
  · exact .refl registry
  · rename_i partition present
    rw [leftBehind_run]
    exact revised_put present (revisions partition)

/-- A preorder of registries to which claims and releases keep, also those that fail.
Everything else that selecting and claiming does is made of them. -/
structure CoversGroups (relation : Registry → Registry → Prop) : Prop where
  refl (registry : Registry) : relation registry registry
  trans {before middle after : Registry} :
    relation before middle → relation middle after → relation before after
  claim (registry : Registry) (key : PartitionKey) (ids : List FileId) :
    relation registry (leftBehind (registry.claim key ids))
  release (registry : Registry) (key : PartitionKey) (ids : List FileId) :
    relation registry (leftBehind (registry.release key ids))

section CoversGroups

variable {relation : Registry → Registry → Prop} (covers : CoversGroups relation)

include covers

theorem CoversGroups.releaseAll (registry : Registry) (key : PartitionKey)
    (claimed : List Selection.Candidate) :
    relation registry (Selection.releaseAll key registry claimed) := by
  induction claimed generalizing registry with
  | nil => exact covers.refl registry
  | cons candidate rest ih =>
      have released := covers.release registry key candidate.ids
      rw [Selection.releaseAll]
      split <;> rename_i outcome <;> rw [outcome] at released <;>
        exact covers.trans released (ih _)

theorem CoversGroups.claimAll (registry : Registry) (key : PartitionKey)
    (claimed candidates : List Selection.Candidate) :
    relation registry (leftBehind (Selection.claimAll key claimed candidates registry)) := by
  induction candidates generalizing registry claimed with
  | nil => exact covers.refl registry
  | cons candidate rest ih =>
      have changed := covers.claim registry key candidate.ids
      rw [Selection.claimAll]
      split <;> rename_i outcome <;> rw [outcome] at changed
      · exact covers.trans changed (ih _ (claimed ++ [candidate]))
      · exact covers.trans changed (covers.releaseAll _ key claimed)

theorem CoversGroups.selectAndClaim (registry : Registry) (config : Selection.Config)
    (key : PartitionKey) :
    relation registry (leftBehind (Selection.selectAndClaim config key registry)) := by
  rw [Selection.selectAndClaim]
  split
  · exact covers.refl registry
  · rename_i candidates _
    have changed := covers.claimAll registry key [] candidates
    split <;> rename_i outcome <;> rw [outcome] at changed <;> exact changed

theorem CoversGroups.visit (registry : Registry) (config : Selection.Config)
    (round : Selection.Round) (keys : List PartitionKey) :
    relation registry (Selection.visit config round registry keys).2 := by
  induction keys generalizing registry round with
  | nil => exact covers.refl registry
  | cons key rest ih =>
      have changed := covers.selectAndClaim registry config key
      rw [Selection.visit]
      split <;> rename_i outcome <;> rw [outcome] at changed <;>
        exact covers.trans changed (ih _ _)

end CoversGroups

theorem revised_coversGroups : CoversGroups Revised where
  refl := Revised.refl
  trans := Revised.trans
  claim registry key ids :=
    registry.revised_within key fun partition => (Partition.claim_shifts ids partition).revisions
  release registry key ids :=
    registry.revised_within key fun partition =>
      (Partition.move_shifts .closed (by decide) ids partition).revisions

theorem served_addAll (registry : Registry) (key : PartitionKey) (space : Space)
    (files : List DataFile) :
    Served registry (leftBehind (registry.addAll key space files))
      (under key (broughtIn files (registry.addAll key space files))) := by
  rw [addAll]
  split
  · rename_i partition present
    unfold run
    rw [Partition.addAll_eq]
    cases checked : Partition.expectNew space partition.contains [] files with
    | error error =>
        have served := Served.revised (Revised.refl registry)
        simpa [broughtIn, leftBehind, put_of_partition?_eq_some present] using served
    | ok _ =>
        apply Served.entered key _ (Partition.fresh_of_expectNew checked)
        rw [partition_snapshot present]
  · rename_i absent
    rw [Partition.addAll_eq]
    cases checked : Partition.expectNew space Partition.empty.contains [] files with
    | error error =>
        have served := Served.revised (Revised.refl registry)
        simpa [broughtIn, leftBehind] using served
    | ok _ =>
        apply Served.entered key _ (Partition.fresh_of_expectNew checked)
        rw [snapshot, absent]
        exact .refl

theorem served_finish (registry : Registry) (key : PartitionKey) (ids : List FileId)
    (outputs : List DataFile) :
    Served registry (leftBehind (registry.finish key ids outputs))
      (under key (broughtIn outputs (registry.finish key ids outputs))) := by
  rw [finish, within]
  split
  · have served := Served.revised (Revised.refl registry)
    simpa [broughtIn, leftBehind] using served
  · rename_i partition present
    unfold run
    rcases Partition.finish_cases ids outputs partition with
      ⟨error, left, outcome, revisions⟩ | ⟨removed, left, outcome, revisions, fresh⟩
    · rw [outcome]
      have served := Served.revised (revised_put present revisions)
      simpa [broughtIn, leftBehind] using served
    · rw [outcome]
      apply Served.entered key _ fresh
      rw [partition_snapshot present]
      exact revisions

end Registry

/-- Finishing with persistence finishes the group and then writes its sidecars. -/
theorem Store.finishAndPersist_eq (layout : Disk.Layout) (key : PartitionKey)
    (ids : List FileId) (outputs : List DataFile) (store : Store) :
    Store.finishAndPersist layout key ids outputs store =
      match store.registry.finish key ids outputs with
      | .error error registry => .error error ⟨registry, store.disk⟩
      | .ok removed registry =>
          match layout.persistAll key (layout.finishedSidecars key outputs removed) store.disk with
          | .error error disk => .error error ⟨registry, disk⟩
          | .ok _ disk => .ok removed ⟨registry, disk⟩ := by
  change EStateM.bind (Store.onRegistry (Registry.finish key ids outputs)) _ store = _
  unfold EStateM.bind Store.onRegistry
  cases Registry.finish key ids outputs store.registry with
  | error error registry => rfl
  | ok removed registry =>
      change EStateM.bind (Store.onDisk _) _ _ = _
      unfold EStateM.bind Store.onDisk
      dsimp only
      cases layout.persistAll key (layout.finishedSidecars key outputs removed) store.disk <;> rfl

namespace Registry

/-- Writing sidecars does not touch the registry. -/
theorem registry_finishAndPersist (layout : Disk.Layout) (key : PartitionKey)
    (ids : List FileId) (outputs : List DataFile) (store : Store) :
    (leftBehind (Store.finishAndPersist layout key ids outputs store)).registry =
      leftBehind (store.registry.finish key ids outputs) := by
  rw [Store.finishAndPersist_eq]
  cases store.registry.finish key ids outputs with
  | error error registry => rfl
  | ok removed registry =>
      dsimp only
      split <;> rfl

theorem served (registry : Registry) (request : Request) :
    Served registry (registry.serve request) (registry.entering request) := by
  cases request with
  | addAll key space files => exact registry.served_addAll key space files
  | recordWrite key id device time =>
      exact .revised (registry.revised_within key (Partition.recordWrite_revisions id device time))
  | sealFile key id ends =>
      exact .revised (registry.revised_within key (Partition.sealFile_revisions id ends))
  | delete key id => exact .revised (registry.revised_within key (Partition.delete_revisions id))
  | claim key ids => exact .revised (revised_coversGroups.claim registry key ids)
  | release key ids => exact .revised (revised_coversGroups.release registry key ids)
  | start key ids =>
      exact .revised
        (registry.revised_within key fun partition =>
          (Partition.move_shifts .compacting (by decide) ids partition).revisions)
  | abort key ids =>
      exact .revised
        (registry.revised_within key fun partition =>
          (Partition.move_shifts .closed (by decide) ids partition).revisions)
  | finish key ids outputs => exact registry.served_finish key ids outputs
  | finishAndPersist layout disk key ids outputs =>
      have finished := registry.served_finish key ids outputs
      rw [← registry_finishAndPersist layout key ids outputs ⟨registry, disk⟩] at finished
      exact finished
  | selectAndClaim config key =>
      exact .revised (revised_coversGroups.selectAndClaim registry config key)
  | runRound config =>
      exact .revised (revised_coversGroups.visit registry config .empty registry.keys)

/-! ## Requests keep partitions built -/

theorem Built.put {registry : Registry} (built : registry.Built) (key : PartitionKey)
    {partition : Partition} (partitionBuilt : partition.Built) :
    (registry.put key partition).Built := by
  intro asked found present
  by_cases same : asked = key
  · subst same
    rw [partition?_put_self] at present
    cases present
    exact partitionBuilt
  · rw [partition?_put_of_ne registry same] at present
    exact built asked found present

theorem built_empty : empty.Built := by
  intro key partition present
  contradiction

/-- An unknown partition is the one without files. -/
theorem Built.snapshot {registry : Registry} (built : registry.Built) (key : PartitionKey) :
    (registry.snapshot key).partition.Built := by
  unfold Registry.snapshot
  cases present : registry.partition? key with
  | none => exact .refl
  | some partition => exact built key partition present

theorem Built.served {before after : Registry} {entered : PartitionKey → List DataFile}
    (built : before.Built) (served : Served before after entered) : after.Built := by
  cases served with
  | revised revised =>
      intro key partition present
      rw [← partition_snapshot present]
      exact (built.snapshot key).edits (revised.snapshot key).edits
  | entered key revisions fresh =>
      exact built.put key ((built.snapshot key).edits (revisions.edits.trans fresh.edits))

/-! ## Recovery brings files in -/

end Registry

namespace Disk

/-- The file that the sidecar at a path brings back. -/
def restoredAt? (tree : Tree) (path : String) : Option DataFile :=
  match tree.readSidecar path with
  | .error _ => none
  | .ok file => revived? file

/-- The files that the sidecars of a partition in one space bring back, in the order in
which the sidecars are listed. -/
def Layout.restoredIn (layout : Layout) (tree : Tree) (key : PartitionKey) (space : Space) :
    List DataFile :=
  match layout.listSidecars tree space key with
  | .error _ => []
  | .ok sidecars => sidecars.filterMap fun sidecar => restoredAt? tree sidecar.2

/-- The files that the sidecars of a partition bring back, space by space. -/
def Layout.restored (layout : Layout) (tree : Tree) (key : PartitionKey) : List DataFile :=
  Space.all.flatMap (layout.restoredIn tree key)

theorem gains_of_recoverSidecar {tree : Tree} {space : Space} {partition recovered : Partition}
    {name : FileName} {path : String}
    (outcome : recoverSidecar tree space partition name path = .ok recovered) :
    Partition.Gains partition recovered (restoredAt? tree path).toList := by
  rw [recoverSidecar] at outcome
  split at outcome
  · contradiction
  · rename_i file reading
    split at outcome
    · contradiction
    · have restoring : restoredAt? tree path = restored? file := by
        rw [restoredAt?, reading, restored?_eq]
      rw [restoring]
      split at outcome
      · rename_i deleted
        cases outcome
        rw [deleted]
        exact .refl _
      · rename_i restored kept
        rw [kept]
        rw [addRestored] at outcome
        split at outcome
        · contradiction
        · rename_i valid
          split at outcome
          · contradiction
          · rename_i free
            cases outcome
            have isValid : restored.Valid := restored.validate_eq_ok_iff.mp valid
            have isFree : partition.contains restored.id = false := Bool.eq_false_iff.mpr free
            exact ⟨⟨by simpa using isValid, by simpa using isFree, by simp⟩, rfl⟩

theorem gains_of_recoverSidecars {tree : Tree} {space : Space} {partition recovered : Partition}
    {sidecars : List (FileName × String)}
    (outcome : recoverSidecars tree space partition sidecars = .ok recovered) :
    Partition.Gains partition recovered
      (sidecars.filterMap fun sidecar => restoredAt? tree sidecar.2) := by
  induction sidecars generalizing partition with
  | nil =>
      cases outcome
      exact .refl _
  | cons sidecar rest ih =>
      rcases sidecar with ⟨name, path⟩
      rw [recoverSidecars] at outcome
      split at outcome
      · contradiction
      · rename_i middle taken
        have gains := (gains_of_recoverSidecar taken).append (ih outcome)
        rw [List.filterMap_cons]
        cases restored : restoredAt? tree path with
        | none => simpa [restored] using gains
        | some file => simpa [restored] using gains

theorem gains_of_recoverSpaces {layout : Layout} {tree : Tree} {key : PartitionKey}
    {partition recovered : Partition} {spaces : List Space}
    (outcome : layout.recoverSpaces tree key partition spaces = .ok recovered) :
    Partition.Gains partition recovered (spaces.flatMap (layout.restoredIn tree key)) := by
  induction spaces generalizing partition with
  | nil =>
      cases outcome
      exact .refl _
  | cons space rest ih =>
      rw [Layout.recoverSpaces] at outcome
      split at outcome
      · contradiction
      · rename_i sidecars listed
        split at outcome
        · contradiction
        · rename_i middle taken
          have restored_eq : layout.restoredIn tree key space =
              sidecars.filterMap fun sidecar => restoredAt? tree sidecar.2 := by
            rw [Layout.restoredIn, listed]
          rw [List.flatMap_cons, restored_eq]
          exact (gains_of_recoverSidecars taken).append (ih outcome)

theorem gains_of_recoverPartitions {layout : Layout} {tree : Tree} {registry recovered : Registry}
    {keys : List PartitionKey}
    (gained : ∀ key partition, registry.partition? key = some partition →
      Partition.Gains .empty partition (layout.restored tree key))
    (outcome : layout.recoverPartitions tree registry keys = .ok recovered) :
    ∀ key partition, recovered.partition? key = some partition →
      Partition.Gains .empty partition (layout.restored tree key) := by
  induction keys generalizing registry with
  | nil =>
      cases outcome
      exact gained
  | cons first rest ih =>
      rw [Layout.recoverPartitions] at outcome
      split at outcome
      · contradiction
      · rename_i taken recovering
        apply ih _ outcome
        intro key partition present
        by_cases same : key = first
        · subst same
          rw [Registry.partition?_put_self] at present
          cases present
          exact gains_of_recoverSpaces recovering
        · rw [Registry.partition?_put_of_ne registry same] at present
          exact gained key partition present

/-- A recovered partition is filled with the files of its sidecars. -/
theorem gains_of_recover {layout : Layout} {tree : Tree} {registry : Registry}
    (outcome : layout.recover tree = .ok registry) :
    ∀ key partition, registry.partition? key = some partition →
      Partition.Gains .empty partition (layout.restored tree key) := by
  rw [Layout.recover] at outcome
  split at outcome
  · contradiction
  · apply gains_of_recoverPartitions _ outcome
    intro key partition present
    contradiction

end Disk

namespace Registry

theorem built_of_recover {layout : Disk.Layout} {tree : Disk.Tree} {registry : Registry}
    (outcome : layout.recover tree = .ok registry) : registry.Built := by
  intro key partition present
  rcases Disk.gains_of_recover outcome key partition present with ⟨fresh, rfl⟩
  exact fresh.edits

/-! ## Reachable registries -/

theorem Reachable.built {registry : Registry} (reachable : registry.Reachable) :
    registry.Built := by
  induction reachable with
  | empty => exact built_empty
  | recovered outcome => exact built_of_recover outcome
  | served _ request ih => exact ih.served (Registry.served _ request)

/-- Every file in a snapshot of a reachable registry is valid. -/
theorem Reachable.valid_of_find? {registry : Registry} (reachable : registry.Reachable)
    {key : PartitionKey} {id : FileId} {file : DataFile}
    (found : (registry.snapshot key).find? id = some file) : file.Valid := by
  have member := (Partition.mem_of_find?_eq_some found).1
  change file ∈ ((registry.partition? key).getD .empty).files at member
  cases present : registry.partition? key with
  | none =>
      rw [present] at member
      contradiction
  | some partition =>
      rw [present] at member
      exact (reachable.built key partition present).valid file member

end Registry

/-! ## A small registry

One partition in which three sequence files follow each other, while unsequence
files fall into the sequence files, between them, before the expiry and after
them.  The last but one is still unclosed. -/

namespace Sample

def key : PartitionKey :=
  ⟨"group", 0⟩

def file (space : Space) (status : Status) (id : FileId) (spans : List (String × Interval)) :
    DataFile where
  id := id
  space := space
  status := status
  orderingKey := id
  size := 10 * id
  innerLevel := 1
  crossLevel := 0
  devices := .ofList _ (spans.map fun entry => (entry.1, .closed entry.2))

theorem span?_file_iff (space : Space) (status : Status) (id : FileId) (name device : String)
    (interval : Interval) (span : DeviceSpan) :
    (file space status id [(name, interval)]).span? device = some span ↔
      device = name ∧ span = .closed interval := by
  rw [DataFile.span?, SortedMap.get?_eq_some_iff]
  change (device, span) ∈ [(name, DeviceSpan.closed interval)] ↔ _
  rw [List.mem_singleton, Prod.mk.injEq]

def sequence : List DataFile :=
  [ file .sequence .closed 1 [("a", ⟨0, 10⟩)],
    file .sequence .closed 2 [("a", ⟨20, 30⟩)],
    file .sequence .closed 3 [("a", ⟨40, 50⟩)] ]

def unsequence : List DataFile :=
  [ file .unsequence .closed 11 [("a", ⟨45, 46⟩)],
    file .unsequence .closed 12 [("a", ⟨-9, -5⟩)],
    file .unsequence .closed 13 [("a", ⟨32, 35⟩)],
    file .unsequence .closed 14 [("a", ⟨5, 8⟩), ("b", ⟨0, 1⟩)],
    file .unsequence .unclosed 15 [("a", ⟨60, 70⟩)],
    file .unsequence .closed 16 [("a", ⟨60, 70⟩)] ]

def registry : Registry :=
  (Registry.empty.serve (.addAll key .sequence sequence)).serve
    (.addAll key .unsequence unsequence)

theorem registry_reachable : registry.Reachable :=
  (Registry.Reachable.empty.served _).served _

end Sample

end SeriesStore
