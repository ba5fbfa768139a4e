import SeriesStore.Proofs.Registry.Reachable
import SeriesStore.Selection.Crew

/-!
# What a worker sees and changes

A step on the partition of one key reads and changes nothing but this partition
(`Registry.Local`).  So do claims and releases, and with them selecting and claiming:
what comes of it is decided by the partition alone, whatever happens under other keys
meanwhile.

The same holds for a worker that is on its way.  `Progress.complete` is what comes of the
worker if it goes on undisturbed, and none of its steps changes that.
-/

namespace SeriesStore

namespace Registry

/-- The outcome of a step on the partition of a key, and the partition afterwards. -/
def seen {α : Type} (key : PartitionKey) :
    EStateM.Result Error Registry α → Except Error α × Option Partition
  | .ok value after => (.ok value, after.partition? key)
  | .error error after => (.error error, after.partition? key)

/-- A step that reads and changes the partition of one key only. -/
structure Local {α : Type} (key : PartitionKey) (step : Step α) : Prop where
  sees (first second : Registry) (same : first.partition? key = second.partition? key) :
    seen key (step first) = seen key (step second)
  spares (registry : Registry) (other : PartitionKey) (apart : other ≠ key) :
    (leftBehind (step registry)).partition? other = registry.partition? other

theorem local_within {α : Type} (key : PartitionKey) (step : Partition.Step α) :
    Local key (within key step) where
  sees first second same := by
    rw [within, within, same]
    cases second.partition? key with
    | none => rw [seen, seen, same]
    | some partition =>
        dsimp only
        rw [run, run]
        cases step partition with
        | ok value left => rw [seen, seen, partition?_put_self, partition?_put_self]
        | error error left => rw [seen, seen, partition?_put_self, partition?_put_self]
  spares registry other apart := by
    rw [within]
    split
    · rfl
    · rw [leftBehind_run]
      exact partition?_put_of_ne registry apart _

/-- Steps that see the same partition end alike. -/
theorem seen_cases {α : Type} {key : PartitionKey} {first second : EStateM.Result Error Registry α}
    (same : seen key first = seen key second) :
    (∃ value left right, first = .ok value left ∧ second = .ok value right ∧
        left.partition? key = right.partition? key) ∨
      ∃ error left right, first = .error error left ∧ second = .error error right ∧
        left.partition? key = right.partition? key := by
  cases first with
  | ok value left =>
      cases second with
      | ok other right =>
          rw [seen, seen, Prod.mk.injEq, Except.ok.injEq] at same
          rcases same with ⟨rfl, agree⟩
          exact .inl ⟨value, left, right, rfl, rfl, agree⟩
      | error error right => cases congrArg Prod.fst same
  | error error left =>
      cases second with
      | ok value right => cases congrArg Prod.fst same
      | error other right =>
          rw [seen, seen, Prod.mk.injEq, Except.error.injEq] at same
          rcases same with ⟨rfl, agree⟩
          exact .inr ⟨error, left, right, rfl, rfl, agree⟩

end Registry

namespace Selection

open Registry (Local seen local_within seen_cases)

variable {config : Config} {key : PartitionKey}

/-! ## Selecting and claiming -/

theorem releaseAll_cons (key : PartitionKey) (registry : Registry) (candidate : Candidate)
    (rest : List Candidate) :
    releaseAll key registry (candidate :: rest) =
      releaseAll key (leftBehind (registry.release key candidate.ids)) rest := by
  rw [releaseAll]
  cases registry.release key candidate.ids <;> rfl

theorem partition?_releaseAll {first second : Registry}
    (same : first.partition? key = second.partition? key) (claimed : List Candidate) :
    (releaseAll key first claimed).partition? key =
      (releaseAll key second claimed).partition? key := by
  induction claimed generalizing first second with
  | nil => exact same
  | cons candidate rest ih =>
      rw [releaseAll_cons, releaseAll_cons]
      apply ih
      have released := (local_within key (Partition.release candidate.ids)).sees first second same
      rw [Registry.release]
      rcases seen_cases released with ⟨_, _, _, one, two, agree⟩ | ⟨_, _, _, one, two, agree⟩ <;>
        rw [one, two] <;> exact agree

theorem partition?_releaseAll_of_ne {other : PartitionKey} (apart : other ≠ key)
    (registry : Registry) (claimed : List Candidate) :
    (releaseAll key registry claimed).partition? other = registry.partition? other := by
  induction claimed generalizing registry with
  | nil => rfl
  | cons candidate rest ih =>
      rw [releaseAll_cons, ih]
      exact (local_within key _).spares registry other apart

theorem local_claimAll (claimed candidates : List Candidate) :
    Local key (claimAll key claimed candidates) := by
  induction candidates generalizing claimed with
  | nil => exact ⟨fun first second same => by simp [claimAll, seen, same], fun _ _ _ => rfl⟩
  | cons candidate rest ih =>
      have claim := local_within key (Partition.claim candidate.ids)
      constructor
      · intro first second same
        rw [claimAll, claimAll, Registry.claim]
        rcases seen_cases (claim.sees first second same) with
          ⟨_, left, right, one, two, agree⟩ | ⟨error, left, right, one, two, agree⟩
        · rw [one, two]
          exact (ih _).sees left right agree
        · rw [one, two]
          dsimp only
          rw [seen, seen, partition?_releaseAll agree]
      · intro registry other apart
        have spared := claim.spares registry other apart
        rw [claimAll, Registry.claim]
        cases outcome : Registry.within key (Partition.claim candidate.ids) registry with
        | ok value changed =>
            rw [outcome] at spared
            exact ((ih _).spares changed other apart).trans spared
        | error error changed =>
            rw [outcome] at spared
            exact (partition?_releaseAll_of_ne apart changed claimed).trans spared

theorem snapshot_congr {first second : Registry}
    (same : first.partition? key = second.partition? key) :
    first.snapshot key = second.snapshot key := by
  rw [Registry.snapshot, Registry.snapshot, same]

theorem local_selectAndClaim (config : Config) (key : PartitionKey) :
    Local key (selectAndClaim config key) where
  sees first second same := by
    rw [selectAndClaim, selectAndClaim, snapshot_congr same]
    cases select config (second.snapshot key) with
    | error error => rw [seen, seen, same]
    | ok candidates =>
        dsimp only
        rcases seen_cases ((local_claimAll [] candidates).sees first second same) with
          ⟨_, _, _, one, two, agree⟩ | ⟨_, _, _, one, two, agree⟩ <;>
          rw [one, two, seen, seen, agree]
  spares registry other apart := by
    rw [selectAndClaim]
    cases select config (registry.snapshot key) with
    | error error => rfl
    | ok candidates =>
        have spared := (local_claimAll [] candidates).spares registry other apart
        dsimp only
        cases outcome : claimAll key [] candidates registry <;> rw [outcome] at spared <;>
          exact spared

/-! ## A worker on its way -/

/-- What comes of a worker that goes on undisturbed. -/
def Progress.complete (config : Config) (key : PartitionKey) :
    Progress → Registry → EStateM.Result Error Registry (List Candidate)
  | .waiting, registry => selectAndClaim config key registry
  | .claiming claimed rest, registry =>
      match claimAll key claimed rest registry with
      | .ok () changed => .ok (claimed ++ rest) changed
      | .error error changed => .error error changed
  | .givingBack error rest, registry => .error error (releaseAll key registry rest)
  | .finished (.ok candidates), registry => .ok candidates registry
  | .finished (.error error), registry => .error error registry

/-- A step of a worker does not change what comes of it. -/
theorem Progress.complete_step (progress : Progress) (registry : Registry) :
    (progress.step config key registry).1.complete config key
        (progress.step config key registry).2 =
      progress.complete config key registry := by
  cases progress with
  | waiting =>
      rw [Progress.step, Progress.complete, selectAndClaim]
      cases select config (registry.snapshot key) with
      | error error => rfl
      | ok candidates =>
          dsimp only
          rw [Progress.complete]
          cases claimAll key [] candidates registry <;> rfl
  | claiming claimed rest =>
      cases rest with
      | nil =>
          rw [Progress.step, Progress.complete, Progress.complete, claimAll, List.append_nil]
      | cons candidate rest =>
          rw [Progress.step, Progress.complete, claimAll]
          cases registry.claim key candidate.ids with
          | ok value changed =>
              dsimp only
              rw [Progress.complete, List.append_assoc]
              rfl
          | error error changed => rfl
  | givingBack error rest =>
      cases rest with
      | nil => rfl
      | cons candidate rest =>
          rw [Progress.step, Progress.complete, releaseAll]
          cases registry.release key candidate.ids <;> rfl
  | finished outcome => rfl

theorem Progress.partition?_step {other : PartitionKey} (apart : other ≠ key)
    (progress : Progress) (registry : Registry) :
    (progress.step config key registry).2.partition? other = registry.partition? other := by
  cases progress with
  | waiting =>
      rw [Progress.step]
      split <;> rfl
  | claiming claimed rest =>
      cases rest with
      | nil => rfl
      | cons candidate rest =>
          have spared := (local_within key (Partition.claim candidate.ids)).spares registry other
            apart
          rw [Progress.step, Registry.claim]
          split <;> rename_i outcome <;> rw [outcome] at spared <;> exact spared
  | givingBack error rest =>
      cases rest with
      | nil => rfl
      | cons candidate rest =>
          have spared := (local_within key (Partition.release candidate.ids)).spares registry other
            apart
          rw [Progress.step, Registry.release]
          split <;> rename_i outcome <;> rw [outcome] at spared <;> exact spared
  | finished outcome => rfl

/-- What comes of a worker is decided by its own partition. -/
theorem Progress.seen_complete {first second : Registry}
    (same : first.partition? key = second.partition? key) (progress : Progress) :
    seen key (progress.complete config key first) =
      seen key (progress.complete config key second) := by
  cases progress with
  | waiting => exact (local_selectAndClaim config key).sees first second same
  | claiming claimed rest =>
      rw [Progress.complete, Progress.complete]
      rcases seen_cases ((local_claimAll claimed rest).sees first second same) with
        ⟨_, _, _, one, two, agree⟩ | ⟨_, _, _, one, two, agree⟩ <;>
        simp only [one, two, seen, agree]
  | givingBack error rest => simp only [Progress.complete, seen, partition?_releaseAll same rest]
  | finished outcome => cases outcome <;> simp only [Progress.complete, seen, same]

end Selection

end SeriesStore
