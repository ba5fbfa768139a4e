import SeriesStore.Proofs.Partition.Group
import SeriesStore.Proofs.Registry.Consistent
import SeriesStore.Proofs.Registry.Status
import SeriesStore.Proofs.Selection.Budget

/-!
# Moving groups in a registry

What moving a group does to the lists of a partition it does to those under its key,
and nothing else in the registry changes: not another partition, and not the keys
(`Registry.withStatus`).

Claiming candidates that have no member in common succeeds as long as all members are
closed, and makes candidates of all of them.  When one candidate cannot be claimed, those
before it are given back, and the registry is again what it was.
-/

namespace SeriesStore

namespace Registry

open Selection

/-- The registry in which the files of some numbers under a key have another status. -/
def withStatus (registry : Registry) (key : PartitionKey) (status : Status)
    (ids : List FileId) : Registry :=
  match registry.partition? key with
  | none => registry
  | some partition => registry.put key (partition.withStatus status ids)

variable {registry : Registry} {key : PartitionKey} {status other : Status}
  {ids more : List FileId}

theorem partition?_withStatus (registry : Registry) (key : PartitionKey) (status : Status)
    (ids : List FileId) (asked : PartitionKey) :
    (registry.withStatus key status ids).partition? asked =
      (registry.partition? asked).map fun partition =>
        if asked = key then partition.withStatus status ids else partition := by
  unfold withStatus
  by_cases same : asked = key
  · subst same
    cases present : registry.partition? asked <;> simp [present]
  · simp only [same, if_false, Option.map_id']
    split
    · rfl
    · exact partition?_put_of_ne registry same _

theorem keys_withStatus (registry : Registry) (key : PartitionKey) (status : Status)
    (ids : List FileId) : (registry.withStatus key status ids).keys = registry.keys := by
  unfold withStatus
  split
  · rfl
  · rename_i partition present
    exact SortedMap.keys_insert present _

theorem snapshot_withStatus (registry : Registry) (key : PartitionKey) (status : Status)
    (ids : List FileId) :
    ((registry.withStatus key status ids).snapshot key).partition =
      (registry.snapshot key).partition.withStatus status ids := by
  rw [snapshot, snapshot, partition?_withStatus]
  cases registry.partition? key with
  | none => rfl
  | some partition => simp

@[simp]
theorem withStatus_nil (registry : Registry) (key : PartitionKey) (status : Status) :
    registry.withStatus key status [] = registry := by
  apply ext_partition?
  intro asked
  simp [partition?_withStatus]

theorem withStatus_append (registry : Registry) (key : PartitionKey) (status : Status)
    (ids more : List FileId) :
    registry.withStatus key status (ids ++ more) =
      (registry.withStatus key status ids).withStatus key status more := by
  apply ext_partition?
  intro asked
  by_cases same : asked = key <;>
    simp [partition?_withStatus, same, Partition.withStatus_append, Function.comp_def]

theorem withStatus_withStatus (registry : Registry) (key : PartitionKey)
    (status other : Status) (all : ids ⊆ more) :
    (registry.withStatus key other ids).withStatus key status more =
      registry.withStatus key status more := by
  apply ext_partition?
  intro asked
  by_cases same : asked = key <;>
    simp [partition?_withStatus, same, Partition.withStatus_withStatus _ _ _ all,
      Function.comp_def]

/-- Giving files the status that they have changes nothing. -/
theorem withStatus_of_status? (distinct : (registry.snapshot key).partition.Distinct)
    (has : ∀ id ∈ ids, registry.status? key id = some status) :
    registry.withStatus key status ids = registry := by
  apply ext_partition?
  intro asked
  rw [partition?_withStatus]
  by_cases same : asked = key
  · subst same
    cases present : registry.partition? asked with
    | none => rfl
    | some partition =>
        unfold Registry.status? at has
        rw [partition_snapshot present] at distinct has
        rw [Option.map_some, if_pos rfl, Partition.withStatus_of_status? distinct has]
  · simp [same]

theorem status?_withStatus_of_mem {id : FileId} (member : id ∈ ids)
    (registered : registry.status? key id = some other) :
    (registry.withStatus key status ids).status? key id = some status := by
  rw [status?, snapshot_withStatus]
  exact Partition.status?_withStatus_of_mem member registered

theorem status?_withStatus_of_not_mem {id : FileId} (outside : id ∉ ids) :
    (registry.withStatus key status ids).status? key id = registry.status? key id := by
  rw [status?, snapshot_withStatus]
  exact Partition.status?_withStatus_of_not_mem outside

/-! ## Claims and releases -/

theorem within_eq_withStatus {partition : Partition} {step : Partition.Step Unit}
    (present : registry.partition? key = some partition)
    (outcome : step partition = .ok () (partition.withStatus status ids)) :
    within key step registry = .ok () (registry.withStatus key status ids) := by
  rw [within_eq_ok present outcome, withStatus, present]

section Members

variable (distinct : (registry.snapshot key).partition.Distinct) (some_member : ids ≠ [])
  (differ : ids.Nodup)

include distinct some_member differ

theorem claim_eq_withStatus (closed : ∀ id ∈ ids, registry.status? key id = some .closed) :
    registry.claim key ids = .ok () (registry.withStatus key .candidate ids) := by
  rcases List.exists_mem_of_ne_nil ids some_member with ⟨first, member⟩
  rcases exists_partition_of_status? (closed first member) with ⟨partition, present⟩
  unfold status? at closed
  rw [partition_snapshot present] at closed distinct
  exact within_eq_withStatus present (Partition.claim_eq_withStatus distinct differ closed)

theorem move_eq_withStatus {source : Status}
    (members : ∀ id ∈ ids, registry.status? key id = some source)
    (allowed : source.canBecome status) :
    within key (Partition.move source status ids) registry =
      .ok () (registry.withStatus key status ids) := by
  rcases List.exists_mem_of_ne_nil ids some_member with ⟨first, member⟩
  rcases exists_partition_of_status? (members first member) with ⟨partition, present⟩
  unfold status? at members
  rw [partition_snapshot present] at members distinct
  exact within_eq_withStatus present (Partition.move_eq_withStatus distinct differ members allowed)

theorem release_eq_withStatus
    (claimed : ∀ id ∈ ids, registry.status? key id = some .candidate) :
    registry.release key ids = .ok () (registry.withStatus key .closed ids) :=
  move_eq_withStatus distinct some_member differ claimed rfl

end Members

theorem distinct_withStatus (distinct : (registry.snapshot key).partition.Distinct)
    (status : Status) (ids : List FileId) :
    ((registry.withStatus key status ids).snapshot key).partition.Distinct := by
  rw [snapshot_withStatus]
  exact distinct.withStatus status ids

/-! ## All candidates or none -/

/-- Candidates that can be claimed one after the other: each has members, and no number
is a member twice. -/
structure Separate (candidates : List Candidate) : Prop where
  some_member : ∀ candidate ∈ candidates, candidate.ids ≠ []
  differ : (candidates.flatMap Candidate.ids).Nodup

namespace Separate

section Append

variable {first second : List Candidate} (separate : Separate (first ++ second))

include separate

theorem left : Separate first where
  some_member candidate member := separate.some_member candidate (List.mem_append_left _ member)
  differ := by
    have differ := separate.differ
    rw [List.flatMap_append, List.nodup_append] at differ
    exact differ.1

theorem right : Separate second where
  some_member candidate member := separate.some_member candidate (List.mem_append_right _ member)
  differ := by
    have differ := separate.differ
    rw [List.flatMap_append, List.nodup_append] at differ
    exact differ.2.1

theorem outside {id : FileId} (member : id ∈ second.flatMap Candidate.ids) :
    id ∉ first.flatMap Candidate.ids := by
  have differ := separate.differ
  rw [List.flatMap_append, List.nodup_append] at differ
  exact fun isMember => differ.2.2 id isMember id member rfl

end Append

section Member

variable {candidates : List Candidate} (separate : Separate candidates)

include separate

theorem ids_nodup {candidate : Candidate} (member : candidate ∈ candidates) :
    candidate.ids.Nodup :=
  (List.nodup_flatMap.mp separate.differ).1 candidate member

/-- Candidates that differ have no member in common. -/
theorem disjoint {first second : Candidate} (isFirst : first ∈ candidates)
    (isSecond : second ∈ candidates) (ne : first ≠ second) :
    first.ids.Disjoint second.ids := by
  have symmetric : Std.Symm (Function.onFun List.Disjoint Candidate.ids) :=
    ⟨fun _ _ apart => List.Disjoint.symm apart⟩
  exact (List.nodup_flatMap.mp separate.differ).2.forall isFirst isSecond ne

end Member

variable {candidate : Candidate} {rest : List Candidate} (separate : Separate (candidate :: rest))

include separate

theorem head_ne_nil : candidate.ids ≠ [] :=
  separate.some_member candidate List.mem_cons_self

theorem head_nodup : candidate.ids.Nodup :=
  separate.ids_nodup List.mem_cons_self

theorem tail : Separate rest := by
  change Separate ([candidate] ++ rest) at separate
  exact separate.right

/-- Giving the members of the first candidate a status leaves the other members alone. -/
theorem status?_tail {expected : Status}
    (has : ∀ id ∈ (candidate :: rest).flatMap Candidate.ids,
      registry.status? key id = some expected) (status : Status) :
    ∀ id ∈ rest.flatMap Candidate.ids,
      (registry.withStatus key status candidate.ids).status? key id = some expected := by
  intro id member
  change Separate ([candidate] ++ rest) at separate
  have outside := separate.outside member
  rw [List.flatMap_singleton] at outside
  rw [status?_withStatus_of_not_mem outside]
  exact has id (List.mem_append_right _ member)

end Separate

/-- The candidates of a selection can be claimed one after the other. -/
theorem separate_of_selectFrom {config : Config} {snapshot : Snapshot}
    {sequence unsequence : List DataFile} {candidates : List Candidate}
    (selected : selectFrom config snapshot sequence unsequence = .ok candidates) :
    Separate candidates := by
  rcases resolveInput_of_selectFrom selected with ⟨early, late, resolved⟩
  constructor
  case some_member =>
    intro candidate made
    have sound := sound_of_selectFrom resolved selected made
    simp [Candidate.ids, Candidate.files, sound.sequence_ne_nil]
  case differ => exact ids_distinct resolved selected

/-- Giving back candidates that are claimed closes all their members. -/
theorem releaseAll_eq_withStatus {candidates : List Candidate} (separate : Separate candidates)
    (distinct : (registry.snapshot key).partition.Distinct)
    (claimed : ∀ id ∈ candidates.flatMap Candidate.ids,
      registry.status? key id = some .candidate) :
    releaseAll key registry candidates =
      registry.withStatus key .closed (candidates.flatMap Candidate.ids) := by
  induction candidates generalizing registry with
  | nil => exact (withStatus_nil registry key .closed).symm
  | cons candidate rest ih =>
      have own : ∀ id ∈ candidate.ids, registry.status? key id = some .candidate :=
        fun id member => claimed id (List.mem_append_left _ member)
      have released := release_eq_withStatus distinct separate.head_ne_nil separate.head_nodup own
      rw [releaseAll, released]
      dsimp only
      rw [ih separate.tail (distinct_withStatus distinct .closed candidate.ids)
        (separate.status?_tail claimed .closed), ← withStatus_append]
      rfl

/-- Claiming candidates all of whose members are closed succeeds. -/
theorem claimAll_eq_withStatus {candidates : List Candidate} (separate : Separate candidates)
    (distinct : (registry.snapshot key).partition.Distinct)
    (closed : ∀ id ∈ candidates.flatMap Candidate.ids, registry.status? key id = some .closed)
    (claimed : List Candidate) :
    claimAll key claimed candidates registry =
      .ok () (registry.withStatus key .candidate (candidates.flatMap Candidate.ids)) := by
  induction candidates generalizing registry claimed with
  | nil => exact congrArg _ (withStatus_nil registry key .candidate).symm
  | cons candidate rest ih =>
      have own : ∀ id ∈ candidate.ids, registry.status? key id = some .closed :=
        fun id member => closed id (List.mem_append_left _ member)
      have taken := claim_eq_withStatus distinct separate.head_ne_nil separate.head_nodup own
      rw [claimAll, taken]
      dsimp only
      rw [ih separate.tail (distinct_withStatus distinct .candidate candidate.ids)
        (separate.status?_tail closed .candidate), ← withStatus_append]
      rfl

/-- When a candidate cannot be claimed, all those before it are closed again, and nothing
else has changed. -/
theorem claimAll_eq_error {claimed candidates : List Candidate}
    (separate : Separate (claimed ++ candidates))
    (distinct : (registry.snapshot key).partition.Distinct)
    (held : ∀ id ∈ claimed.flatMap Candidate.ids, registry.status? key id = some .candidate)
    {error : Error} {after : Registry}
    (failed : claimAll key claimed candidates registry = .error error after) :
    after = registry.withStatus key .closed (claimed.flatMap Candidate.ids) := by
  induction candidates generalizing registry claimed with
  | nil => contradiction
  | cons candidate rest ih =>
      have own := separate.right
      rw [claimAll] at failed
      rcases registry.claim_cases key own.head_nodup with ⟨cause, refused⟩ | ⟨closed, _⟩
      · rw [refused] at failed
        cases failed
        exact releaseAll_eq_withStatus separate.left distinct held
      · rw [claim_eq_withStatus distinct own.head_ne_nil own.head_nodup closed] at failed
        have outside : ∀ id ∈ candidate.ids, id ∉ claimed.flatMap Candidate.ids :=
          fun id member => separate.outside (List.mem_append_left _ member)
        have heldNext : ∀ id ∈ (claimed ++ [candidate]).flatMap Candidate.ids,
            (registry.withStatus key .candidate candidate.ids).status? key id =
              some .candidate := by
          intro id member
          by_cases isOwn : id ∈ candidate.ids
          · exact status?_withStatus_of_mem isOwn (closed id isOwn)
          · rw [status?_withStatus_of_not_mem isOwn]
            rw [List.flatMap_append, List.flatMap_singleton] at member
            exact held id ((List.mem_append.mp member).resolve_right isOwn)
        have separateNext : Separate ((claimed ++ [candidate]) ++ rest) := by
          rwa [List.append_assoc]
        have restored := ih separateNext (distinct_withStatus distinct _ _) heldNext failed
        rw [List.flatMap_append, List.flatMap_singleton] at restored
        -- The candidate itself was closed before, so closing it again restores it.
        have closedStill : ∀ id ∈ candidate.ids,
            (registry.withStatus key .closed (claimed.flatMap Candidate.ids)).status? key id =
              some .closed := by
          intro id member
          rw [status?_withStatus_of_not_mem (outside id member)]
          exact closed id member
        rw [restored, withStatus_withStatus _ _ _ _ (List.subset_append_right _ _),
          withStatus_append, withStatus_of_status? (distinct_withStatus distinct _ _) closedStill]

end Registry

end SeriesStore
