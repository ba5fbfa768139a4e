import SeriesStore.Proofs.Partition.Fill
import SeriesStore.Proofs.Registry.Deletion

/-!
# What finishing a group leaves behind

Finishing a group moves its members to deleted, takes them out one after the other by their
numbers and then places the outputs, which may carry the numbers that have just left.  All
of this comes to one change of the two lists (`Partition.swap`): the unsequence list loses
the members, and the sequence list is that without the members and with the outputs behind
it, sorted by key so that files of one key keep their order.

What the checks ask for before anything changes is all that is needed for success
(`Partition.Mergeable`).
-/

namespace SeriesStore

namespace Partition

variable {partition left : Partition} {ids : List FileId} {outputs removed : List DataFile}

/-- The partition in which outputs stand in the place of the members of a group. -/
def swap (partition : Partition) (ids : List FileId) (outputs : List DataFile) : Partition where
  sequence := sortByKey ((partition.without ids).sequence ++ outputs)
  unsequence := (partition.without ids).unsequence

theorem mem_files_swap (partition : Partition) (ids : List FileId) (outputs : List DataFile)
    (file : DataFile) :
    file ∈ (partition.swap ids outputs).files ↔
      (file ∈ partition.files ∧ file.id ∉ ids) ∨ file ∈ outputs := by
  rw [← mem_files_without, mem_files, mem_files, swap, (sortByKey_perm _).mem_iff,
    List.mem_append, or_right_comm]

/-- Whether a group is being merged and may be finished with some outputs. -/
structure Mergeable (partition : Partition) (ids : List FileId) (outputs : List DataFile) :
    Prop where
  members : ∀ id ∈ ids, partition.status? id = some .compacting
  valid : ∀ file ∈ outputs, file.Valid
  inSequence : ∀ file ∈ outputs, file.space = .sequence
  ownOrFree : ∀ file ∈ outputs, partition.find? file.id = none ∨ file.id ∈ ids
  distinct : (outputs.map DataFile.id).Nodup

/-- The members and the outputs pass the checks just when the group may be finished. -/
theorem mergeable_iff (partition : Partition) (ids : List FileId) (outputs : List DataFile) :
    partition.Mergeable ids outputs ↔
      partition.expectStatus .compacting .deleted ids = .ok () ∧
        expectNew .sequence (fun id => partition.contains id && !ids.contains id) [] outputs =
          .ok () := by
  have free_iff : ∀ id, (partition.contains id && !ids.contains id) = false ↔
      partition.find? id = none ∨ id ∈ ids := by
    intro id
    by_cases member : id ∈ ids <;> simp [contains, member]
  rw [expectStatus_eq_ok_iff, expectNew_eq_ok_iff]
  simp only [free_iff, ← status?_eq_some_iff]
  constructor
  · intro mergeable
    refine ⟨mergeable.members, fun file member => ?_, mergeable.distinct⟩
    exact ⟨mergeable.valid file member, mergeable.inSequence file member,
      mergeable.ownOrFree file member, List.not_mem_nil⟩
  · rintro ⟨members, each, distinct⟩
    exact ⟨members, fun file member => (each file member).1,
      fun file member => (each file member).2.1, fun file member => (each file member).2.2.1,
      distinct⟩

theorem exists_finish_iff (differ : ids.Nodup) :
    (∃ removed left, finish ids outputs partition = .ok removed left) ↔
      partition.Mergeable ids outputs := by
  rw [mergeable_iff]
  constructor
  · rintro ⟨removed, left, outcome⟩
    rw [finish_eq] at outcome
    split at outcome
    · contradiction
    split at outcome
    · contradiction
    rename_i members _ accepted
    exact ⟨members, accepted⟩
  · rintro ⟨members, accepted⟩
    have compacting : ∀ id ∈ ids, partition.status? id = some .compacting := by
      intro id member
      rw [status?_eq_some_iff]
      exact (expectStatus_eq_ok_iff _ _ _ _).mp members id member
    rcases finish_cases_of_compacting differ compacting outputs with finished | ⟨error, _, refused⟩
    · exact finished
    · rw [accepted] at refused
      contradiction

/-- Outputs that come in after the members have left are sorted into the sequence list. -/
theorem insertAll_without (sorted : partition.sequence.Pairwise InKeyOrder)
    (inSequence : ∀ file ∈ outputs, file.space = .sequence) :
    (partition.without ids).insertAll outputs = partition.swap ids outputs := by
  have all : ofSpace .sequence outputs = outputs := by
    rw [ofSpace, List.filter_eq_self]
    exact fun file member => decide_eq_true (inSequence file member)
  have none : ofSpace .unsequence outputs = [] := by
    rw [ofSpace, List.filter_eq_nil_iff]
    intro file member
    rw [inSequence file member]
    decide
  have sequence := sequence_insertAll_eq_sortByKey (partition.without ids) outputs
    (sorted.filter _)
  have unsequence := unsequence_insertAll (partition.without ids) outputs
  rw [all] at sequence
  rw [none, List.append_nil] at unsequence
  rw [swap, ← sequence, ← unsequence]

theorem eq_swap_of_finish (distinct : partition.Distinct)
    (sorted : partition.sequence.Pairwise InKeyOrder)
    (outcome : finish ids outputs partition = .ok removed left) :
    left = partition.swap ids outputs ∧
      removed.map some = ids.map fun id =>
        (partition.find? id).map fun own => { own with status := .deleted } := by
  rw [finish_eq] at outcome
  split at outcome
  · contradiction
  split at outcome
  · contradiction
  rename_i accepted
  split at outcome
  · contradiction
  rename_i gone retired retiring
  cases outcome
  rcases eq_without_of_retire distinct retiring with ⟨rfl, removed_eq⟩
  have inSequence : ∀ file ∈ outputs, file.space = .sequence :=
    fun file member => (((expectNew_eq_ok_iff _ _ _ _).mp accepted).1 file member).2.1
  exact ⟨insertAll_without sorted inSequence, removed_eq⟩

theorem Consistent.inKeyOrder {log : List FileId} (consistent : partition.Consistent log) :
    partition.sequence.Pairwise InKeyOrder :=
  consistent.sequence_order.imp ListedBefore.orderingKey_le

end Partition

namespace Registry

open Selection

/-- Finishing a group succeeds just when all members are being merged and the outputs are
valid sequence files of different numbers, each of them free or that of a member.  It then
puts the outputs in the place of the members, as a stable sort by key does, changes nothing
else, and returns the members in their order as they were registered, but as deleted. -/
theorem finish_swaps_members_for_outputs {registry : Registry} (reachable : registry.Reachable)
    (key : PartitionKey) {candidate : Candidate} (selected : candidate.Selected)
    (outputs : List DataFile) :
    ((∃ removed after, registry.finish key candidate.ids outputs = .ok removed after) ↔
      ∃ partition, registry.partition? key = some partition ∧
        partition.Mergeable candidate.ids outputs) ∧
    ∀ removed after, registry.finish key candidate.ids outputs = .ok removed after →
      ∃ partition, registry.partition? key = some partition ∧
        after = registry.put key (partition.swap candidate.ids outputs) ∧
        removed.map some = candidate.ids.map fun id =>
          (partition.find? id).map fun own => { own with status := .deleted } := by
  have finish_iff := fun removed after =>
    within_eq_ok_iff registry after key (Partition.finish candidate.ids outputs) removed
  constructor
  · constructor
    · rintro ⟨removed, after, outcome⟩
      rcases (finish_iff removed after).mp outcome with ⟨partition, left, present, finished, _⟩
      have mergeable := (Partition.exists_finish_iff selected.ids_nodup).mp ⟨removed, left, finished⟩
      exact ⟨partition, present, mergeable⟩
    · rintro ⟨partition, present, mergeable⟩
      rcases (Partition.exists_finish_iff selected.ids_nodup).mpr mergeable with
        ⟨removed, left, finished⟩
      exact ⟨removed, _, within_eq_ok present finished⟩
  · intro removed after outcome
    rcases (finish_iff removed after).mp outcome with ⟨partition, left, present, finished, rfl⟩
    rcases reachable.consistent key with ⟨log, consistent⟩
    rw [partition_snapshot present] at consistent
    rcases Partition.eq_swap_of_finish consistent.distinct consistent.inKeyOrder finished with
      ⟨rfl, removed_eq⟩
    exact ⟨partition, present, rfl, removed_eq⟩

end Registry

/-! ## Outputs that take over numbers

The second candidate is finished with two outputs that have the numbers of its members.  One
of them comes from the other space and has the key of a file that stays. -/

namespace Sample

def midMerge : Partition where
  sequence := [ file .sequence .closed 1 [("a", ⟨0, 10⟩)],
    file .sequence .compacting 2 [("a", ⟨20, 30⟩)],
    file .sequence .closed 3 [("a", ⟨40, 50⟩)] ]
  unsequence := [ file .unsequence .closed 11 [("a", ⟨45, 46⟩)],
    file .unsequence .closed 12 [("a", ⟨-9, -5⟩)],
    file .unsequence .compacting 13 [("a", ⟨32, 35⟩)],
    file .unsequence .closed 14 [("a", ⟨5, 8⟩), ("b", ⟨0, 1⟩)],
    file .unsequence .unclosed 15 [("a", ⟨60, 70⟩)],
    file .unsequence .closed 16 [("a", ⟨60, 70⟩)] ]

/-- The smaller key comes last. -/
def outputs : List DataFile :=
  [output, file .sequence .closed 2 [("a", ⟨20, 30⟩)]]

theorem partition?_started : started.partition? key = some midMerge := by
  decide +kernel

theorem mergeable_midMerge : midMerge.Mergeable second.ids outputs := by
  rw [Partition.mergeable_iff]
  decide +kernel

theorem sequence_swap :
    (midMerge.swap second.ids outputs).sequence =
      [ file .sequence .closed 1 [("a", ⟨0, 10⟩)], file .sequence .closed 2 [("a", ⟨20, 30⟩)],
        file .sequence .closed 3 [("a", ⟨40, 50⟩)], output ] := by
  have staying : (midMerge.without second.ids).sequence ++ outputs =
      [ file .sequence .closed 1 [("a", ⟨0, 10⟩)], file .sequence .closed 3 [("a", ⟨40, 50⟩)],
        output ] ++ [file .sequence .closed 2 [("a", ⟨20, 30⟩)]] := by
    decide +kernel
  rw [Partition.swap, staying, ← Partition.placeByKey_sortByKey,
    Partition.sortByKey_of_pairwise (by decide +kernel)]
  decide +kernel

end Sample

namespace Registry

theorem finish_swaps_members_for_outputs_sample :
    ∃ after,
      Sample.started.finish Sample.key Sample.second.ids Sample.outputs =
        .ok [ Sample.file .sequence .deleted 2 [("a", ⟨20, 30⟩)],
          Sample.file .unsequence .deleted 13 [("a", ⟨32, 35⟩)] ] after ∧
      (after.snapshot Sample.key).sequence =
        [ Sample.file .sequence .closed 1 [("a", ⟨0, 10⟩)],
          Sample.file .sequence .closed 2 [("a", ⟨20, 30⟩)],
          Sample.file .sequence .closed 3 [("a", ⟨40, 50⟩)], Sample.output ] := by
  rcases finish_swaps_members_for_outputs Sample.started_reachable Sample.key
    Sample.second_selected Sample.outputs with ⟨succeeds, effect⟩
  rcases succeeds.mpr ⟨_, Sample.partition?_started, Sample.mergeable_midMerge⟩ with
    ⟨removed, after, outcome⟩
  rcases effect removed after outcome with ⟨partition, present, after_eq, removed_eq⟩
  rw [Sample.partition?_started, Option.some.injEq] at present
  subst present
  have members : removed = [ Sample.file .sequence .deleted 2 [("a", ⟨20, 30⟩)],
      Sample.file .unsequence .deleted 13 [("a", ⟨32, 35⟩)] ] := by
    apply List.map_injective_iff.mpr (Option.some_injective DataFile)
    rw [removed_eq]
    decide +kernel
  rw [members] at outcome
  refine ⟨after, outcome, ?_⟩
  rw [after_eq, Snapshot.sequence, partition_snapshot (partition?_put_self _ _ _)]
  exact Sample.sequence_swap

end Registry

end SeriesStore
