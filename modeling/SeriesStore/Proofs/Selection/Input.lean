import Mathlib.Data.List.Perm.Subperm
import SeriesStore.Proofs.File.Order
import SeriesStore.Selection.Input

/-!
# Resolved input

A list of files is accepted when no number occurs twice in it and every file is accepted on
its own; what it is resolved to are the snapshot's files of the given numbers.  So any part
of accepted input, in any order, is accepted as well.  The resolved sequence files increase
strictly.
-/

namespace SeriesStore

/-- The snapshot's files of the numbers of the given ones. -/
def Snapshot.viewOf (snapshot : Snapshot) (given : List DataFile) : List DataFile :=
  given.filterMap fun file => snapshot.find? file.id

theorem Snapshot.id_of_find? {snapshot : Snapshot} {id : FileId} {file : DataFile}
    (found : snapshot.find? id = some file) : file.id = id :=
  (Partition.mem_of_find?_eq_some found).2

theorem Snapshot.viewOf_cons_of_find? {snapshot : Snapshot} {file found : DataFile}
    (found_eq : snapshot.find? file.id = some found) (rest : List DataFile) :
    snapshot.viewOf (file :: rest) = found :: snapshot.viewOf rest := by
  simp [viewOf, found_eq]

theorem Snapshot.mem_viewOf (snapshot : Snapshot) (given : List DataFile) (file : DataFile) :
    file ∈ snapshot.viewOf given ↔ ∃ other ∈ given, snapshot.find? other.id = some file :=
  List.mem_filterMap

theorem Snapshot.viewOf_append (snapshot : Snapshot) (first second : List DataFile) :
    snapshot.viewOf (first ++ second) = snapshot.viewOf first ++ snapshot.viewOf second :=
  List.filterMap_append

namespace Selection

/-- A file that a selection accepts on its own, and the snapshot's file for it. -/
structure Accepts (snapshot : Snapshot) (space : Space) (given recorded : DataFile) : Prop where
  placed : given.space = space
  valid : given.Valid
  found : snapshot.find? given.id = some recorded
  live : recorded.status ≠ .deleted
  agreed : given.status = recorded.status

/-- Files that a selection accepts after files with the numbers in `seen`. -/
structure AcceptsAll (snapshot : Snapshot) (space : Space) (seen : List FileId)
    (given : List DataFile) : Prop where
  distinct : (given.map DataFile.id).Nodup
  unseen : ∀ file ∈ given, file.id ∉ seen
  accepted : ∀ file ∈ given, ∃ recorded, Accepts snapshot space file recorded

/-- What the accepted input of a selection is like. -/
structure Resolved (snapshot : Snapshot) (sequence unsequence early late : List DataFile) :
    Prop where
  early_ids : (early.map DataFile.id).Perm (sequence.map DataFile.id)
  late_ids : late.map DataFile.id = unsequence.map DataFile.id
  recorded : ∀ file ∈ early ++ late, snapshot.find? file.id = some file
  distinct : ((early ++ late).map DataFile.id).Nodup
  increasing : early.Pairwise DataFile.SortsBefore

/-! ## Accepted files -/

section Accepted

variable {snapshot : Snapshot} {space : Space} {seen : List FileId}
  {first found recorded : DataFile} {given rest all : List DataFile}

theorem resolve_eq_ok_iff :
    resolve snapshot space seen first = .ok recorded ↔
      first.id ∉ seen ∧ Accepts snapshot space first recorded := by
  constructor
  · intro outcome
    rw [resolve] at outcome
    split at outcome
    · contradiction
    · rename_i placed
      split at outcome
      · contradiction
      · rename_i fresh
        split at outcome
        · contradiction
        · rename_i validated
          split at outcome
          · contradiction
          · rename_i present
            split at outcome
            · contradiction
            · rename_i live
              split at outcome
              · contradiction
              · rename_i agreed
                cases outcome
                rw [ne_eq, not_not] at placed agreed
                have valid := (first.validate_eq_ok_iff).mp validated
                exact ⟨by simpa using fresh, placed, valid, present, fun gone => live (.inl gone),
                  agreed.symm⟩
  · rintro ⟨fresh, accepts⟩
    have validated : first.validate = .ok () := (first.validate_eq_ok_iff).mpr accepts.valid
    simp [resolve, accepts.placed, fresh, validated, accepts.found, accepts.live, accepts.agreed]

theorem resolveAll_cons_eq_ok_iff :
    resolveAll snapshot space seen (first :: rest) = .ok all ↔
      ∃ recorded others, resolve snapshot space seen first = .ok recorded ∧
        resolveAll snapshot space (first.id :: seen) rest = .ok others ∧
        all = recorded :: others := by
  rw [resolveAll]
  cases resolve snapshot space seen first with
  | error error => simp
  | ok recorded =>
      cases resolveAll snapshot space (first.id :: seen) rest with
      | error error => simp
      | ok others => simp [eq_comm]

theorem acceptsAll_cons_iff :
    AcceptsAll snapshot space seen (first :: rest) ↔
      first.id ∉ seen ∧ (∃ recorded, Accepts snapshot space first recorded) ∧
        AcceptsAll snapshot space (first.id :: seen) rest := by
  constructor
  · rintro ⟨distinct, unseen, accepted⟩
    rw [List.map_cons, List.nodup_cons] at distinct
    rw [List.forall_mem_cons] at unseen accepted
    refine ⟨unseen.1, accepted.1, distinct.2, ?_, accepted.2⟩
    intro other member again
    rcases List.mem_cons.mp again with same | again
    · exact distinct.1 (same ▸ List.mem_map_of_mem member)
    · exact unseen.2 other member again
  · rintro ⟨fresh, accepts, distinct, unseen, accepted⟩
    constructor
    case distinct =>
      rw [List.map_cons, List.nodup_cons]
      refine ⟨fun repeated => ?_, distinct⟩
      rcases List.mem_map.mp repeated with ⟨other, member, same⟩
      exact unseen other member (same ▸ List.mem_cons_self)
    case unseen =>
      rw [List.forall_mem_cons]
      exact ⟨fresh, fun other member again => unseen other member (List.mem_cons_of_mem _ again)⟩
    case accepted => exact List.forall_mem_cons.mpr ⟨accepts, accepted⟩

/-- Accepted files become the snapshot's files of their numbers. -/
theorem resolveAll_eq_ok_iff :
    resolveAll snapshot space seen given = .ok all ↔
      AcceptsAll snapshot space seen given ∧ all = snapshot.viewOf given := by
  induction given generalizing seen all with
  | nil =>
      have nothing : AcceptsAll snapshot space seen [] :=
        ⟨List.nodup_nil, fun _ member => absurd member List.not_mem_nil,
          fun _ member => absurd member List.not_mem_nil⟩
      simp [resolveAll, nothing, Snapshot.viewOf, eq_comm]
  | cons first rest ih =>
      simp only [resolveAll_cons_eq_ok_iff, resolve_eq_ok_iff, ih, acceptsAll_cons_iff]
      constructor
      · rintro ⟨recorded, others, ⟨fresh, accepts⟩, ⟨acceptsRest, rfl⟩, rfl⟩
        exact ⟨⟨fresh, ⟨recorded, accepts⟩, acceptsRest⟩,
          (Snapshot.viewOf_cons_of_find? accepts.found rest).symm⟩
      · rintro ⟨⟨fresh, ⟨recorded, accepts⟩, acceptsRest⟩, rfl⟩
        exact ⟨recorded, snapshot.viewOf rest, ⟨fresh, accepts⟩, ⟨acceptsRest, rfl⟩,
          Snapshot.viewOf_cons_of_find? accepts.found rest⟩

theorem resolveInput_eq_ok_iff {sequence unsequence early late : List DataFile} :
    resolveInput snapshot sequence unsequence = .ok (early, late) ↔
      (AcceptsAll snapshot .sequence [] sequence ∧
        AcceptsAll snapshot .unsequence (sequence.map DataFile.id) unsequence) ∧
      early = (snapshot.viewOf sequence).mergeSort DataFile.comesFirst ∧
      late = snapshot.viewOf unsequence := by
  rw [resolveInput]
  constructor
  · intro outcome
    split at outcome
    · contradiction
    · rename_i found foundOutcome
      split at outcome
      · contradiction
      · rename_i others othersOutcome
        cases outcome
        obtain ⟨acceptsEarly, rfl⟩ := resolveAll_eq_ok_iff.mp foundOutcome
        obtain ⟨acceptsLate, rfl⟩ := resolveAll_eq_ok_iff.mp othersOutcome
        exact ⟨⟨acceptsEarly, acceptsLate⟩, rfl, rfl⟩
  · rintro ⟨⟨acceptsEarly, acceptsLate⟩, rfl, rfl⟩
    rw [resolveAll_eq_ok_iff.mpr ⟨acceptsEarly, rfl⟩]
    simp only [resolveAll_eq_ok_iff.mpr ⟨acceptsLate, rfl⟩]

namespace AcceptsAll

variable (accepts : AcceptsAll snapshot space seen given)

include accepts

theorem map_id_viewOf : (snapshot.viewOf given).map DataFile.id = given.map DataFile.id := by
  induction given generalizing seen with
  | nil => rfl
  | cons first rest ih =>
      obtain ⟨_, ⟨recorded, first_accepted⟩, acceptsRest⟩ := acceptsAll_cons_iff.mp accepts
      rw [Snapshot.viewOf_cons_of_find? first_accepted.found, List.map_cons, List.map_cons,
        Snapshot.id_of_find? first_accepted.found, ih acceptsRest]

/-- A part of accepted files is accepted in any order, also after fewer files. -/
theorem of_subperm {chosen : List DataFile} {earlier : List FileId} (part : chosen.Subperm given)
    (fewer : earlier ⊆ seen) : AcceptsAll snapshot space earlier chosen := by
  constructor
  case distinct =>
    obtain ⟨inOrder, perm, sublist⟩ := part
    exact (perm.map DataFile.id).nodup_iff.mp ((sublist.map DataFile.id).nodup accepts.distinct)
  case unseen => exact fun file member again =>
    accepts.unseen file (part.subset member) (fewer again)
  case accepted => exact fun file member => accepts.accepted file (part.subset member)

end AcceptsAll

end Accepted

/-! ## Accepted input -/

section Input

variable {snapshot : Snapshot} {sequence unsequence early late : List DataFile}
  (outcome : resolveInput snapshot sequence unsequence = .ok (early, late))

include outcome

theorem resolved_of_resolveInput : Resolved snapshot sequence unsequence early late := by
  obtain ⟨⟨acceptsEarly, acceptsLate⟩, rfl, rfl⟩ := resolveInput_eq_ok_iff.mp outcome
  have sorting := List.mergeSort_perm (snapshot.viewOf sequence) DataFile.comesFirst
  have early_ids := sorting.map DataFile.id
  rw [acceptsEarly.map_id_viewOf] at early_ids
  constructor
  case early_ids => exact early_ids
  case late_ids => exact acceptsLate.map_id_viewOf
  case recorded =>
    intro file member
    have viewed : ∃ given, file ∈ snapshot.viewOf given := by
      rcases List.mem_append.mp member with member | member
      · exact ⟨sequence, sorting.mem_iff.mp member⟩
      · exact ⟨unsequence, member⟩
    obtain ⟨given, member⟩ := viewed
    obtain ⟨other, _, found⟩ := (snapshot.mem_viewOf given file).mp member
    rw [Snapshot.id_of_find? found, found]
  case distinct =>
    rw [List.map_append, acceptsLate.map_id_viewOf, List.nodup_append]
    refine ⟨early_ids.nodup_iff.mpr acceptsEarly.distinct, acceptsLate.distinct, ?_⟩
    rintro id idEarly _ idLate rfl
    rcases List.mem_map.mp idLate with ⟨file, member, rfl⟩
    exact acceptsLate.unseen file member (early_ids.mem_iff.mp idEarly)
  case increasing =>
    apply DataFile.pairwise_sortsBefore_mergeSort
    rw [acceptsEarly.map_id_viewOf]
    exact acceptsEarly.distinct

/-- A part of accepted input is accepted in any order. -/
theorem resolveInput_of_subperm {chosen kept : List DataFile} (fewerEarly : chosen.Subperm sequence)
    (fewerLate : kept.Subperm unsequence) :
    resolveInput snapshot chosen kept =
      .ok ((snapshot.viewOf chosen).mergeSort DataFile.comesFirst, snapshot.viewOf kept) := by
  obtain ⟨⟨acceptsEarly, acceptsLate⟩, _, _⟩ := resolveInput_eq_ok_iff.mp outcome
  have fewer_seen : chosen.map DataFile.id ⊆ sequence.map DataFile.id :=
    List.map_subset _ fewerEarly.subset
  exact resolveInput_eq_ok_iff.mpr ⟨⟨acceptsEarly.of_subperm fewerEarly (List.Subset.refl _),
    acceptsLate.of_subperm fewerLate fewer_seen⟩, rfl, rfl⟩

end Input

namespace Resolved

variable {snapshot : Snapshot} {sequence unsequence early late : List DataFile}
  (resolved : Resolved snapshot sequence unsequence early late)

include resolved

theorem early_distinct : (early.map DataFile.id).Nodup := by
  have distinct := resolved.distinct
  rw [List.map_append, List.nodup_append] at distinct
  exact distinct.1

theorem late_distinct : (late.map DataFile.id).Nodup := by
  have distinct := resolved.distinct
  rw [List.map_append, List.nodup_append] at distinct
  exact distinct.2.1

end Resolved

end Selection

end SeriesStore
