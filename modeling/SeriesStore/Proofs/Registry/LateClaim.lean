import SeriesStore.Proofs.Registry.Fate
import SeriesStore.Proofs.Selection.Arrival

/-!
# Claims of an earlier selection

A claim looks at numbers and statuses alone.  If it succeeds, every member is registered
and closed, but need not be the file that was selected: since the view was taken the
number may have been given up and handed in again with another file, and a member that
others have claimed may have been sealed a second time, which closes it with later ends.
Nothing else can change a member unnoticed.
-/

namespace SeriesStore

/-- What remains registered of a file that is not written any more.  Only its status
changes, and its spans if it is sealed again. -/
def Remains (resealed : Prop) (before after : Option DataFile) : Prop :=
  ∀ later, after = some later → ∃ file, before = some file ∧
    (file.status ≠ .unclosed → later.status ≠ .unclosed ∧
      ∃ devices, later = { file with status := later.status, devices := devices } ∧
        (¬ resealed → devices = file.devices))

theorem fate_remains (resealed : Prop) : Fate (Remains resealed) where
  refl held later present :=
    ⟨later, present, fun settled => ⟨settled, later.devices, rfl, fun _ => rfl⟩⟩
  trans := by
    intro first second third earlier afterwards later present
    rcases afterwards later present with ⟨middle, between, next⟩
    rcases earlier middle between with ⟨file, held, last⟩
    refine ⟨file, held, fun settled => ?_⟩
    rcases last settled with ⟨middleSettled, devices, middle_eq, kept⟩
    rcases next middleSettled with ⟨laterSettled, others, later_eq, stillKept⟩
    refine ⟨laterSettled, others, ?_, fun once => ?_⟩
    · rw [later_eq, middle_eq]
    · rw [stillKept once, middle_eq]
      exact kept once
  written unclosed device time := by
    intro later present
    exact ⟨_, rfl, fun settled => absurd unclosed settled⟩
  moved settled alive outcome := by
    intro later present
    cases present
    have laterSettled := Partition.status_ne_unclosed_of_transition outcome
    rcases (DataFile.transition_eq_ok_iff _ _ _).mp outcome with ⟨_, rfl⟩
    exact ⟨_, rfl, fun _ => ⟨laterSettled, _, rfl, fun _ => rfl⟩⟩
  withdrawn _ := by
    intro later present
    contradiction

theorem remains_of_sealWith {resealed : Prop} (again : resealed) {file changed : DataFile}
    {ends : EndTimes} (outcome : file.sealWith ends = .ok changed) :
    Remains resealed (some file) (some changed) := by
  rcases DataFile.sealWith_eq_ok outcome with ⟨entries, _, rfl⟩
  intro later present
  cases present
  exact ⟨file, rfl, fun _ => ⟨by simp, _, rfl, fun once => absurd again once⟩⟩

namespace Partition

/-- The check of a claim refuses a member as stale. -/
theorem stale_of_expectUnchanged {partition : Partition} {ids : List FileId} {error : Error}
    (refused : partition.expectUnchanged ids = .error error) :
    ∃ id ∈ ids, ∃ cause, error = .stale id cause := by
  induction ids with
  | nil => contradiction
  | cons id rest ih =>
      rw [expectUnchanged] at refused
      split at refused
      · cases refused
        exact ⟨id, List.mem_cons_self, _, rfl⟩
      · split at refused
        · cases refused
          exact ⟨id, List.mem_cons_self, _, rfl⟩
        · rcases ih refused with ⟨other, member, cause, rfl⟩
          exact ⟨other, List.mem_cons_of_mem id member, cause, rfl⟩

theorem stale_of_claim {partition left : Partition} {ids : List FileId} {error : Error}
    (differ : ids.Nodup) (refused : claim ids partition = .error error left) :
    ∃ id ∈ ids, ∃ cause, error = .stale id cause := by
  rw [claim, check_bind] at refused
  cases checked : partition.expectUnchanged ids with
  | error cause =>
      rw [checked] at refused
      cases refused
      exact stale_of_expectUnchanged checked
  | ok _ =>
      have movable : ∀ id ∈ ids, ∃ status, partition.status? id = some status ∧
          status.canBecome .candidate := by
        intro id member
        refine ⟨.closed, (status?_eq_some_iff _ _ _).mpr ?_, rfl⟩
        exact (expectUnchanged_eq_ok_iff partition ids).mp checked id member
      rcases transitionAll_eq_ok differ movable with ⟨claimed, moved, _⟩
      rw [checked] at refused
      dsimp only at refused
      rw [moved] at refused
      contradiction

end Partition

namespace Registry

open Selection

/-- What is found after a run of requests under the number of a file that is not written any
more, if no other file has come in under it: the same file in another status, and with its
spans unless it has been sealed in between. -/
theorem settled_of_serveAll {registry : Registry} {key : PartitionKey} {id : FileId}
    {file : DataFile} (registered : (registry.snapshot key).find? id = some file)
    (settled : file.status ≠ .unclosed) {requests : List Request}
    (groups : ∀ request ∈ requests, request.group.Nodup)
    (absent : id ∉ (registry.arrivals requests key).map DataFile.id) {later : DataFile}
    (found : ((registry.serveAll requests).snapshot key).find? id = some later) :
    later.status ≠ .unclosed ∧
      ∃ devices, later = { file with status := later.status, devices := devices } ∧
        ((∀ ends, .sealFile key id ends ∉ requests) → devices = file.devices) := by
  have remains := (fate_remains (∃ ends, .sealFile key id ends ∈ requests)).serveAll registry
    groups (fun ends again _ _ outcome => remains_of_sealWith ⟨ends, again⟩ outcome) absent
  rcases remains later found with ⟨own, own_found, unchanged⟩
  have own_eq : own = file := Option.some.inj (own_found.symm.trans registered)
  subst own_eq
  rcases unchanged settled with ⟨laterSettled, devices, later_eq, same⟩
  exact ⟨laterSettled, devices, later_eq, fun unsealed => same (not_exists.mpr unsealed)⟩

/-- A step that does not fail succeeds. -/
theorem exists_ok_of_failed? {outcome : EStateM.Result Error Registry Unit}
    (succeeds : failed? outcome = none) : ∃ after, outcome = .ok () after := by
  cases outcome with
  | ok value after => exact ⟨after, rfl⟩
  | error error after => contradiction

/-- A claim is refused because the partition is unknown or a member is stale. -/
theorem refused_of_claim {registry after : Registry} {key : PartitionKey} {ids : List FileId}
    {error : Error} (differ : ids.Nodup) (refused : registry.claim key ids = .error error after) :
    after = registry ∧
      (error = .partitionNotFound key ∨ ∃ id ∈ ids, ∃ cause, error = .stale id cause) := by
  constructor
  · exact atomic_within key (Partition.atomic_claim differ) registry error after refused
  · rw [claim, within] at refused
    split at refused
    · cases refused
      exact .inl rfl
    · rw [run] at refused
      split at refused
      · contradiction
      · rename_i cause left outcome
        cases refused
        exact .inr (Partition.stale_of_claim differ outcome)

/-- What is registered under the number of a member when a claim of it succeeds: a closed
file, and the selected one unless the number has been handed in since or the file has been
sealed again. -/
structure StillThere (requests : List Request) (arrived : List FileId) (key : PartitionKey)
    (member file : DataFile) : Prop where
  closed : file.status = .closed
  same : member.id ∉ arrived → ∃ devices, file = { member with devices := devices }
  unsealed : member.id ∉ arrived → (∀ ends, .sealFile key member.id ends ∉ requests) →
    file = member

section Members

variable {registry : Registry} {key : PartitionKey} {config : Config}
  {sequence unsequence : List DataFile} {candidates : List Candidate} {candidate : Candidate}
  (selected : selectFrom config (registry.snapshot key) sequence unsequence = .ok candidates)
  (made : candidate ∈ candidates)

include selected made

/-- What is closed under the number of a selected member after a run of requests. -/
theorem stillThere_of_closed {requests : List Request}
    (groups : ∀ request ∈ requests, request.group.Nodup) {member : DataFile}
    (isMember : member ∈ candidate.files) {file : DataFile}
    (found : ((registry.serveAll requests).snapshot key).find? member.id = some file)
    (closed : file.status = .closed) :
    StillThere requests ((registry.arrivals requests key).map DataFile.id) key member file := by
  rcases resolveInput_of_selectFrom selected with ⟨early, late, resolved⟩
  have sound := sound_of_selectFrom resolved selected made
  have memberClosed := sound.closed member isMember
  have memberSettled : member.status ≠ .unclosed := by
    rw [memberClosed]
    decide
  -- Where the number has not been handed in again, what is found is the rest of the member.
  have rest : member.id ∉ (registry.arrivals requests key).map DataFile.id →
      ∃ devices, file = { member with devices := devices } ∧
        ((∀ ends, .sealFile key member.id ends ∉ requests) → devices = member.devices) := by
    intro absent
    rcases settled_of_serveAll (sound.recorded member isMember) memberSettled groups absent found
      with ⟨_, devices, file_eq, kept⟩
    refine ⟨devices, ?_, kept⟩
    rw [file_eq, closed, ← memberClosed]
  constructor
  case closed => exact closed
  case same =>
    intro absent
    rcases rest absent with ⟨devices, file_eq, _⟩
    exact ⟨devices, file_eq⟩
  case unsealed =>
    intro absent unsealed
    rcases rest absent with ⟨devices, file_eq, kept⟩
    rw [file_eq, kept unsealed]

/-- A claim of what was selected from an earlier view succeeds only when each member is
registered and closed, and is the selected one unless the number has been handed in since
or the file has been sealed again.  If it is refused, nothing changes. -/
theorem claim_of_earlier_selection {requests : List Request}
    (groups : ∀ request ∈ requests, request.group.Nodup) :
    (∃ after, (registry.serveAll requests).claim key candidate.ids = .ok () after ∧
      ∀ member ∈ candidate.files, ∃ file,
        ((registry.serveAll requests).snapshot key).find? member.id = some file ∧
          StillThere requests ((registry.arrivals requests key).map DataFile.id) key member
            file) ∨
      ∃ error,
        (registry.serveAll requests).claim key candidate.ids =
          .error error (registry.serveAll requests) ∧
        (error = .partitionNotFound key ∨
          ∃ id ∈ candidate.ids, ∃ cause, error = .stale id cause) := by
  have differ : candidate.ids.Nodup :=
    Candidate.Selected.ids_nodup ⟨config, _, sequence, unsequence, candidates, selected, made⟩
  rcases claim_cases (registry.serveAll requests) key differ with
    ⟨error, refused⟩ | ⟨closed, after, claimed, _⟩
  · exact .inr ⟨error, refused, (refused_of_claim differ refused).2⟩
  · refine .inl ⟨after, claimed, fun member isMember => ?_⟩
    have registered := closed member.id (List.mem_map_of_mem isMember)
    rcases (Partition.status?_eq_some_iff _ _ _).mp registered with ⟨file, found, status⟩
    exact ⟨file, found, stillThere_of_closed selected made groups isMember found status⟩

end Members

end Registry

/-! ## Members that have changed unnoticed

Files 2 and 13 have been selected.  Requests about other files do not matter.  When file 2
is deleted and its number handed in again, the claim takes the new file for it, and when
file 2 is claimed and sealed meanwhile, the claim takes it with a later end. -/

namespace Sample

open Registry (Request)

def elsewhere : List Request :=
  [.claim key first.ids, .delete key 12, .sealFile key 15 (.ofList _ [("a", 80)])]

def replacing : List Request :=
  [.delete key 2, .addAll key .sequence [file .sequence .closed 2 [("b", ⟨0, 1⟩)]]]

def prolonging : List Request :=
  [.claim key second.ids, .sealFile key 2 (.ofList _ [("a", 39)]), .sealFile key 13 .empty]

end Sample

namespace Registry

open Selection

theorem claim_of_earlier_selection_sample :
    ∃ after,
      (Sample.registry.serveAll Sample.elsewhere).claim Sample.key Sample.second.ids =
        .ok () after ∧
      ∀ member ∈ Sample.second.files,
        ((Sample.registry.serveAll Sample.elsewhere).snapshot Sample.key).find? member.id =
          some member := by
  have made : Sample.second ∈ Sample.candidates := by decide +kernel
  have groups : ∀ request ∈ Sample.elsewhere, request.group.Nodup := by
    simp only [Sample.elsewhere, List.forall_mem_cons]
    decide +kernel
  have none_arrived : Sample.registry.arrivals Sample.elsewhere Sample.key = [] := by
    decide +kernel
  have succeeds : ∃ after, (Sample.registry.serveAll Sample.elsewhere).claim Sample.key
      Sample.second.ids = .ok () after :=
    exists_ok_of_failed? (by decide +kernel)
  rcases claim_of_earlier_selection Sample.selectFrom_registry made groups with
    ⟨after, claimed, members⟩ | ⟨error, refused, _⟩
  · refine ⟨after, claimed, fun member isMember => ?_⟩
    rcases members member isMember with ⟨file, found, still⟩
    rw [none_arrived] at still
    have number : member.id ∈ Sample.second.ids := List.mem_map_of_mem isMember
    have unsealed : ∀ ends, .sealFile Sample.key member.id ends ∉ Sample.elsewhere := by
      intro ends again
      have other : member.id = 15 ∧ ends = .ofList _ [("a", 80)] := by
        simpa [Sample.elsewhere] using again
      rw [other.1] at number
      revert number
      decide
    rw [found, still.unsealed List.not_mem_nil unsealed]
  · rcases succeeds with ⟨after, claimed⟩
    rw [claimed] at refused
    contradiction

/-- A claim takes another file for a member whose number has been handed in again. -/
theorem claim_takes_other_file :
    selectFrom Sample.config (Sample.registry.snapshot Sample.key) Sample.sequence
        Sample.unsequence = .ok Sample.candidates ∧
      Sample.second ∈ Sample.candidates ∧
      (∃ after, (Sample.registry.serveAll Sample.replacing).claim Sample.key Sample.second.ids =
        .ok () after) ∧
      ∃ member ∈ Sample.second.files, ∃ file,
        ((Sample.registry.serveAll Sample.replacing).snapshot Sample.key).find? member.id =
          some file ∧
        file.deviceNames ≠ member.deviceNames := by
  refine ⟨Sample.selectFrom_registry, by decide +kernel, ?_, ?_⟩
  · exact exists_ok_of_failed? (by decide +kernel)
  · exact ⟨Sample.file .sequence .closed 2 [("a", ⟨20, 30⟩)], by decide +kernel,
      Sample.file .sequence .closed 2 [("b", ⟨0, 1⟩)], by decide +kernel, by decide +kernel⟩

/-- A claim takes a member that has been sealed again with a later end. -/
theorem claim_takes_resealed_file :
    (∃ after, (Sample.registry.serveAll Sample.prolonging).claim Sample.key Sample.second.ids =
        .ok () after) ∧
      ∃ member ∈ Sample.second.files,
        ((Sample.registry.serveAll Sample.prolonging).snapshot Sample.key).find? member.id =
          some (Sample.file .sequence .closed 2 [("a", ⟨20, 39⟩)]) ∧
        member = Sample.file .sequence .closed 2 [("a", ⟨20, 30⟩)] := by
  constructor
  · exact exists_ok_of_failed? (by decide +kernel)
  · exact ⟨Sample.file .sequence .closed 2 [("a", ⟨20, 30⟩)], by decide +kernel,
      by decide +kernel, rfl⟩

end Registry

end SeriesStore
