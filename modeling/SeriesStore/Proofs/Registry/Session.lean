import SeriesStore.Proofs.Registry.Status
import SeriesStore.Proofs.Selection.Budget

/-!
# Sessions

In a session any number of clients share one registry.  They add, write, seal and
delete files, take snapshots, select candidates from snapshots that may be old by
then, and claim, give back and merge candidates.  Calls may fail.  The registry
knows no owner of a claim, so each client goes on only with what it has claimed
itself (`Session.Allows`).

That is enough to keep claims apart.  A claim succeeds on closed members only, and
the members of an outstanding claim are not closed before its owner concludes it,
so two outstanding claims of a partition have no member in common.  Every member
has the status of its claim, and what the owner does next cannot fail because of
another client.
-/

namespace SeriesStore

open Selection

/-- How far a client has got with a candidate. -/
inductive Stage where
  | claimed
  | started
deriving DecidableEq

/-- The status of the members at a stage. -/
def Stage.status : Stage → Status
  | .claimed => .candidate
  | .started => .compacting

/-- A candidate that a client has claimed. -/
structure Claim where
  client : Nat
  key : PartitionKey
  candidate : Candidate
  stage : Stage
deriving DecidableEq

/-- Whether two claims of a partition have no member in common. -/
def Claim.Apart (first second : Claim) : Prop :=
  first.key = second.key → first.candidate.ids.Disjoint second.candidate.ids

theorem Claim.Apart.symm {first second : Claim} (apart : first.Apart second) :
    second.Apart first :=
  fun same => (apart same.symm).symm

/-- A call of a client. -/
inductive Action where
  | addAll (key : PartitionKey) (space : Space) (files : List DataFile)
  | recordWrite (key : PartitionKey) (id : FileId) (device : String) (time : Timestamp)
  | sealFile (key : PartitionKey) (id : FileId) (ends : EndTimes)
  | delete (key : PartitionKey) (id : FileId)
  | snapshot (key : PartitionKey)
  | select (config : Config) (snapshot : Snapshot) (sequence unsequence : List DataFile)
  | claim (client : Nat) (key : PartitionKey) (candidate : Candidate)
  | release (client : Nat) (key : PartitionKey) (candidate : Candidate)
  | start (client : Nat) (key : PartitionKey) (candidate : Candidate)
  | abort (client : Nat) (key : PartitionKey) (candidate : Candidate)
  | finish (client : Nat) (key : PartitionKey) (candidate : Candidate) (outputs : List DataFile)

/-- The shared registry and what the clients have got so far. -/
structure Session where
  registry : Registry
  /-- The snapshots that were taken. -/
  snapshots : List Snapshot
  /-- The candidates that selections have returned. -/
  selected : List Candidate
  /-- The claims that are neither given back nor concluded. -/
  outstanding : List Claim

namespace Session

/-- A session that starts with a registry. -/
def opening (registry : Registry) : Session :=
  ⟨registry, [], [], []⟩

/-- What clients keep to.  Only unclosed files are sealed, and files that are being
merged are not deleted.  Selections work on snapshots that were taken, claims on
candidates that were selected, and what follows a claim is up to the client that
holds it. -/
def Allows (session : Session) : Action → Prop
  | .addAll .. | .recordWrite .. | .snapshot _ => True
  | .sealFile key id _ =>
      session.registry.status? key id = none ∨
        session.registry.status? key id = some .unclosed
  | .delete key id => session.registry.status? key id ≠ some .compacting
  | .select _ snapshot _ _ => snapshot ∈ session.snapshots
  | .claim _ _ candidate => candidate ∈ session.selected
  | .release client key candidate | .start client key candidate =>
      ⟨client, key, candidate, .claimed⟩ ∈ session.outstanding
  | .abort client key candidate | .finish client key candidate _ =>
      ⟨client, key, candidate, .started⟩ ∈ session.outstanding

instance (session : Session) : (action : Action) → Decidable (session.Allows action)
  | .addAll .. | .recordWrite .. | .snapshot _ => inferInstanceAs (Decidable True)
  | .sealFile .. => inferInstanceAs (Decidable (_ ∨ _))
  | .delete .. => inferInstanceAs (Decidable (_ ≠ _))
  | .select _ snapshot _ _ => inferInstanceAs (Decidable (snapshot ∈ session.snapshots))
  | .claim _ _ candidate => inferInstanceAs (Decidable (candidate ∈ session.selected))
  | .release client key candidate | .start client key candidate =>
      inferInstanceAs (Decidable (⟨client, key, candidate, .claimed⟩ ∈ session.outstanding))
  | .abort client key candidate | .finish client key candidate _ =>
      inferInstanceAs (Decidable (⟨client, key, candidate, .started⟩ ∈ session.outstanding))

/-- Takes over the registry of an outcome.  If the call has succeeded, the claim that
it was about is replaced. -/
def settle {α : Type} (session : Session) (claim : Claim) (next : List Claim) :
    EStateM.Result Error Registry α → Session
  | .ok _ registry =>
      { session with
        registry := registry
        outstanding := next ++ session.outstanding.erase claim }
  | .error _ registry => { session with registry := registry }

/-- Performs a call, whether it succeeds or fails. -/
def perform (session : Session) : Action → Session
  | .addAll key space files =>
      { session with registry := leftBehind (session.registry.addAll key space files) }
  | .recordWrite key id device time =>
      { session with registry := leftBehind (session.registry.recordWrite key id device time) }
  | .sealFile key id ends =>
      { session with registry := leftBehind (session.registry.sealFile key id ends) }
  | .delete key id => { session with registry := leftBehind (session.registry.delete key id) }
  | .snapshot key =>
      { session with snapshots := session.registry.snapshot key :: session.snapshots }
  | .select config snapshot sequence unsequence =>
      match selectFrom config snapshot sequence unsequence with
      | .error _ => session
      | .ok candidates => { session with selected := candidates ++ session.selected }
  | .claim client key candidate =>
      match session.registry.claim key candidate.ids with
      | .error _ registry => { session with registry := registry }
      | .ok _ registry =>
          { session with
            registry := registry
            outstanding := ⟨client, key, candidate, .claimed⟩ :: session.outstanding }
  | .release client key candidate =>
      session.settle ⟨client, key, candidate, .claimed⟩ []
        (session.registry.release key candidate.ids)
  | .start client key candidate =>
      session.settle ⟨client, key, candidate, .claimed⟩ [⟨client, key, candidate, .started⟩]
        (session.registry.start key candidate.ids)
  | .abort client key candidate =>
      session.settle ⟨client, key, candidate, .started⟩ []
        (session.registry.abort key candidate.ids)
  | .finish client key candidate outputs =>
      session.settle ⟨client, key, candidate, .started⟩ []
        (session.registry.finish key candidate.ids outputs)

/-- Whether each of some calls is allowed when its turn comes. -/
def Admits (session : Session) : List Action → Prop
  | [] => True
  | action :: rest => session.Allows action ∧ (session.perform action).Admits rest

instance decidableAdmits : (session : Session) → (actions : List Action) →
    Decidable (session.Admits actions)
  | _, [] => inferInstanceAs (Decidable True)
  | session, action :: rest =>
      have := decidableAdmits (session.perform action) rest
      inferInstanceAs (Decidable (session.Allows action ∧ (session.perform action).Admits rest))

/-- Performs calls one after the other. -/
def performAll (session : Session) (actions : List Action) : Session :=
  actions.foldl perform session

/-! ## The invariant -/

/-- Claims that keep out of each other's way: in a partition no two of them have a
member in common, and every member is registered with the status of its claim. -/
structure Exclusive (session : Session) : Prop where
  apart : session.outstanding.Pairwise Claim.Apart
  held : ∀ claim ∈ session.outstanding, ∀ id ∈ claim.candidate.ids,
    session.registry.status? claim.key id = some claim.stage.status

/-- What every call keeps.  Candidates that were selected name no file twice, and only
such candidates are claimed. -/
structure Regular (session : Session) : Prop extends Exclusive session where
  distinct : ∀ candidate ∈ session.selected, candidate.ids.Nodup
  some_member : ∀ candidate ∈ session.selected, candidate.ids ≠ []
  selected : ∀ claim ∈ session.outstanding, claim.candidate ∈ session.selected

theorem regular_opening (registry : Registry) : (opening registry).Regular where
  apart := .nil
  held := by simp [opening]
  distinct := by simp [opening]
  some_member := by simp [opening]
  selected := by simp [opening]

namespace Regular

variable {session : Session} (regular : session.Regular) {after : Registry} {key : PartitionKey}
  {ids : List FileId}

include regular

/-- Calls about files that no outstanding claim of the partition holds disturb none. -/
theorem keep (keeps : Registry.KeepsOutside key ids session.registry after)
    (free : ∀ claim ∈ session.outstanding, claim.key = key →
      claim.candidate.ids.Disjoint ids) :
    ({ session with registry := after } : Session).Regular where
  apart := regular.apart
  held claim member id isMember := by
    have outside : claim.key = key → id ∉ ids := fun same => free claim member same isMember
    exact keeps claim.key id outside _ (regular.held claim member id isMember)
  distinct := regular.distinct
  some_member := regular.some_member
  selected := regular.selected

/-- A claim that holds its members beside the others comes in. -/
theorem add {claim : Claim} (known : claim.candidate ∈ session.selected)
    (held : ∀ id ∈ claim.candidate.ids,
      session.registry.status? claim.key id = some claim.stage.status)
    (free : ∀ other ∈ session.outstanding, other.key = claim.key →
      other.candidate.ids.Disjoint claim.candidate.ids) :
    ({ session with outstanding := claim :: session.outstanding } : Session).Regular where
  apart := by
    refine List.pairwise_cons.mpr ⟨fun other member same => ?_, regular.apart⟩
    exact (free other member same.symm).symm
  held := List.forall_mem_cons.mpr ⟨held, regular.held⟩
  distinct := regular.distinct
  some_member := regular.some_member
  selected := List.forall_mem_cons.mpr ⟨known, regular.selected⟩

/-- The other claims of a partition have no member in common with an outstanding one. -/
theorem disjoint_of_mem_erase {claim other : Claim} (member : claim ∈ session.outstanding)
    (rest : other ∈ session.outstanding.erase claim) (same : other.key = claim.key) :
    other.candidate.ids.Disjoint claim.candidate.ids := by
  have sorted := List.perm_cons_erase member
  have apart := (sorted.pairwise_iff fun apart => apart.symm).mp regular.apart
  exact ((List.pairwise_cons.mp apart).1 other rest).symm same

/-- A concluded claim leaves, whatever has become of its members. -/
theorem conclude {claim : Claim} (member : claim ∈ session.outstanding)
    (keeps : Registry.KeepsOutside claim.key claim.candidate.ids session.registry after) :
    ({ session with
      registry := after
      outstanding := session.outstanding.erase claim } : Session).Regular := by
  have fewer : ({ session with outstanding := session.outstanding.erase claim } :
      Session).Regular := {
    apart := regular.apart.sublist List.erase_sublist
    held := fun other rest => regular.held other (List.mem_of_mem_erase rest)
    distinct := regular.distinct
    some_member := regular.some_member
    selected := fun other rest => regular.selected other (List.mem_of_mem_erase rest) }
  exact fewer.keep keeps fun other rest same => regular.disjoint_of_mem_erase member rest same

/-- A file that is neither claimed nor being merged is held by no outstanding claim. -/
theorem disjoint_singleton {id : FileId}
    (free : ∀ stage : Stage, session.registry.status? key id ≠ some stage.status)
    (claim : Claim) (member : claim ∈ session.outstanding) (same : claim.key = key) :
    claim.candidate.ids.Disjoint [id] := by
  rw [List.disjoint_singleton]
  intro isMember
  apply free claim.stage
  rw [← same]
  exact regular.held claim member id isMember

theorem perform_sealFile {id : FileId} (ends : EndTimes)
    (allowed : session.Allows (.sealFile key id ends)) :
    (session.perform (.sealFile key id ends)).Regular := by
  apply regular.keep (Registry.keepsOutside_within (Partition.keepsOutside_sealFile id ends) _ key)
  apply regular.disjoint_singleton
  intro stage registered
  rcases allowed with unknown | unclosed
  · rw [unknown] at registered
    contradiction
  · rw [unclosed] at registered
    cases stage <;> contradiction

/-- A claimed file cannot be deleted, and one that is being merged is not. -/
theorem perform_delete {id : FileId} (allowed : session.Allows (.delete key id)) :
    (session.perform (.delete key id)).Regular := by
  by_cases candidate : session.registry.status? key id = some .candidate
  · rcases Registry.exists_partition_of_status? candidate with ⟨partition, present⟩
    rw [Registry.status?, Registry.partition_snapshot present] at candidate
    rcases Partition.delete_eq_error_of_candidate candidate with ⟨error, refused⟩
    rw [perform, Registry.delete, Registry.within_eq_error present refused]
    exact regular
  · apply regular.keep (Registry.keepsOutside_within (Partition.keepsOutside_delete id) _ key)
    apply regular.disjoint_singleton
    intro stage registered
    cases stage with
    | claimed => exact candidate registered
    | started => exact allowed registered

theorem perform_select {config : Config} {snapshot : Snapshot}
    {sequence unsequence : List DataFile} :
    (session.perform (.select config snapshot sequence unsequence)).Regular := by
  rw [perform]
  split
  · exact regular
  · rename_i candidates outcome
    rcases resolveInput_of_selectFrom outcome with ⟨early, late, resolved⟩
    have distinct := ids_distinct resolved outcome
    rw [List.nodup_flatMap] at distinct
    constructor
    case toExclusive => exact ⟨regular.apart, regular.held⟩
    case distinct => exact List.forall_mem_append.mpr ⟨distinct.1, regular.distinct⟩
    case some_member =>
      refine List.forall_mem_append.mpr ⟨fun candidate made => ?_, regular.some_member⟩
      have sound := sound_of_selectFrom resolved outcome made
      simp [Candidate.ids, Candidate.files, sound.sequence_ne_nil]
    case selected =>
      exact fun claim member => List.mem_append_right candidates (regular.selected claim member)

/-- A claim takes closed members, and no outstanding claim has such. -/
theorem perform_claim {client : Nat} {candidate : Candidate}
    (allowed : session.Allows (.claim client key candidate)) :
    (session.perform (.claim client key candidate)).Regular := by
  have keeps := Registry.keepsOutside_within (Partition.keepsOutside_claim candidate.ids)
    session.registry key
  change Registry.KeepsOutside key candidate.ids session.registry
    (leftBehind (session.registry.claim key candidate.ids)) at keeps
  rw [perform]
  rcases session.registry.claim_cases key (regular.distinct candidate allowed) with
    ⟨error, refused⟩ | ⟨closed, after, claimed, done⟩
  · rw [refused]
    exact regular
  · rw [claimed] at keeps ⊢
    -- The status alone tells the members apart: those of outstanding claims are not closed.
    have free : ∀ other ∈ session.outstanding, other.key = key →
        other.candidate.ids.Disjoint candidate.ids := by
      intro other member same id isMember isTaken
      have registered := regular.held other member id isMember
      rw [same, closed id isTaken] at registered
      cases stage : other.stage <;> rw [stage] at registered <;> contradiction
    exact (regular.keep keeps free).add allowed done free

/-- Moving the members of an outstanding claim along the lifecycle succeeds. -/
theorem move_eq_ok {claim : Claim} (member : claim ∈ session.outstanding) {stage : Stage}
    (reached : claim.stage = stage) {target : Status} (allowed : stage.status.canBecome target) :
    ∃ after, Registry.within claim.key
        (Partition.move stage.status target claim.candidate.ids) session.registry =
          .ok () after ∧
      (∀ id ∈ claim.candidate.ids, after.status? claim.key id = some target) ∧
      Registry.KeepsOutside claim.key claim.candidate.ids session.registry after := by
  subst reached
  have known := regular.selected claim member
  rcases Registry.move_eq_ok (regular.some_member _ known) (regular.distinct _ known) target
    (regular.held claim member) allowed with ⟨after, moved, done⟩
  have keeps := Registry.keepsOutside_within
    (Partition.keepsOutside_move claim.stage.status target claim.candidate.ids)
    session.registry claim.key
  rw [moved] at keeps
  exact ⟨after, moved, done, keeps⟩

theorem release_eq_ok {claim : Claim} (member : claim ∈ session.outstanding)
    (claimed : claim.stage = .claimed) :
    ∃ after, session.registry.release claim.key claim.candidate.ids = .ok () after ∧
      Registry.KeepsOutside claim.key claim.candidate.ids session.registry after := by
  have allowed : Stage.claimed.status.canBecome .closed := rfl
  rcases regular.move_eq_ok member claimed allowed with ⟨after, released, _, keeps⟩
  exact ⟨after, released, keeps⟩

theorem start_eq_ok {claim : Claim} (member : claim ∈ session.outstanding)
    (claimed : claim.stage = .claimed) :
    ∃ after, session.registry.start claim.key claim.candidate.ids = .ok () after ∧
      (∀ id ∈ claim.candidate.ids, after.status? claim.key id = some .compacting) ∧
      Registry.KeepsOutside claim.key claim.candidate.ids session.registry after := by
  have allowed : Stage.claimed.status.canBecome .compacting := rfl
  exact regular.move_eq_ok member claimed allowed

theorem abort_eq_ok {claim : Claim} (member : claim ∈ session.outstanding)
    (started : claim.stage = .started) :
    ∃ after, session.registry.abort claim.key claim.candidate.ids = .ok () after ∧
      Registry.KeepsOutside claim.key claim.candidate.ids session.registry after := by
  have allowed : Stage.started.status.canBecome .closed := rfl
  rcases regular.move_eq_ok member started allowed with ⟨after, aborted, _, keeps⟩
  exact ⟨after, aborted, keeps⟩

theorem perform_release {client : Nat} {candidate : Candidate}
    (allowed : session.Allows (.release client key candidate)) :
    (session.perform (.release client key candidate)).Regular := by
  rcases regular.release_eq_ok allowed rfl with ⟨after, released, keeps⟩
  dsimp only at released
  rw [perform, released]
  exact regular.conclude allowed keeps

theorem perform_start {client : Nat} {candidate : Candidate}
    (allowed : session.Allows (.start client key candidate)) :
    (session.perform (.start client key candidate)).Regular := by
  rcases regular.start_eq_ok allowed rfl with ⟨after, started, done, keeps⟩
  dsimp only at started
  rw [perform, started]
  have known : candidate ∈ session.selected :=
    regular.selected ⟨client, key, candidate, .claimed⟩ allowed
  have free : ∀ other ∈ session.outstanding.erase ⟨client, key, candidate, .claimed⟩,
      other.key = key → other.candidate.ids.Disjoint candidate.ids :=
    fun other rest same => regular.disjoint_of_mem_erase allowed rest same
  exact (regular.conclude allowed keeps).add known done free

theorem perform_abort {client : Nat} {candidate : Candidate}
    (allowed : session.Allows (.abort client key candidate)) :
    (session.perform (.abort client key candidate)).Regular := by
  rcases regular.abort_eq_ok allowed rfl with ⟨after, aborted, keeps⟩
  dsimp only at aborted
  rw [perform, aborted]
  exact regular.conclude allowed keeps

/-- Finishing a started claim fails only on the outputs and changes nothing then. -/
theorem finish_cases {claim : Claim} (member : claim ∈ session.outstanding)
    (started : claim.stage = .started) (outputs : List DataFile) :
    (∃ removed after,
      session.registry.finish claim.key claim.candidate.ids outputs = .ok removed after) ∨
      ∃ error, session.registry.finish claim.key claim.candidate.ids outputs =
          .error error session.registry ∧
        Partition.Refused .sequence (fun id => (session.registry.status? claim.key id).isSome &&
          !claim.candidate.ids.contains id) outputs error := by
  have known := regular.selected claim member
  have held := regular.held claim member
  rw [started] at held
  exact Registry.finish_cases_of_compacting (regular.some_member _ known)
    (regular.distinct _ known) held outputs

theorem perform_finish {client : Nat} {candidate : Candidate} {outputs : List DataFile}
    (allowed : session.Allows (.finish client key candidate outputs)) :
    (session.perform (.finish client key candidate outputs)).Regular := by
  have keeps := Registry.keepsOutside_within
    (Partition.keepsOutside_finish candidate.ids outputs) session.registry key
  change Registry.KeepsOutside key candidate.ids session.registry
    (leftBehind (session.registry.finish key candidate.ids outputs)) at keeps
  rw [perform]
  rcases regular.finish_cases allowed rfl outputs with
    ⟨removed, after, finished⟩ | ⟨error, failed, _⟩
  · dsimp only at finished
    rw [finished] at keeps ⊢
    exact regular.conclude allowed keeps
  · dsimp only at failed
    rw [failed]
    exact regular

theorem perform_action {action : Action} (allowed : session.Allows action) :
    (session.perform action).Regular := by
  cases action with
  | addAll key space files =>
      apply regular.keep (session.registry.keepsOutside_addAll key space files)
      exact fun claim _ _ => List.disjoint_nil_right _
  | recordWrite key id device time =>
      apply regular.keep (Registry.keepsOutside_within
        (Partition.keepsOutside_recordWrite id device time) session.registry key)
      exact fun claim _ _ => List.disjoint_nil_right _
  | sealFile key id ends => exact regular.perform_sealFile ends allowed
  | delete key id => exact regular.perform_delete allowed
  | snapshot key => exact { regular with }
  | select config snapshot sequence unsequence => exact regular.perform_select
  | claim client key candidate => exact regular.perform_claim allowed
  | release client key candidate => exact regular.perform_release allowed
  | start client key candidate => exact regular.perform_start allowed
  | abort client key candidate => exact regular.perform_abort allowed
  | finish client key candidate outputs => exact regular.perform_finish allowed

theorem performAll {actions : List Action} (admitted : session.Admits actions) :
    (session.performAll actions).Regular := by
  induction actions generalizing session with
  | nil => exact regular
  | cons action rest ih => exact ih (regular.perform_action admitted.1) admitted.2

end Regular

/-- Whatever the clients of a session do, outstanding claims exclude each other, and
their owners can go on: giving a claim back, starting and giving up a merge succeed,
and finishing one fails only because of an output. -/
theorem outstanding_exclusive {registry : Registry} {actions : List Action}
    (admitted : (opening registry).Admits actions) {session : Session}
    (reached : (opening registry).performAll actions = session) :
    session.Exclusive ∧
      ∀ claim ∈ session.outstanding,
        (claim.stage = .claimed →
          (∃ after,
            session.registry.release claim.key claim.candidate.ids = .ok () after) ∧
          ∃ after, session.registry.start claim.key claim.candidate.ids = .ok () after) ∧
        (claim.stage = .started →
          (∃ after, session.registry.abort claim.key claim.candidate.ids = .ok () after) ∧
          ∀ outputs error after,
            session.registry.finish claim.key claim.candidate.ids outputs = .error error after →
              Partition.Refused .sequence
                (fun id => (session.registry.status? claim.key id).isSome &&
                  !claim.candidate.ids.contains id) outputs error) := by
  subst reached
  have regular := (regular_opening registry).performAll admitted
  refine ⟨regular.toExclusive, fun claim member => ⟨fun claimed => ?_, fun started => ?_⟩⟩
  · rcases regular.release_eq_ok member claimed with ⟨_, released, _⟩
    rcases regular.start_eq_ok member claimed with ⟨_, moved, _⟩
    exact ⟨⟨_, released⟩, ⟨_, moved⟩⟩
  · constructor
    · rcases regular.abort_eq_ok member started with ⟨_, aborted, _⟩
      exact ⟨_, aborted⟩
    · intro outputs error after failed
      rcases regular.finish_cases member started outputs with
        ⟨removed, left, finished⟩ | ⟨cause, refused, reason⟩
      · rw [finished] at failed
        contradiction
      · rw [refused] at failed
        cases failed
        exact reason

end Session

/-! ## A small session

Two clients try to claim the same candidate, and the one that gets it merges it into
an output that takes over a number.  After that the candidate is stale. -/

namespace Sample

/-- The calls after the first selection. -/
def contest : List Action :=
  [ .claim 1 key first, .claim 2 key first, .claim 2 key second, .start 1 key first,
    .finish 1 key first [file .sequence .closed 11 [("a", ⟨40, 50⟩)]], .claim 3 key first,
    .claim 3 key third, .start 3 key third, .delete key 16, .delete key 13 ]

def calls : List Action :=
  .snapshot key :: .select config (registry.snapshot key) sequence unsequence :: contest

/-- The session after the first selection. -/
def offered : Session :=
  ⟨registry, [registry.snapshot key], candidates, []⟩

theorem perform_select :
    ((Session.opening registry).perform (.snapshot key)).perform
      (.select config (registry.snapshot key) sequence unsequence) = offered := by
  simp only [Session.perform, Session.opening, selectFrom_registry, List.append_nil, offered]

/-- The session in the end. -/
def contested : Session :=
  offered.performAll contest

theorem performAll_calls : (Session.opening registry).performAll calls = contested := by
  rw [contested, Session.performAll, Session.performAll, calls, List.foldl_cons, List.foldl_cons,
    perform_select]

end Sample

namespace Session

theorem outstanding_exclusive_sample :
    (opening Sample.registry).Admits Sample.calls ∧
      Sample.contested.outstanding =
        [⟨3, Sample.key, Sample.third, .started⟩, ⟨2, Sample.key, Sample.second, .claimed⟩] ∧
      Sample.contested.Exclusive ∧
      (∃ after, Sample.contested.registry.start Sample.key Sample.second.ids = .ok () after) ∧
      ∃ after, Sample.contested.registry.abort Sample.key Sample.third.ids = .ok () after := by
  have contest : Sample.offered.Admits Sample.contest := by
    decide +kernel
  have admitted : (opening Sample.registry).Admits Sample.calls := by
    rw [← Sample.perform_select] at contest
    exact ⟨trivial, List.mem_cons_self, contest⟩
  have outstanding : Sample.contested.outstanding =
      [⟨3, Sample.key, Sample.third, .started⟩, ⟨2, Sample.key, Sample.second, .claimed⟩] := by
    decide +kernel
  rcases outstanding_exclusive admitted Sample.performAll_calls with ⟨exclusive, owners⟩
  rw [outstanding, List.forall_mem_cons, List.forall_mem_singleton] at owners
  rcases owners with ⟨third, second⟩
  exact ⟨admitted, outstanding, exclusive, (second.1 rfl).2, (third.2 rfl).1⟩

end Session

end SeriesStore
