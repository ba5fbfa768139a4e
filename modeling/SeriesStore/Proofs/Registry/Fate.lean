import SeriesStore.Proofs.Registry.Consistent
import SeriesStore.Proofs.Registry.Steady

/-!
# What becomes of a registered file

What is registered under a number has a history: the file is written while it is
unclosed, it moves along the lifecycle, and in the end it is taken out.  A `Fate` is a
relation between the file before and after that allows for all of this.  It then holds
across every request that brings no file in under the number, and so across a whole run
of requests.  Sealing is left to whoever uses a fate, as a file that is claimed or being
merged can be sealed a second time.

A group never lists a number twice.  Those that selections return do not
(`Candidate.Selected.ids_nodup`).
-/

namespace SeriesStore

/-- A relation between what is registered under a number before and after that allows
for everything that happens to a registered file but sealing. -/
structure Fate (fate : Option DataFile → Option DataFile → Prop) : Prop where
  refl (held : Option DataFile) : fate held held
  trans {first second third : Option DataFile} :
    fate first second → fate second third → fate first third
  written {file : DataFile} (unclosed : file.status = .unclosed) (device : String)
      (time : Timestamp) : fate (some file) (some (file.record device time))
  moved {file changed : DataFile} {target : Status} (settled : file.status ≠ .unclosed)
      (alive : target ≠ .deleted) (outcome : file.transition target = .ok changed) :
    fate (some file) (some changed)
  withdrawn {file : DataFile} (allowed : file.status.canBecome .deleted) :
    fate (some file) none

/-! ## Steps of a partition -/

namespace Partition

/-- Moving the members of a group leaves the others as they are. -/
theorem find?_of_transitionAll_eq_ok {target : Status} {ids : List FileId}
    {partition left : Partition} (outcome : transitionAll target ids partition = .ok () left)
    {id : FileId} (outside : id ∉ ids) : left.find? id = partition.find? id := by
  induction ids generalizing partition with
  | nil =>
      cases outcome
      rfl
  | cons first rest ih =>
      rw [List.mem_cons, not_or] at outside
      rw [transitionAll, bind_eq_ok_iff] at outcome
      rcases outcome with ⟨moved, middle, changed, outcome⟩
      rcases (update_eq_ok_iff _ _ _ _ _).mp changed with ⟨file, found, move, rfl⟩
      rcases (DataFile.transition_eq_ok_iff _ _ _).mp move with ⟨_, rfl⟩
      rw [ih outcome outside.2, find?_replace]
      cases held : partition.find? id with
      | none => rfl
      | some other =>
          rw [Option.map_some, if_neg]
          rw [(mem_of_find?_eq_some held).2]
          change id ≠ file.id
          rw [(mem_of_find?_eq_some found).2]
          exact outside.1

/-- A group that is finished was being merged, and outputs take over no other registered
numbers than those of its members.  Afterwards these are free unless they were taken over,
and the other files are as they were. -/
theorem retired_of_finish {partition left : Partition} {ids : List FileId}
    {outputs removed : List DataFile}
    (outcome : finish ids outputs partition = .ok removed left) :
    (∀ id ∈ ids, ∃ file, partition.find? id = some file ∧ file.status = .compacting) ∧
      (∀ file ∈ outputs, partition.contains file.id = true → file.id ∈ ids) ∧
      ∀ id, id ∉ outputs.map DataFile.id →
        left.find? id = if id ∈ ids then none else partition.find? id := by
  rw [finish_eq] at outcome
  split at outcome
  · contradiction
  rename_i members
  split at outcome
  · contradiction
  rename_i checked
  split at outcome
  · contradiction
  rename_i gone retired retiring
  cases outcome
  refine ⟨(expectStatus_eq_ok_iff _ _ _ _).mp members, fun file member registered => ?_,
    fun id outside => ?_⟩
  · have free := (((expectNew_eq_ok_iff _ _ _ _).mp checked).1 file member).2.2.1
    rw [registered, Bool.true_and, Bool.not_eq_false'] at free
    exact List.contains_iff_mem.mp free
  rw [find?_insertAll_of_not_mem outside]
  split
  · rename_i member
    have free := contains_of_retire_eq_ok retiring id
    rw [List.contains_iff_mem.mpr member, Bool.not_true, Bool.and_false, contains] at free
    exact Option.not_isSome_iff_eq_none.mp (by simp [free])
  · rename_i notMember
    rcases (bind_eq_ok_iff _ _ _ _ _).mp retiring with ⟨_, marked, moved, taken⟩
    rw [(of_takeAll_eq_ok taken).2.2.2 id notMember, find?_of_transitionAll_eq_ok moved notMember]

end Partition

open SeriesStore.Partition

namespace Fate

variable {fate : Option DataFile → Option DataFile → Prop} (allowed : Fate fate)
  {partition : Partition} {id : FileId}

include allowed

theorem replace {file changed : DataFile} (found : partition.find? file.id = some file)
    (same : changed.id = file.id) (own : file.id = id → fate (some file) (some changed)) :
    fate (partition.find? id) ((partition.replace changed).find? id) := by
  rw [find?_replace]
  cases held : partition.find? id with
  | none => exact allowed.refl none
  | some other =>
      have other_id := (mem_of_find?_eq_some held).2
      rw [Option.map_some, other_id, same]
      split
      · rename_i number
        subst number
        rw [Option.some.inj (held.symm.trans found)]
        exact own rfl
      · exact allowed.refl _

theorem shifts {target : Status} (alive : target ≠ .deleted) {left : Partition}
    (shifts : Shifts target partition left) : fate (partition.find? id) (left.find? id) := by
  induction shifts with
  | refl => exact allowed.refl _
  | tail _ shift ih =>
      cases shift with
      | move found settled outcome =>
          rcases (DataFile.transition_eq_ok_iff _ _ _).mp outcome with ⟨_, rfl⟩
          exact allowed.trans ih
            (allowed.replace found rfl fun _ => allowed.moved settled alive outcome)

theorem update {changing : FileId} {change : DataFile → Except Error DataFile}
    (changes : ∀ file changed, change file = .ok changed →
      changed.id = file.id ∧ (changing = id → fate (some file) (some changed))) :
    fate (partition.find? id) ((leftBehind (update changing change partition)).find? id) := by
  rw [Partition.update]
  split
  · exact allowed.refl _
  · rename_i file found
    split
    · exact allowed.refl _
    · rename_i changed outcome
      have file_id := (mem_of_find?_eq_some found).2
      rw [← file_id] at found
      rcases changes file changed outcome with ⟨same, own⟩
      exact allowed.replace found same fun number => own (file_id.symm.trans number)

theorem recordWrite (written : FileId) (device : String) (time : Timestamp) :
    fate (partition.find? id)
      ((leftBehind (recordWrite written device time partition)).find? id) := by
  apply allowed.update
  intro file changed outcome
  rw [writtenTo] at outcome
  split at outcome
  · rename_i unclosed
    cases outcome
    exact ⟨rfl, fun _ => allowed.written unclosed device time⟩
  · contradiction

theorem delete (gone : FileId) :
    fate (partition.find? id) ((leftBehind (delete gone partition)).find? id) := by
  cases outcome : Partition.delete gone partition with
  | error error left =>
      rw [atomic_delete gone partition error left outcome]
      exact allowed.refl _
  | ok deleted left =>
      have done := deleted_of_delete outcome
      change fate (partition.find? id) (left.find? id)
      by_cases own : id = gone
      · subst own
        rcases (bind_eq_ok_iff _ _ _ _ _).mp outcome with ⟨changed, marked, first, _⟩
        rcases (update_eq_ok_iff _ _ _ _ _).mp first with ⟨file, found, move, _⟩
        rw [done.absent, found]
        exact allowed.withdrawn ((DataFile.transition_eq_ok_iff _ _ _).mp move).1
      · rw [done.others id own]
        exact allowed.refl _

/-- The members of a group that is finished leave, and the outputs have other numbers than
the one that is asked about. -/
theorem finish {ids : List FileId} (differ : ids.Nodup) {outputs : List DataFile}
    (absent : id ∉
      (Registry.broughtIn outputs (finish ids outputs partition)).map DataFile.id) :
    fate (partition.find? id) ((leftBehind (finish ids outputs partition)).find? id) := by
  cases outcome : Partition.finish ids outputs partition with
  | error error left =>
      rw [atomic_finish differ outputs partition error left outcome]
      exact allowed.refl _
  | ok removed left =>
      rw [outcome] at absent
      rcases retired_of_finish outcome with ⟨compacting, _, kept⟩
      change fate (partition.find? id) (left.find? id)
      rw [kept id absent]
      split
      · rename_i member
        rcases compacting id member with ⟨file, found, status⟩
        rw [found]
        apply allowed.withdrawn
        rw [status]
        rfl
      · exact allowed.refl _

end Fate

/-! ## Requests -/

namespace Registry

/-- The numbers that a request lists as a group. -/
def Request.group : Request → List FileId
  | .claim _ ids | .release _ ids | .start _ ids | .abort _ ids => ids
  | .finish _ ids _ | .finishAndPersist _ _ _ ids _ => ids
  | _ => []

end Registry

namespace Fate

open Registry

variable {fate : Option DataFile → Option DataFile → Prop} (allowed : Fate fate)
  {key : PartitionKey} {id : FileId} (registry : Registry)

include allowed

/-- A change of one partition is seen there only. -/
theorem put {changing : PartitionKey} {left : Partition}
    (own : changing = key → fate ((registry.snapshot key).find? id) (left.find? id)) :
    fate ((registry.snapshot key).find? id)
      (((registry.put changing left).snapshot key).find? id) := by
  by_cases same : changing = key
  · subst same
    have after := partition_snapshot (partition?_put_self registry changing left)
    rw [Snapshot.find?.eq_def ((registry.put changing left).snapshot changing), after]
    exact own rfl
  · have other := partition?_put_of_ne registry (Ne.symm same) left
    rw [snapshot, snapshot, other]
    exact allowed.refl _

theorem within {α : Type} {changing : PartitionKey} {step : Partition.Step α}
    (each : changing = key → ∀ partition : Partition,
      fate (partition.find? id) ((leftBehind (step partition)).find? id)) :
    fate ((registry.snapshot key).find? id)
      (((leftBehind (Registry.within changing step registry)).snapshot key).find? id) := by
  rw [Registry.within]
  split
  · exact allowed.refl _
  · rename_i partition present
    rw [leftBehind_run]
    apply allowed.put
    rintro rfl
    rw [Snapshot.find?, partition_snapshot present]
    exact each rfl partition

theorem coversGroups :
    CoversGroups fun before after =>
      fate ((before.snapshot key).find? id) ((after.snapshot key).find? id) where
  refl _ := allowed.refl _
  trans := allowed.trans
  claim registry _ ids :=
    allowed.within registry fun _ partition =>
      allowed.shifts (by decide) (claim_shifts ids partition)
  release registry _ ids :=
    allowed.within registry fun _ partition =>
      allowed.shifts (by decide) (move_shifts .closed (by decide) ids partition)

theorem addAll (adding : PartitionKey) (space : Space) (files : List DataFile)
    (absent : id ∉ (registry.entering (.addAll adding space files) key).map DataFile.id) :
    fate ((registry.snapshot key).find? id)
      (((leftBehind (registry.addAll adding space files)).snapshot key).find? id) := by
  rw [entering] at absent
  cases outcome : registry.addAll adding space files with
  | error error after =>
      rw [atomic_addAll adding space files registry error after outcome]
      exact allowed.refl _
  | ok value after =>
      rw [outcome] at absent
      rcases registry.leftBehind_addAll adding space files with unchanged | changed
      · rw [← outcome, unchanged]
        exact allowed.refl _
      · rw [← outcome, changed]
        apply allowed.put
        rintro rfl
        rw [under, if_pos rfl] at absent
        change id ∉ files.map DataFile.id at absent
        rw [Partition.addAll_eq]
        split
        · exact allowed.refl _
        · change fate _ ((Partition.insertAll _ files).find? id)
          rw [find?_insertAll_of_not_mem absent]
          exact allowed.refl _

theorem finishGroup (finishing : PartitionKey) {ids : List FileId} (differ : ids.Nodup)
    {outputs : List DataFile}
    (absent : id ∉ (registry.entering (.finish finishing ids outputs) key).map DataFile.id) :
    fate ((registry.snapshot key).find? id)
      (((leftBehind (registry.finish finishing ids outputs)).snapshot key).find? id) := by
  rw [entering, Registry.finish, Registry.within] at absent
  rw [Registry.finish, Registry.within]
  split
  · exact allowed.refl _
  · rename_i partition present
    rw [present] at absent
    rw [leftBehind_run]
    apply allowed.put
    rintro rfl
    rw [under, if_pos rfl] at absent
    dsimp only at absent
    rw [Registry.run] at absent
    rw [Snapshot.find?, partition_snapshot present]
    apply allowed.finish differ
    cases outcome : Partition.finish ids outputs partition with
    | error error left => exact List.not_mem_nil
    | ok removed left =>
        rw [outcome] at absent
        exact absent

/-- A fate holds across a request that brings in no file under the number, if it allows for
the seals that the request may make. -/
theorem serve {request : Request} (group : request.group.Nodup)
    (sealing : ∀ ends, request = .sealFile key id ends → ∀ file changed : DataFile,
      file.sealWith ends = .ok changed → fate (some file) (some changed))
    (absent : id ∉ (registry.entering request key).map DataFile.id) :
    fate ((registry.snapshot key).find? id) (((registry.serve request).snapshot key).find? id) := by
  cases request with
  | addAll adding space files => exact allowed.addAll registry adding space files absent
  | recordWrite writing written device time =>
      exact allowed.within registry fun _ partition => allowed.recordWrite written device time
  | sealFile changing own ends =>
      apply allowed.within registry
      rintro rfl partition
      apply allowed.update
      intro file changed outcome
      refine ⟨(DataFile.Change.sealed ends outcome).place_eq.1, ?_⟩
      rintro rfl
      exact sealing ends rfl file changed outcome
  | delete deleting gone => exact allowed.within registry fun _ partition => allowed.delete gone
  | claim claiming ids => exact allowed.coversGroups.claim registry claiming ids
  | release releasing ids => exact allowed.coversGroups.release registry releasing ids
  | start starting ids =>
      exact allowed.within registry fun _ partition =>
        allowed.shifts (by decide) (move_shifts .compacting (by decide) ids partition)
  | abort aborting ids =>
      exact allowed.within registry fun _ partition =>
        allowed.shifts (by decide) (move_shifts .closed (by decide) ids partition)
  | finish finishing ids outputs => exact allowed.finishGroup registry finishing group absent
  | finishAndPersist layout disk finishing ids outputs =>
      rw [Registry.serve, registry_finishAndPersist]
      exact allowed.finishGroup registry finishing group absent
  | selectAndClaim config selecting =>
      exact allowed.coversGroups.selectAndClaim registry config selecting
  | runRound config => exact allowed.coversGroups.visit registry config .empty registry.keys

/-- A fate holds across a run of requests that bring in no file under the number. -/
theorem serveAll {requests : List Request} (groups : ∀ request ∈ requests, request.group.Nodup)
    (sealing : ∀ ends, .sealFile key id ends ∈ requests → ∀ file changed : DataFile,
      file.sealWith ends = .ok changed → fate (some file) (some changed))
    (absent : id ∉ (registry.arrivals requests key).map DataFile.id) :
    fate ((registry.snapshot key).find? id)
      (((registry.serveAll requests).snapshot key).find? id) := by
  induction requests generalizing registry with
  | nil => exact allowed.refl _
  | cons request rest ih =>
      rw [List.forall_mem_cons] at groups
      rw [arrivals, List.map_append, List.mem_append, not_or] at absent
      have first := allowed.serve registry groups.1
        (fun ends same => sealing ends (same ▸ List.mem_cons_self)) absent.1
      have others := ih (registry.serve request) groups.2
        (fun ends member => sealing ends (List.mem_cons_of_mem _ member)) absent.2
      exact allowed.trans first others

end Fate

end SeriesStore
