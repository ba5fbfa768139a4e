import SeriesStore.Proofs.Registry.Deleted
import SeriesStore.Proofs.Registry.LateClaim
import SeriesStore.Proofs.Registry.Sealing

/-!
# Files that are not written any more

A file that has left the unclosed status keeps everything but its status and its spans,
and its spans change by seals alone.  Sealing looks at the lifecycle only, in which also
claimed files and files that are being merged may be closed.  Such a file is sealed again
by whatever ends, since all of its spans are closed, and it takes later ends over.

The other requests leave a claimed file alone until its group is given back, started,
given up or finished, except that a file that is being merged can be deleted.
-/

namespace SeriesStore

/-- A file that is not written any more can be closed just while it is claimed. -/
theorem Status.canBecome_closed_iff {status : Status} (settled : status ≠ .unclosed) :
    status.canBecome .closed ↔ status.isClaimed := by
  cases status <;> simp_all [canBecome, isClaimed]

namespace DataFile

/-- What a seal makes of a file all spans of which are closed: each takes over an end that
is supplied and later than its own. -/
structure Resealed (file : DataFile) (ends : EndTimes) (sealed : DataFile) : Prop where
  rest : ∃ devices, sealed = { file with status := .closed, devices := devices }
  spans : ∀ device, sealed.span? device = (file.span? device).map fun span =>
    .closed ⟨span.start, (ends.get? device).elim span.lastWrite (max span.lastWrite)⟩

section Reseal

variable {file : DataFile} (valid : file.Valid) (settled : file.status ≠ .unclosed)

include valid settled

/-- The spans of a valid file that is not written any more can be sealed with any ends. -/
theorem Valid.sealedInterval_eq {device : String} {span : DeviceSpan}
    (held : file.span? device = some span) (supplied : Option Timestamp) :
    sealedInterval device span supplied =
      .ok ⟨span.start, supplied.elim span.lastWrite (max span.lastWrite)⟩ := by
  rcases valid.exists_interval settled ((SortedMap.get?_eq_some_iff _ _ _).mp held) with
    ⟨own, rfl, ordered⟩
  exact sealedInterval_closed ordered supplied

/-- So the lifecycle alone decides whether it is sealed again. -/
theorem Valid.exists_reseal_iff (ends : EndTimes) :
    (∃ sealed, file.sealWith ends = .ok sealed) ↔ file.status.isClaimed := by
  rw [exists_sealWith_iff, Status.canBecome_closed_iff settled]
  exact and_iff_left fun device span held => ⟨_, valid.sealedInterval_eq settled held _⟩

theorem Valid.resealed {ends : EndTimes} {sealed : DataFile}
    (outcome : file.sealWith ends = .ok sealed) : file.Resealed ends sealed := by
  constructor
  case rest =>
    rcases sealWith_eq_ok outcome with ⟨entries, _, rfl⟩
    exact ⟨_, rfl⟩
  case spans =>
    intro device
    rcases span?_of_sealWith outcome device with ⟨none_iff, some_of⟩
    cases held : file.span? device with
    | none => exact none_iff.mpr held
    | some span =>
        rcases some_of span held with ⟨interval, made, found⟩
        rw [valid.sealedInterval_eq settled held] at made
        cases made
        exact found

end Reseal

end DataFile

namespace Registry

open Selection

/-- Whether a request ends the claim of a file of the given status: its group is given back,
started, given up or finished, it is sealed, or it is deleted while it is being merged. -/
def Request.Concludes (key : PartitionKey) (id : FileId) (status : Status) : Request → Prop
  | .release asked ids | .start asked ids => asked = key ∧ id ∈ ids ∧ status = .candidate
  | .abort asked ids | .finish asked ids _ | .finishAndPersist _ _ asked ids _ =>
      asked = key ∧ id ∈ ids ∧ status = .compacting
  | .delete asked gone => asked = key ∧ gone = id ∧ status = .compacting
  | .sealFile asked sealed _ => asked = key ∧ sealed = id
  | .addAll .. | .recordWrite .. | .claim .. | .selectAndClaim .. | .runRound _ => False

instance (key : PartitionKey) (id : FileId) (status : Status) :
    (request : Request) → Decidable (request.Concludes key id status)
  | .release .. | .start .. | .abort .. | .finish .. | .finishAndPersist .. | .delete .. =>
      inferInstanceAs (Decidable (_ ∧ _ ∧ _))
  | .sealFile .. => inferInstanceAs (Decidable (_ ∧ _))
  | .addAll .. | .recordWrite .. | .claim .. | .selectAndClaim .. | .runRound _ =>
      inferInstanceAs (Decidable False)

/-! ## Claimed files keep their status -/

theorem keepsOutside_withStatus (registry : Registry) (key : PartitionKey) (status : Status)
    (ids : List FileId) : KeepsOutside key ids registry (registry.withStatus key status ids) := by
  rw [withStatus]
  split
  · exact .refl key ids registry
  · rename_i partition present
    apply keepsOutside_put
    rw [partition_snapshot present]
    intro id outside other registered
    rwa [Partition.status?_withStatus_of_not_mem outside]

section Keeps

variable {registry : Registry} {key asked : PartitionKey} {id : FileId} {ids : List FileId}
  {status : Status} (held : registry.status? key id = some status)

include held

/-- A step on a group in which a member has another status than it must have is refused. -/
theorem status?_group {α : Type} {step : Partition.Step α} {source target : Status}
    (keeps : ∀ partition, Partition.KeepsOutside ids partition (leftBehind (step partition)))
    (refused : ∀ partition error, partition.expectStatus source target ids = .error error →
      step partition = .error error partition)
    (other : asked = key → id ∈ ids → status ≠ source) :
    (leftBehind (within asked step registry)).status? key id = some status := by
  by_cases concerned : asked = key ∧ id ∈ ids
  · rcases concerned with ⟨rfl, member⟩
    rcases exists_partition_of_status? held with ⟨partition, present⟩
    have registered := held
    rw [status?, partition_snapshot present] at registered
    cases checked : partition.expectStatus source target ids with
    | error error =>
        rw [within_eq_error present (refused partition error checked)]
        exact held
    | ok _ =>
        have expected : partition.status? id = some source :=
          (Partition.status?_eq_some_iff _ _ _).mpr
            ((Partition.expectStatus_eq_ok_iff _ _ _ _).mp checked id member)
        rw [registered] at expected
        exact absurd (Option.some.inj expected) (other rfl member)
  · have outside : key = asked → id ∉ ids := fun same member => concerned ⟨same.symm, member⟩
    exact keepsOutside_within keeps registry asked key id outside status held

theorem status?_move {source : Status} (target : Status)
    (other : asked = key → id ∈ ids → status ≠ source) :
    (leftBehind (within asked (Partition.move source target ids) registry)).status? key id =
      some status := by
  have refused : ∀ partition error, Partition.expectStatus partition source target ids =
      .error error → Partition.move source target ids partition = .error error partition := by
    intro partition error checked
    rw [Partition.move, Partition.check_bind, checked]
  exact status?_group held (Partition.keepsOutside_move source target ids) refused other

theorem status?_finish (outputs : List DataFile)
    (other : asked = key → id ∈ ids → status ≠ .compacting) :
    (leftBehind (registry.finish asked ids outputs)).status? key id = some status := by
  have refused : ∀ partition error, Partition.expectStatus partition .compacting .deleted ids =
      .error error → Partition.finish ids outputs partition = .error error partition := by
    intro partition error checked
    rw [Partition.finish_eq, checked]
  exact status?_group held (Partition.keepsOutside_finish ids outputs) refused other

/-- A claim takes closed files only. -/
theorem status?_claim (differ : ids.Nodup) (claimed : status ≠ .closed) :
    (leftBehind (registry.claim asked ids)).status? key id = some status := by
  rcases registry.claim_cases asked differ with ⟨error, refused⟩ | ⟨closed, _⟩
  · rw [refused]
    exact held
  · have outside : key = asked → id ∉ ids := by
      rintro rfl member
      rw [closed id member] at held
      exact claimed (Option.some.inj held).symm
    exact keepsOutside_within (Partition.keepsOutside_claim ids) registry asked key id outside
      status held

/-- A claimed file cannot be deleted before it is being merged. -/
theorem status?_delete {gone : FileId} (claimed : status.isClaimed)
    (other : asked = key → gone = id → status ≠ .compacting) :
    (leftBehind (registry.delete asked gone)).status? key id = some status := by
  by_cases own : asked = key ∧ gone = id
  · rcases own with ⟨rfl, rfl⟩
    rcases exists_partition_of_status? held with ⟨partition, present⟩
    have candidate : status = .candidate := by
      have notMerged := other rfl rfl
      simpa [Status.isClaimed, notMerged] using claimed
    have registered := held
    rw [status?, partition_snapshot present, candidate] at registered
    rcases Partition.delete_eq_error_of_candidate registered with ⟨error, refused⟩
    rw [delete, within_eq_error present refused]
    exact held
  · have outside : key = asked → id ∉ [gone] := by
      intro same member
      exact own ⟨same.symm, (List.mem_singleton.mp member).symm⟩
    exact keepsOutside_within (Partition.keepsOutside_delete gone) registry asked key id outside
      status held

theorem status?_selectAndClaim (reachable : registry.Reachable) (claimed : status ≠ .closed)
    (config : Config) (asked : PartitionKey) :
    (leftBehind (selectAndClaim config asked registry)).status? key id = some status := by
  cases selected : select config (registry.snapshot asked) with
  | error error =>
      rw [selectAndClaim, selected]
      exact held
  | ok candidates =>
      rcases reachable.consistent asked with ⟨log, consistent⟩
      rw [selectAndClaim_eq_withStatus consistent.distinct selected]
      apply keepsOutside_withStatus registry asked .candidate _ key id _ status held
      rintro rfl member
      rw [closed_of_select selected id member] at held
      exact claimed (Option.some.inj held).symm

theorem status?_visit (reachable : registry.Reachable) (claimed : status ≠ .closed)
    (config : Config) (round : Round) (keys : List PartitionKey) :
    (visit config round registry keys).2.status? key id = some status := by
  induction keys generalizing registry round with
  | nil => exact held
  | cons first rest ih =>
      have kept := status?_selectAndClaim held reachable claimed config first
      have served := reachable.served (.selectAndClaim config first)
      rw [serve] at served
      rw [visit]
      split <;> rename_i outcome <;> rw [outcome] at kept served <;> exact ih kept served _

end Keeps

/-- A claimed file keeps its status when a request does not end the claim. -/
theorem status?_serve {registry : Registry} (reachable : registry.Reachable)
    {request : Request} (group : request.group.Nodup) {key : PartitionKey} {id : FileId}
    {status : Status} (held : registry.status? key id = some status) (claimed : status.isClaimed)
    (kept : ¬ request.Concludes key id status) :
    (registry.serve request).status? key id = some status := by
  have notClosed : status ≠ .closed := by
    rintro rfl
    contradiction
  cases request with
  | addAll adding space files =>
      exact keepsOutside_addAll registry adding space files key id (fun _ => List.not_mem_nil)
        status held
  | recordWrite writing written device time =>
      exact keepsOutside_within (Partition.keepsOutside_recordWrite written device time) registry
        writing key id (fun _ => List.not_mem_nil) status held
  | sealFile sealing own ends =>
      apply keepsOutside_within (Partition.keepsOutside_sealFile own ends) registry sealing key id
        _ status held
      intro same member
      exact kept ⟨same.symm, (List.mem_singleton.mp member).symm⟩
  | delete deleting gone =>
      exact status?_delete held claimed fun same own merged => kept ⟨same, own, merged⟩
  | claim claiming ids => exact status?_claim held group notClosed
  | release releasing ids =>
      exact status?_move held .closed fun same member candidate => kept ⟨same, member, candidate⟩
  | start starting ids =>
      exact status?_move held .compacting fun same member candidate =>
        kept ⟨same, member, candidate⟩
  | abort aborting ids =>
      exact status?_move held .closed fun same member merged => kept ⟨same, member, merged⟩
  | finish finishing ids outputs =>
      exact status?_finish held outputs fun same member merged => kept ⟨same, member, merged⟩
  | finishAndPersist layout disk finishing ids outputs =>
      rw [serve, registry_finishAndPersist]
      exact status?_finish held outputs fun same member merged => kept ⟨same, member, merged⟩
  | selectAndClaim config selecting =>
      exact status?_selectAndClaim held reachable notClosed config selecting
  | runRound config => exact status?_visit held reachable notClosed config .empty registry.keys

/-! ## Claimed files stay as they are -/

/-- A file comes in under a registered number only when the group of the registered file is
finished. -/
theorem concludes_of_entering {registry : Registry} {request : Request} {key : PartitionKey}
    {id : FileId} {own : DataFile} (found : (registry.snapshot key).find? id = some own)
    (entered : id ∈ (registry.entering request key).map DataFile.id) :
    request.Concludes key id own.status := by
  rcases List.mem_map.mp entered with ⟨file, member, rfl⟩
  cases request with
  | addAll adding space files =>
      rw [free_of_addAll member] at found
      contradiction
  | finish finishing ids outputs => exact taken_over_of_finish member found
  | finishAndPersist layout disk finishing ids outputs => exact taken_over_of_finish member found
  | _ => contradiction

section Claimed

variable {registry : Registry} (reachable : registry.Reachable) {key : PartitionKey}
  {id : FileId} {file : DataFile} (registered : registry.file key id = .ok file)
  (claimed : file.status.isClaimed)

include reachable registered claimed

theorem file_serve {request : Request} (group : request.group.Nodup)
    (kept : ¬ request.Concludes key id file.status) :
    (registry.serve request).file key id = .ok file := by
  rw [file_eq_ok_iff] at registered ⊢
  have held : registry.status? key id = some file.status :=
    (Partition.status?_eq_some_iff _ _ _).mpr ⟨file, registered, rfl⟩
  have stays := status?_serve reachable group held claimed kept
  rcases (Partition.status?_eq_some_iff _ _ _).mp stays with ⟨later, found, status_eq⟩
  have absent : id ∉ (registry.entering request key).map DataFile.id :=
    fun entered => kept (concludes_of_entering registered entered)
  have settled : file.status ≠ .unclosed := by
    intro unclosed
    rw [unclosed] at claimed
    contradiction
  have once := @settled_of_serveAll registry key id file registered settled [request]
    (by simpa using group) (by simpa [arrivals] using absent) later found
  have unsealed : ∀ ends, .sealFile key id ends ∉ [request] := by
    intro ends isSeal
    rw [← List.mem_singleton.mp isSeal] at kept
    exact kept ⟨rfl, rfl⟩
  rcases once with ⟨_, devices, later_eq, same⟩
  rw [same unsealed, status_eq] at later_eq
  rw [found, later_eq]

theorem file_serveAll {requests : List Request}
    (groups : ∀ request ∈ requests, request.group.Nodup)
    (kept : ∀ request ∈ requests, ¬ request.Concludes key id file.status) :
    (registry.serveAll requests).file key id = .ok file := by
  induction requests generalizing registry with
  | nil => exact registered
  | cons request rest ih =>
      rw [List.forall_mem_cons] at groups kept
      have first := file_serve reachable registered claimed groups.1 kept.1
      exact ih (reachable.served request) first groups.2 kept.2

end Claimed

/-! ## What happens to a file that is not written any more -/

/-- A file that is not written any more is sealed again just while it is claimed, with any
ends, and then takes over those that are later.  Nothing else changes its spans, and nothing
its size, levels or ordering key.  A claimed file stays the same, in its status, until a
request ends the claim. -/
theorem settled_file_changes_by_seals_alone {registry : Registry} (reachable : registry.Reachable)
    {key : PartitionKey} {id : FileId} {file : DataFile}
    (registered : registry.file key id = .ok file) (settled : file.status ≠ .unclosed) :
    (∀ ends,
      ((∃ sealed after, registry.sealFile key id ends = .ok sealed after) ↔
        file.status.isClaimed) ∧
      ∀ sealed after, registry.sealFile key id ends = .ok sealed after →
        after.file key id = .ok sealed ∧ file.Resealed ends sealed) ∧
    ∀ requests : List Request, (∀ request ∈ requests, request.group.Nodup) →
      (id ∉ (registry.arrivals requests key).map DataFile.id →
        ∀ later, (registry.serveAll requests).file key id = .ok later →
          later.status ≠ .unclosed ∧
            ∃ devices, later = { file with status := later.status, devices := devices } ∧
              ((∀ ends, .sealFile key id ends ∉ requests) → devices = file.devices)) ∧
      (file.status.isClaimed → (∀ request ∈ requests, ¬ request.Concludes key id file.status) →
        (registry.serveAll requests).file key id = .ok file) := by
  have valid : file.Valid := reachable.valid_of_find? ((file_eq_ok_iff _ _ _ _).mp registered)
  constructor
  · intro ends
    rw [← valid.exists_reseal_iff settled ends, sealFile_eq registered]
    cases sealing : file.sealWith ends with
    | error error => simp
    | ok changed =>
        have same_id := (DataFile.Change.sealed ends sealing).place_eq.1
        have resealed := valid.resealed settled sealing
        refine ⟨by simp, ?_⟩
        rintro _ _ ⟨rfl, rfl⟩
        exact ⟨file_replaceFile registered same_id, resealed⟩
  · intro requests groups
    constructor
    · intro absent later found
      rw [file_eq_ok_iff] at registered found
      exact settled_of_serveAll registered settled groups absent found
    · intro claimed kept
      exact file_serveAll reachable registered claimed groups kept

end Registry

/-! ## A claimed file

File 2 has been claimed.  Requests that do not end the claim pass it by, and a seal closes it
with a later end. -/

namespace Sample

def claimedFile : DataFile :=
  file .sequence .candidate 2 [("a", ⟨20, 30⟩)]

def laterEnds : EndTimes :=
  .ofList _ [("a", 39)]

def bystanders : List Registry.Request :=
  [.delete key 2, .recordWrite key 2 "a" 99, .claim key second.ids, .abort key second.ids,
    .finish key second.ids [], .selectAndClaim config key, .release key first.ids]

/-- Requests that give the group of file 2 back and claim file 2 alone. -/
def regrouping : List Registry.Request :=
  [.release key second.ids, .claim key [2]]

theorem claimedFile_registered : contended.file key 2 = .ok claimedFile :=
  (Registry.file_eq_ok_iff _ _ _ _).mpr (by decide +kernel)

end Sample

namespace Registry

theorem settled_file_changes_by_seals_alone_sample :
    (Sample.contended.serveAll Sample.bystanders).file Sample.key 2 = .ok Sample.claimedFile ∧
      (∀ later, (Sample.contended.serveAll Sample.regrouping).file Sample.key 2 = .ok later →
        later.devices = Sample.claimedFile.devices) ∧
      ∃ sealed after, Sample.contended.sealFile Sample.key 2 Sample.laterEnds = .ok sealed after ∧
        Sample.claimedFile.Resealed Sample.laterEnds sealed := by
  have groups : ∀ request ∈ Sample.bystanders, request.group.Nodup := by
    simp only [Sample.bystanders, List.forall_mem_cons]
    decide +kernel
  have kept : ∀ request ∈ Sample.bystanders,
      ¬ request.Concludes Sample.key 2 Sample.claimedFile.status := by
    simp only [Sample.bystanders, List.forall_mem_cons]
    decide +kernel
  have regroups : ∀ request ∈ Sample.regrouping, request.group.Nodup := by
    simp only [Sample.regrouping, List.forall_mem_cons]
    decide +kernel
  have absent :
      2 ∉ (Sample.contended.arrivals Sample.regrouping Sample.key).map DataFile.id := by
    decide +kernel
  rcases settled_file_changes_by_seals_alone Sample.contended_reachable
    Sample.claimedFile_registered (by decide) with ⟨seals, runs⟩
  rcases seals Sample.laterEnds with ⟨sealed_iff, done⟩
  rcases sealed_iff.mpr rfl with ⟨sealed, after, outcome⟩
  refine ⟨(runs Sample.bystanders groups).2 rfl kept, ?_, sealed, after, outcome,
    (done sealed after outcome).2⟩
  intro later found
  rcases (runs Sample.regrouping regroups).1 absent later found with ⟨_, devices, later_eq, same⟩
  have unsealed : ∀ ends, .sealFile Sample.key 2 ends ∉ Sample.regrouping := by
    simp [Sample.regrouping]
  rw [later_eq, same unsealed]

/-- A claimed file is sealed, which closes it and changes its spans. -/
theorem claimed_file_is_sealed :
    Sample.contended.Reachable ∧ ∃ file sealed after,
      Sample.contended.file Sample.key 2 = .ok file ∧ file.status = .candidate ∧
        Sample.contended.sealFile Sample.key 2 Sample.laterEnds = .ok sealed after ∧
        sealed.status = .closed ∧
        file.span? "a" = some (.closed ⟨20, 30⟩) ∧
        sealed.span? "a" = some (.closed ⟨20, 39⟩) := by
  have settled : Sample.claimedFile.status ≠ .unclosed := by decide
  have valid : Sample.claimedFile.Valid :=
    Sample.contended_reachable.valid_of_find?
      ((file_eq_ok_iff _ _ _ _).mp Sample.claimedFile_registered)
  rcases (valid.exists_reseal_iff settled Sample.laterEnds).mpr rfl with ⟨sealed, sealing⟩
  rcases valid.resealed settled sealing with ⟨⟨devices, rest⟩, spans⟩
  have outcome := sealFile_eq Sample.claimedFile_registered Sample.laterEnds
  rw [sealing] at outcome
  refine ⟨Sample.contended_reachable, Sample.claimedFile, sealed, _,
    Sample.claimedFile_registered, rfl, outcome, ?_, by decide +kernel, ?_⟩
  · rw [rest]
  · rw [spans]
    decide +kernel

end Registry

end SeriesStore
