import SeriesStore.Proofs.Selection.Obstacle

/-!
# What a selection does not look at

The search for targets asks of the sequence files only which of them hold a device of the
unsequence file and where.  A sequence file without such a device can be left out, and as
the files are sorted first, the order in which they are given does not show.  An unsequence
file that has expired is passed over as if it were not there.
-/

namespace SeriesStore

namespace Selection

open DataFile

/-! ## Sequence files without the device -/

section Search

variable {first second : List DataFile} (firstOrder : first.Pairwise SortsBefore)
  (secondOrder : second.Pairwise SortsBefore)

include firstOrder secondOrder

theorem filter_eq_of_agree {choice : DataFile → Bool}
    (agree : ∀ file, choice file = true → (file ∈ first ↔ file ∈ second)) :
    first.filter choice = second.filter choice := by
  apply eq_of_increasing (firstOrder.filter choice) (secondOrder.filter choice)
  intro file
  rw [List.mem_filter, List.mem_filter]
  exact and_congr_left (agree file)

section Device

variable {device : String}
  (agree : ∀ file, file.holds device = true → (file ∈ first ↔ file ∈ second))

include agree

theorem filesAt_congr (position : Position) (interval : Interval) :
    filesAt position device interval first = filesAt position device interval second := by
  apply filter_eq_of_agree firstOrder secondOrder
  intro file placed
  have positioned : positionOf device interval file = some position := of_decide_eq_true placed
  rcases Option.map_eq_some_iff.mp positioned with ⟨span, found, _⟩
  exact agree file ((file.holds_iff device).mpr ⟨span, found⟩)

theorem deviceTargets?_congr (available : DataFile → Bool) (interval : Interval) :
    deviceTargets? available first device interval =
      deviceTargets? available second device interval := by
  have held : (first.any fun file => file.holds device) =
      second.any fun file => file.holds device := by
    rw [Bool.eq_iff_iff, List.any_eq_true, List.any_eq_true]
    exact exists_congr fun file => and_congr_left (agree file)
  simp only [deviceTargets?, neighbour?, filesAt_congr firstOrder secondOrder agree, held]

end Device

theorem allTargets?_congr (available : DataFile → Bool) {devices : List (String × Interval)}
    (agree : ∀ entry ∈ devices, ∀ file, file.holds entry.1 = true →
      (file ∈ first ↔ file ∈ second)) :
    allTargets? available first devices = allTargets? available second devices := by
  induction devices with
  | nil => rfl
  | cons entry rest ih =>
      obtain ⟨device, interval⟩ := entry
      rw [List.forall_mem_cons] at agree
      simp only [allTargets?, ih agree.2,
        deviceTargets?_congr firstOrder secondOrder agree.1 available interval]

/-- Sequence files that agree on the devices of an unsequence file give it the same targets. -/
theorem fileTargets?_congr (firstDistinct : (first.map DataFile.id).Nodup)
    (secondDistinct : (second.map DataFile.id).Nodup) {late : DataFile}
    (agree : ∀ device, late.holds device = true → ∀ file, file.holds device = true →
      (file ∈ first ↔ file ∈ second)) (available : DataFile → Bool) :
    fileTargets? available first late = fileTargets? available second late := by
  have same : allTargets? available first late.closedIntervals =
      allTargets? available second late.closedIntervals := by
    apply allTargets?_congr firstOrder secondOrder
    rintro ⟨device, interval⟩ listed
    have own := (late.mem_closedIntervals device interval).mp listed
    exact agree device ((late.holds_iff device).mpr ⟨_, own⟩)
  rw [fileTargets?, fileTargets?, same]
  cases found : allTargets? available second late.closedIntervals with
  | none => rfl
  | some targets =>
      rw [Option.map_some, Option.map_some]
      refine congrArg some (filter_eq_of_agree firstOrder secondOrder ?_)
      intro file chosen
      -- The target of the file's number is in both lists, and in either it is the file itself.
      obtain ⟨target, inTargets, same_id⟩ := List.any_eq_true.mp chosen
      have id_eq : target.id = file.id := beq_iff_eq.mp same_id
      have inFirst := mem_of_mem_allTargets? (same.trans found) inTargets
      have inSecond := mem_of_mem_allTargets? found inTargets
      constructor
      · intro member
        have eq := List.inj_on_of_nodup_map firstDistinct inFirst member id_eq
        exact eq ▸ inSecond
      · intro member
        have eq := List.inj_on_of_nodup_map secondDistinct inSecond member id_eq
        exact eq ▸ inFirst

end Search

/-! ## The scan -/

section Pending

variable {config : Config}

/-- A scan looks at the sequence files through the search for targets only. -/
theorem scan_congr {first second pending : List DataFile} (done : List Candidate) (draft : Draft)
    (same : ∀ late ∈ pending, ∀ available,
      fileTargets? available first late = fileTargets? available second late) :
    scan config first done draft pending = scan config second done draft pending := by
  induction pending generalizing done draft with
  | nil => rfl
  | cons late rest ih =>
      rw [List.forall_mem_cons] at same
      have placing : ∀ done draft,
          place config first done draft late = place config second done draft late := by
        intro done draft
        rw [place, place, same.1]
      have going_on : ∀ done draft,
          scan config first done draft rest = scan config second done draft rest :=
        fun done draft => ih done draft same.2
      simp only [scan, placing, going_on]

theorem scan_cons_of_skips {sequence rest : List DataFile} {done : List Candidate}
    {draft : Draft} {file : DataFile} (skips : config.Skips file) :
    scan config sequence done draft (file :: rest) = scan config sequence done draft rest := by
  rw [skips_iff] at skips
  simp [scan, skips.1, skips.2]

/-- Files that are passed over can be left out. -/
theorem scan_eq_of_sublist {sequence pending kept : List DataFile} (sublist : kept.Sublist pending)
    (distinct : pending.Nodup) (skipped : ∀ file ∈ pending, file ∉ kept → config.Skips file)
    (done : List Candidate) (draft : Draft) :
    scan config sequence done draft pending = scan config sequence done draft kept := by
  induction sublist generalizing done draft with
  | slnil => rfl
  | @cons kept rest file sublist ih =>
      obtain ⟨once, distinctRest⟩ := List.nodup_cons.mp distinct
      rw [List.forall_mem_cons] at skipped
      have dropped : file ∉ kept := fun member => once (sublist.subset member)
      rw [scan_cons_of_skips (skipped.1 dropped)]
      exact ih distinctRest skipped.2 done draft
  | @cons_cons kept rest file sublist ih =>
      obtain ⟨once, distinctRest⟩ := List.nodup_cons.mp distinct
      have skippedRest : ∀ other ∈ rest, other ∉ kept → config.Skips other := by
        intro other member absent
        apply skipped other (List.mem_cons_of_mem file member)
        rw [List.mem_cons, not_or]
        exact ⟨fun same => once (same ▸ member), absent⟩
      have going_on := ih distinctRest skippedRest
      simp only [scan, going_on]

end Pending

/-! ## Input with less in it -/

/-- Two given files that hold data of one device, in the snapshot's view of them. -/
def SharesDevice (snapshot : Snapshot) (file other : DataFile) : Prop :=
  ∃ recorded recordedOther device, snapshot.find? file.id = some recorded ∧
    snapshot.find? other.id = some recordedOther ∧
    recorded.holds device = true ∧ recordedOther.holds device = true

/-- Input that leaves out, of given input, only what does not matter: sequence files that
share no device with an unsequence file, and unsequence files that are passed over.  The
sequence files may be in any order. -/
structure Narrows (config : Config) (snapshot : Snapshot)
    (sequence unsequence chosen kept : List DataFile) : Prop where
  chosen_from : chosen.Subperm sequence
  related : ∀ file ∈ sequence, (∃ other ∈ unsequence, SharesDevice snapshot file other) →
    file ∈ chosen
  kept_from : kept.Sublist unsequence
  skipped : ∀ file ∈ unsequence, file ∉ kept →
    ∃ recorded, snapshot.find? file.id = some recorded ∧ config.Skips recorded

section Narrowing

variable {config : Config} {snapshot : Snapshot}
  {sequence unsequence chosen kept : List DataFile}
  (narrows : Narrows config snapshot sequence unsequence chosen kept)

include narrows

/-- On the devices of the unsequence files the views of the sequence files agree. -/
theorem Narrows.mem_viewOf_iff {late : DataFile} (listed : late ∈ snapshot.viewOf unsequence)
    {device : String} (lateHolds : late.holds device = true) {file : DataFile}
    (holds : file.holds device = true) :
    file ∈ snapshot.viewOf sequence ↔ file ∈ snapshot.viewOf chosen := by
  rw [Snapshot.mem_viewOf, Snapshot.mem_viewOf]
  obtain ⟨other, given, otherFound⟩ := (snapshot.mem_viewOf unsequence late).mp listed
  constructor
  · rintro ⟨own, member, found⟩
    have shares : SharesDevice snapshot own other :=
      ⟨file, late, device, found, otherFound, holds, lateHolds⟩
    exact ⟨own, narrows.related own member ⟨other, given, shares⟩, found⟩
  · rintro ⟨own, member, found⟩
    exact ⟨own, narrows.chosen_from.subset member, found⟩

theorem Narrows.skips_of_not_mem {file : DataFile} (listed : file ∈ snapshot.viewOf unsequence)
    (dropped : file ∉ snapshot.viewOf kept) : config.Skips file := by
  obtain ⟨own, member, found⟩ := (snapshot.mem_viewOf unsequence file).mp listed
  have absent : own ∉ kept :=
    fun again => dropped ((snapshot.mem_viewOf kept file).mpr ⟨own, again, found⟩)
  obtain ⟨recorded, recorded_found, skips⟩ := narrows.skipped own member absent
  rw [found] at recorded_found
  cases recorded_found
  exact skips

end Narrowing

/-- Irrelevant input does not matter: what is selected from given input is selected as well
when sequence files that share no device with an unsequence file are left out, the other
sequence files are given in another order, and closed unsequence files of the least level
that have expired are left out. -/
theorem irrelevant_input_is_ignored {config : Config} {snapshot : Snapshot}
    {sequence unsequence chosen kept : List DataFile} {candidates : List Candidate}
    (selected : selectFrom config snapshot sequence unsequence = .ok candidates)
    (narrows : Narrows config snapshot sequence unsequence chosen kept) :
    selectFrom config snapshot chosen kept = .ok candidates := by
  rcases resolveInput_of_selectFrom selected with ⟨early, late, resolved⟩
  have narrowed := resolveInput_of_subperm resolved narrows.chosen_from narrows.kept_from.subperm
  have facts := resolved_of_resolveInput resolved
  have narrowedFacts := resolved_of_resolveInput narrowed
  obtain ⟨_, rfl, rfl⟩ := resolveInput_eq_ok_iff.mp resolved
  have kept_view : (snapshot.viewOf kept).Sublist (snapshot.viewOf unsequence) :=
    narrows.kept_from.filterMap _
  have without_skipped :
      scan config ((snapshot.viewOf sequence).mergeSort comesFirst) [] .empty
          (snapshot.viewOf unsequence) =
        scan config ((snapshot.viewOf sequence).mergeSort comesFirst) [] .empty
          (snapshot.viewOf kept) :=
    scan_eq_of_sublist kept_view (List.Nodup.of_map _ facts.late_distinct)
      (fun _ => narrows.skips_of_not_mem) [] .empty
  have same_targets : ∀ file ∈ snapshot.viewOf kept, ∀ available,
      fileTargets? available ((snapshot.viewOf sequence).mergeSort comesFirst) file =
        fileTargets? available ((snapshot.viewOf chosen).mergeSort comesFirst) file := by
    intro file listed
    apply fileTargets?_congr facts.increasing narrowedFacts.increasing facts.early_distinct
      narrowedFacts.early_distinct
    intro device lateHolds own holds
    rw [List.mem_mergeSort, List.mem_mergeSort]
    exact narrows.mem_viewOf_iff (kept_view.subset listed) lateHolds holds
  rw [selectFrom_of_resolved config resolved, without_skipped,
    scan_congr [] .empty same_targets] at selected
  rw [selectFrom_of_resolved config narrowed]
  exact selected

end Selection

namespace Sample

open Selection

/-- A sequence file of a device that no unsequence file holds. -/
def stranger : DataFile :=
  file .sequence .closed 4 [("z", ⟨0, 10⟩)]

def wideRegistry : Registry :=
  (Registry.empty.serve (.addAll key .sequence (sequence ++ [stranger]))).serve
    (.addAll key .unsequence unsequence)

theorem resolveInput_wideRegistry :
    resolveInput (wideRegistry.snapshot key) (sequence ++ [stranger]) unsequence =
      .ok (sequence ++ [stranger], unsequence) := by
  cbv

theorem selectFrom_wideRegistry :
    selectFrom config (wideRegistry.snapshot key) (sequence ++ [stranger]) unsequence =
      .ok candidates := by
  cbv

/-- Without the stranger, in reverse order, and without the expired file. -/
theorem narrows_wideRegistry :
    Narrows config (wideRegistry.snapshot key) (sequence ++ [stranger]) unsequence
      sequence.reverse (unsequence.eraseIdx 1) := by
  have facts := resolved_of_resolveInput resolveInput_wideRegistry
  constructor
  case chosen_from =>
    exact (List.reverse_perm sequence).subperm.trans
      (List.sublist_append_left sequence [stranger]).subperm
  case related =>
    rintro own member ⟨other, given, recorded, recordedOther, device, found, otherFound, holds,
      otherHolds⟩
    rcases List.mem_append.mp member with inSequence | isStranger
    · exact List.mem_reverse.mpr inSequence
    · rw [facts.recorded own (List.mem_append_left _ member)] at found
      rw [facts.recorded other (List.mem_append_right _ given)] at otherFound
      cases found
      cases otherFound
      cases List.mem_singleton.mp isStranger
      obtain ⟨span, own_span⟩ := (stranger.holds_iff device).mp holds
      have device_eq := ((span?_file_iff _ _ _ _ _ _ _).mp own_span).1
      have absent : ∀ file ∈ unsequence, ¬ file.holds "z" = true := by decide
      exact absurd (device_eq ▸ otherHolds) (absent other given)
  case kept_from => exact List.eraseIdx_sublist _ _
  case skipped =>
    intro own member dropped
    have expired : ∀ file ∈ unsequence, file ∉ unsequence.eraseIdx 1 →
        file.status = .closed ∧ config.minLevel ≤ file.innerLevel ∧
          config.passesOver file = true := by decide
    exact ⟨own, facts.recorded own (List.mem_append_right _ member), expired own member dropped⟩

end Sample

namespace Selection

theorem irrelevant_input_is_ignored_sample :
    selectFrom Sample.config (Sample.wideRegistry.snapshot Sample.key) Sample.sequence.reverse
      (Sample.unsequence.eraseIdx 1) = .ok Sample.candidates :=
  irrelevant_input_is_ignored Sample.selectFrom_wideRegistry Sample.narrows_wideRegistry

end Selection

end SeriesStore
