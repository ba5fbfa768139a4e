import SeriesStore.Proofs.Selection.Obstacle

/-!
# Why candidates are split

A draft becomes a candidate before the end of the scan only because the next unsequence file
broke its budget.  The scan then looks for the targets of this file anew, and the file is
the first one of the next draft or the last one that is looked at.  So along a run the
draft remembers by its first unsequence file why it was opened (`Scan.State.Opened`), and
of two candidates in a row the later one begins with what was too much for the earlier one.
-/

namespace SeriesStore

namespace Selection

open Scan

/-- An unsequence file that has targets beside the candidates in `earlier`, but is too much
for the candidate `full` together with those targets that `full` does not have. -/
structure Overflows (config : Config) (sequence : List DataFile) (earlier : List Candidate)
    (full : Candidate) (late : DataFile) : Prop where
  unblocked : ∀ device interval, late.span? device = some (.closed interval) →
    ¬ Blocked (Available earlier) sequence device interval
  exceeds : ∃ added : List DataFile, added.Nodup ∧
    (∀ file, file ∈ added ↔ file ∉ full.sequence ∧ ∃ device interval,
      late.span? device = some (.closed interval) ∧
      IsTarget (Available earlier) sequence device interval file) ∧
    (config.maxFiles < full.count + (1 + added.length) ∨
      config.maxSize.toNat <
        min (totalSize full.files + (late.size.toNat + totalSize added)) (UInt64.size - 1))

/-- An unsequence file that broke the budget of a draft, which then became a candidate. -/
def Displaced (config : Config) (sequence : List DataFile) (earlier : List Candidate)
    (full : Candidate) (late : DataFile) : Prop :=
  ∃ draft : Draft, draft.Filled config sequence earlier ∧ draft.freeze? = some full ∧
    place config sequence earlier draft late = .overBudget

/-- Candidates each of which begins with the file that was too much for the one before. -/
def PackedInTurn (config : Config) (sequence : List DataFile) (candidates : List Candidate) :
    Prop :=
  ∀ earlier full next later, candidates = earlier ++ full :: next :: later →
    ∃ first, next.unsequence.head? = some first ∧
      Displaced config sequence earlier full first

/-! ## Along a run -/

/-- A moment at which the draft was opened, or is going to be, by the file that was too much
for the last candidate. -/
def Scan.State.Opened (config : Config) (sequence : List DataFile) (state : State) : Prop :=
  ∀ earlier full, state.done = earlier ++ [full] →
    ∃ first, (state.draft.unsequence ++ state.pending).head? = some first ∧
      config.passesOver first = false ∧ Displaced config sequence earlier full first

section Run

variable {config : Config} {sequence : List DataFile}

/-- A draft that becomes a candidate passes on why it was opened. -/
theorem PackedInTurn.append {done : List Candidate} {draft : Draft} {candidate : Candidate}
    {passed pending : List DataFile} (packed : PackedInTurn config sequence done)
    (opened : State.Opened config sequence ⟨done, draft, passed, pending⟩)
    (frozen : draft.freeze? = some candidate) :
    PackedInTurn config sequence (done ++ [candidate]) := by
  intro earlier full next later split
  rcases List.eq_nil_or_concat later with rfl | ⟨front, last, rfl⟩
  · have regrouped : done ++ [candidate] = (earlier ++ [full]) ++ [next] := by simpa using split
    obtain ⟨done_eq, same⟩ := List.append_inj' regrouped rfl
    cases same
    obtain ⟨first, head_eq, _, displaced⟩ := opened earlier full done_eq
    have hasLate := ((Draft.freeze?_eq_some_iff candidate).mp frozen).2.1
    rw [List.head?_append_of_ne_nil _ hasLate] at head_eq
    exact ⟨first, by rw [Draft.unsequence_of_freeze? frozen, head_eq], displaced⟩
  · have regrouped : done ++ [candidate] = (earlier ++ full :: next :: front) ++ [last] := by
      simpa using split
    exact packed earlier full next front (List.append_inj' regrouped rfl).1

/-- Only the file that opens a draft comes next while the draft is empty, and this file is
not passed over. -/
theorem opened_of_step {state next : State} (filled : state.draft.Filled config sequence state.done)
    (opened : state.Opened config sequence) (step : Step config sequence state next) :
    next.Opened config sequence := by
  cases step with
  | @passOver done draft passed pending late admitted expired =>
      intro earlier full done_eq
      obtain ⟨first, head_eq, unexpired, displaced⟩ := opened earlier full done_eq
      refine ⟨first, ?_, unexpired, displaced⟩
      cases taken : draft.unsequence with
      | nil =>
          simp only [taken, List.nil_append, List.head?_cons, Option.some.injEq] at head_eq
          rw [head_eq, unexpired] at expired
          contradiction
      | cons oldest rest =>
          simp only [taken, List.cons_append, List.head?_cons] at head_eq ⊢
          exact head_eq
  | @take done draft next passed pending late admitted unexpired placed =>
      obtain ⟨own, _, _, rfl⟩ := (place_eq_placed_iff _ _ _ _ _ _).mp placed
      intro earlier full done_eq
      rw [Draft.commit_unsequence, List.append_assoc]
      exact opened earlier full done_eq
  | @freeze done draft passed pending late candidate admitted unexpired full frozen room =>
      intro earlier other done_eq
      obtain ⟨rfl, same⟩ := List.append_inj' done_eq rfl
      cases same
      exact ⟨late, rfl, unexpired, draft, filled, frozen, full⟩

theorem packedInTurn_of_run {start final : State} (run : Run config sequence start final)
    (filled : start.draft.Filled config sequence start.done)
    (inTurn : FrozenInTurn config sequence start.done)
    (opened : start.Opened config sequence) (packed : PackedInTurn config sequence start.done) :
    final.Opened config sequence ∧ PackedInTurn config sequence final.done := by
  induction run with
  | refl => exact ⟨opened, packed⟩
  | tail before step ih =>
      have filled_there := (frozenInTurn_of_run before filled inTurn).1
      refine ⟨opened_of_step filled_there ih.1 step, ?_⟩
      cases step with
      | passOver _ _ => exact ih.2
      | take _ _ _ => exact ih.2
      | freeze _ _ _ frozen _ => exact ih.2.append ih.1 frozen

theorem packedInTurn_result {pending : List DataFile} {final : State}
    (run : Run config sequence (State.initial pending) final) :
    PackedInTurn config sequence final.result := by
  obtain ⟨opened, packed⟩ := packedInTurn_of_run run .empty (frozenInTurn_nil config sequence)
    (by intro earlier full split; simp [State.initial] at split)
    (by intro earlier full next later split; simp [State.initial] at split)
  rw [State.result, closeScan]
  cases freezing : final.draft.freeze? with
  | none => simpa using packed
  | some candidate => exact packed.append opened freezing

end Run

/-! ## What was too much -/

section Overflow

variable {config : Config} {sequence : List DataFile} {earlier : List Candidate}
  {full : Candidate} {late : DataFile} (increasing : sequence.Pairwise DataFile.SortsBefore)
  (distinct : (sequence.map DataFile.id).Nodup) (valid : ∀ file ∈ sequence, file.Valid)
  (lateValid : late.Valid)

include distinct in
/-- The targets that a candidate lacks are those that were missing in its draft. -/
theorem mem_missing_iff {draft : Draft} {own : List DataFile}
    (filled : draft.Filled config sequence earlier) (frozen : draft.freeze? = some full)
    (found : fileTargets? (isAvailable earlier) sequence late = some own) (file : DataFile) :
    file ∈ draft.missing own ↔ file ∉ full.sequence ∧ file ∈ own := by
  rw [Draft.mem_missing, Draft.mem_sequence_of_freeze? frozen, and_comm]
  apply and_congr_left
  intro inOwn
  have listed := (mem_of_mem_fileTargets? distinct found inOwn).1
  constructor
  · intro absent member
    exact absent file member rfl
  · intro absent other member same
    have otherListed := (filled.mem_sequence distinct member).1
    have eq : other = file := List.inj_on_of_nodup_map distinct otherListed listed same
    exact absent (eq ▸ member)

include increasing distinct valid lateValid

theorem Displaced.overflows (displaced : Displaced config sequence earlier full late) :
    Overflows config sequence earlier full late := by
  obtain ⟨draft, filled, frozen, full_eq⟩ := displaced
  obtain ⟨own, found, breaks⟩ := (place_eq_overBudget_iff _ _ _ _ _).mp full_eq
  constructor
  case unblocked =>
    intro device interval closed
    obtain ⟨targets, search⟩ := exists_deviceTargets found closed
    have free := not_blocked_of_deviceTargets? increasing valid
      (lateValid.ordered_of_span? closed) search
    simpa only [isAvailable_iff] using free
  case exceeds =>
    have own_nodup : own.Nodup :=
      (fileTargets?_sublist found).nodup (List.Nodup.of_map _ distinct)
    refine ⟨draft.missing own, own_nodup.filter _, fun file => ?_, ?_⟩
    · rw [mem_missing_iff distinct filled frozen found,
        mem_fileTargets?_iff_isTarget increasing distinct valid lateValid found]
    · rw [Draft.count_of_freeze? frozen, totalSize_perm (Draft.files_perm_of_freeze? frozen)]
      exact (filled.fits_eq_false_iff late (draft.missing own)).mp breaks

end Overflow

/-- Candidates are split only when the budget forces it: the first unsequence member of a
candidate was not blocked when the candidate before it was made, and is too much for that one
together with the targets that it had then. -/
theorem candidates_split_when_full {registry : Registry} {key : PartitionKey} {config : Config}
    {sequence unsequence early late : List DataFile} {candidates earlier later : List Candidate}
    {full next : Candidate} (reachable : registry.Reachable)
    (resolved : resolveInput (registry.snapshot key) sequence unsequence = .ok (early, late))
    (selected : selectFrom config (registry.snapshot key) sequence unsequence = .ok candidates)
    (split : candidates = earlier ++ full :: next :: later) :
    ∃ first, next.unsequence.head? = some first ∧
      Overflows config early earlier full first := by
  have facts := resolved_of_resolveInput resolved
  have packed : PackedInTurn config early candidates := by
    rcases selectFrom_eq_ok resolved selected with ⟨_, rfl⟩ | ⟨_, final, run, _, rfl⟩
    · intro earlier full next later split
      simp at split
    · exact packedInTurn_result run
  obtain ⟨first, head_eq, displaced⟩ := packed earlier full next later split
  have made : next ∈ candidates := by simp [split]
  have isLate := (late_of_selectFrom resolved selected made (List.mem_of_head? head_eq)).1
  have valid : ∀ file ∈ early ++ late, file.Valid :=
    fun file member => valid_of_resolved reachable resolved member
  refine ⟨first, head_eq, displaced.overflows facts.increasing facts.early_distinct ?_ ?_⟩
  · exact fun file member => valid file (List.mem_append_left late member)
  · exact valid first (List.mem_append_right early isLate)

theorem candidates_split_when_full_sample :
    ∃ first, Sample.second.unsequence.head? = some first ∧
      Overflows Sample.config Sample.sequence [] Sample.first first :=
  candidates_split_when_full Sample.registry_reachable Sample.resolveInput_registry
    Sample.selectFrom_registry (show Sample.candidates = [] ++ Sample.first :: Sample.second ::
      [Sample.third] from rfl)

end Selection

end SeriesStore
