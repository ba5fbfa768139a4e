import SeriesStore.Proofs.Selection.Budget

/-!
# The number of candidates

How many candidates a selection may make is asked at one moment only, when a further one is
to be opened.  So every step under a smaller number is a step under a larger one, and where
the smaller number is what stops the scan, it has made as many candidates as it may.  None
of these is changed by what a larger number lets the scan do afterwards.
-/

namespace SeriesStore.Selection

open Scan

/-! ## Candidates stay -/

theorem done_prefix_of_step {config : Config} {sequence : List DataFile} {state next : State}
    (step : Step config sequence state next) : state.done <+: next.done := by
  cases step with
  | passOver _ _ => exact List.prefix_rfl
  | take _ _ _ => exact List.prefix_rfl
  | freeze _ _ _ _ _ => exact List.prefix_append _ _

theorem done_prefix_of_run {config : Config} {sequence : List DataFile} {start final : State}
    (run : Run config sequence start final) : start.done <+: final.done := by
  induction run with
  | refl => exact List.prefix_rfl
  | tail _ step ih => exact ih.trans (done_prefix_of_step step)

/-- A scan returns the candidates that it begins with, and others after them. -/
theorem done_prefix_scan (config : Config) (sequence : List DataFile) (done : List Candidate)
    (draft : Draft) (pending : List DataFile) :
    done <+: scan config sequence done draft pending := by
  obtain ⟨final, run, _, scan_eq⟩ := exists_run config sequence done draft [] pending
  rw [scan_eq]
  exact (done_prefix_of_run run).trans (List.prefix_append _ _)

/-! ## Two numbers of candidates -/

section

variable {config : Config} {sequence : List DataFile} {fewer more : Nat} (le : fewer ≤ more)

include le

/-- What may be done under a smaller number may be done under a larger one. -/
theorem Scan.Step.of_fewer {state next : State}
    (step : Step { config with maxCandidates := fewer } sequence state next) :
    Step { config with maxCandidates := more } sequence state next := by
  cases step with
  | passOver admitted expired => exact .passOver admitted expired
  | take admitted unexpired placed => exact .take admitted unexpired placed
  | freeze admitted unexpired full frozen room =>
      exact .freeze admitted unexpired full frozen (Nat.lt_of_lt_of_le room le)

theorem run_of_fewer {start final : State}
    (run : Run { config with maxCandidates := fewer } sequence start final) :
    Run { config with maxCandidates := more } sequence start final :=
  Relation.ReflTransGen.mono (fun _ _ step => step.of_fewer le) _ _ run

omit le in
/-- Where a scan stops under the smaller number but not under the larger one, the draft
becomes the last candidate that the smaller number allows. -/
theorem frozen_of_stopped {final next : State}
    (terminal : Terminal { config with maxCandidates := fewer } sequence final)
    (step : Step { config with maxCandidates := more } sequence final next) :
    next.done = final.result ∧ fewer ≤ next.done.length := by
  cases step with
  | passOver admitted expired => exact absurd (.passOver admitted expired) (terminal _)
  | take admitted unexpired placed => exact absurd (.take admitted unexpired placed) (terminal _)
  | freeze admitted unexpired full frozen _ =>
      constructor
      · simp [State.result, closeScan, frozen]
      · rw [List.length_append]
        exact Nat.not_lt.mp fun room => terminal _ (.freeze admitted unexpired full frozen room)

theorem scan_eq_take (positive : 0 < fewer) (pending : List DataFile) :
    scan { config with maxCandidates := fewer } sequence [] .empty pending =
      (scan { config with maxCandidates := more } sequence [] .empty pending).take fewer := by
  obtain ⟨final, run, terminal, scan_eq⟩ :=
    exists_run { config with maxCandidates := fewer } sequence [] .empty [] pending
  have room : final.done.length < fewer := room_of_run run positive
  have within : final.result.length ≤ fewer := Nat.le_trans (length_result_le final) room
  have scan_more_eq : scan { config with maxCandidates := more } sequence [] .empty pending =
      scan { config with maxCandidates := more } sequence final.done final.draft final.pending :=
    scan_eq_of_run (run_of_fewer le run)
  rw [scan_eq, scan_more_eq]
  by_cases stopped : Terminal { config with maxCandidates := more } sequence final
  · rw [scan_eq_of_terminal stopped, List.take_of_length_le within]
  · rcases Classical.not_forall_not.mp stopped with ⟨next, step⟩
    obtain ⟨done_eq, full⟩ := frozen_of_stopped terminal step
    have kept := done_prefix_scan { config with maxCandidates := more } sequence next.done
      next.draft next.pending
    have length_eq : next.done.length = fewer := by
      rw [done_eq] at full ⊢
      omega
    rw [scan_eq_of_step step, ← done_eq, ← length_eq]
    exact List.prefix_iff_eq_take.mp kept

end

/-- The number of candidates only truncates: under a smaller number a selection fails as it
does under a larger one, or it returns the first of the candidates that the larger number
gives, as many as the smaller one allows. -/
theorem limit_truncates_selection (config : Config) (snapshot : Snapshot)
    (sequence unsequence : List DataFile) {fewer more : Nat} (le : fewer ≤ more) :
    selectFrom { config with maxCandidates := fewer } snapshot sequence unsequence =
      (selectFrom { config with maxCandidates := more } snapshot sequence unsequence).map
        fun candidates => candidates.take fewer := by
  cases outcome : resolveInput snapshot sequence unsequence with
  | error error =>
      rw [selectFrom, selectFrom, outcome]
      rfl
  | ok files =>
      obtain ⟨early, late⟩ := files
      rw [selectFrom_of_resolved _ outcome, selectFrom_of_resolved _ outcome]
      by_cases none_allowed : fewer = 0
      · subst none_allowed
        rw [if_pos rfl]
        split <;> rfl
      · have positive : 0 < fewer := Nat.pos_of_ne_zero none_allowed
        have some_allowed : more ≠ 0 := Nat.ne_of_gt (Nat.lt_of_lt_of_le positive le)
        rw [if_neg none_allowed, if_neg some_allowed, scan_eq_take le positive]
        rfl

theorem limit_truncates_selection_sample :
    selectFrom { Sample.config with maxCandidates := 2 } (Sample.registry.snapshot Sample.key)
      Sample.sequence Sample.unsequence = .ok [Sample.first, Sample.second] := by
  have truncated := limit_truncates_selection Sample.config (Sample.registry.snapshot Sample.key)
    Sample.sequence Sample.unsequence (show 2 ≤ 4 by decide)
  have all : selectFrom { Sample.config with maxCandidates := 4 }
      (Sample.registry.snapshot Sample.key) Sample.sequence Sample.unsequence =
        .ok Sample.candidates := Sample.selectFrom_registry
  rw [all] at truncated
  exact truncated

end SeriesStore.Selection
