import Mathlib.Logic.Relation
import SeriesStore.Selection.Scan

/-!
# Runs of the scan

A scan is a run of small steps.  At a state some candidates are done, a draft is
open, and the unsequence files are divided into those that were passed and
those that are pending.  The next pending file is passed over because it has
expired, or taken into the draft, or it stays pending while the draft is frozen
and a new one is opened.  `exists_run` ties these steps to `scan`: it returns the
closing of a state from which no step leads on.

Drafts and candidates are described by how they came about.  `Draft.Filled` lists
the commits that filled a draft beside given candidates, and `Frozen` says that a
candidate is such a draft.
-/

namespace SeriesStore.Selection

/-- A draft that was filled beside the candidates in `done`, one unsequence file
after the other and each of them with all its targets. -/
inductive Draft.Filled (config : Config) (sequence : List DataFile) (done : List Candidate) :
    Draft → Prop where
  | empty : Filled config sequence done .empty
  | commit {draft : Draft} {late : DataFile} {own : List DataFile}
      (filled : Filled config sequence done draft)
      (own_eq : fileTargets? (isAvailable done) sequence late = some own)
      (fits : draft.fits config late (draft.missing own) = true) :
      Filled config sequence done (draft.commit late (draft.missing own))

/-- A candidate that was made after the candidates in `earlier`. -/
def Frozen (config : Config) (sequence : List DataFile) (earlier : List Candidate)
    (candidate : Candidate) : Prop :=
  ∃ draft : Draft, draft.Filled config sequence earlier ∧ draft.freeze? = some candidate

/-- Candidates each of which was made after those that stand before it. -/
def FrozenInTurn (config : Config) (sequence : List DataFile) (candidates : List Candidate) :
    Prop :=
  ∀ earlier candidate later, candidates = earlier ++ candidate :: later →
    Frozen config sequence earlier candidate

namespace Scan

/-- A moment of a scan. -/
structure State where
  done : List Candidate
  draft : Draft
  /-- The unsequence files that were taken or passed over, in order. -/
  passed : List DataFile
  pending : List DataFile

/-- The moment before any of the files is looked at. -/
def State.initial (pending : List DataFile) : State :=
  ⟨[], .empty, [], pending⟩

/-- One step of a scan. -/
inductive Step (config : Config) (sequence : List DataFile) : State → State → Prop where
  | passOver {done : List Candidate} {draft : Draft} {passed pending : List DataFile}
      {late : DataFile} (admitted : config.admits late = true)
      (expired : config.passesOver late = true) :
      Step config sequence ⟨done, draft, passed, late :: pending⟩
        ⟨done, draft, passed ++ [late], pending⟩
  | take {done : List Candidate} {draft next : Draft} {passed pending : List DataFile}
      {late : DataFile} (admitted : config.admits late = true)
      (unexpired : config.passesOver late = false)
      (placed : place config sequence done draft late = .placed next) :
      Step config sequence ⟨done, draft, passed, late :: pending⟩
        ⟨done, next, passed ++ [late], pending⟩
  | freeze {done : List Candidate} {draft : Draft} {passed pending : List DataFile}
      {late : DataFile} {candidate : Candidate} (admitted : config.admits late = true)
      (unexpired : config.passesOver late = false)
      (full : place config sequence done draft late = .overBudget)
      (frozen : draft.freeze? = some candidate)
      (room : done.length + 1 < config.maxCandidates) :
      Step config sequence ⟨done, draft, passed, late :: pending⟩
        ⟨done ++ [candidate], .empty, passed, late :: pending⟩

/-- Any number of steps. -/
abbrev Run (config : Config) (sequence : List DataFile) : State → State → Prop :=
  Relation.ReflTransGen (Step config sequence)

/-- A state from which no step leads on. -/
def Terminal (config : Config) (sequence : List DataFile) (state : State) : Prop :=
  ∀ next, ¬ Step config sequence state next

/-- What a scan returns when it ends at a state. -/
def State.result (state : State) : List Candidate :=
  closeScan state.done state.draft

end Scan

open Scan

theorem place_eq_placed_iff (config : Config) (sequence : List DataFile) (done : List Candidate)
    (draft next : Draft) (late : DataFile) :
    place config sequence done draft late = .placed next ↔
      ∃ own, fileTargets? (isAvailable done) sequence late = some own ∧
        draft.fits config late (draft.missing own) = true ∧
        next = draft.commit late (draft.missing own) := by
  rw [place]
  cases fileTargets? (isAvailable done) sequence late with
  | none => simp
  | some own =>
      by_cases fits : draft.fits config late (draft.missing own) = true
      · simp only [fits, ↓reduceIte, Placement.placed.injEq, Option.some.injEq,
          exists_eq_left', true_and]
        exact eq_comm
      · simp [fits]

/-- A scan stops at a file that is not admitted, at one that is blocked, and at one
that is over the budget when the draft cannot be frozen or no further candidate
may be opened. -/
theorem terminal_cons_iff (config : Config) (sequence : List DataFile) (done : List Candidate)
    (draft : Draft) (passed pending : List DataFile) (late : DataFile) :
    Terminal config sequence ⟨done, draft, passed, late :: pending⟩ ↔
      config.admits late = false ∨
        (config.passesOver late = false ∧
          (place config sequence done draft late = .blocked ∨
            (place config sequence done draft late = .overBudget ∧
              (draft.freeze? = none ∨ config.maxCandidates ≤ done.length + 1)))) := by
  constructor
  · intro terminal
    by_cases admitted : config.admits late = true
    · right
      by_cases expired : config.passesOver late = true
      · exact absurd (.passOver admitted expired) (terminal _)
      · have unexpired := Bool.eq_false_iff.mpr expired
        constructor
        · exact unexpired
        · cases placing : place config sequence done draft late with
          | placed next => exact absurd (.take admitted unexpired placing) (terminal _)
          | blocked => exact .inl rfl
          | overBudget =>
              right
              constructor
              · rfl
              · cases freezing : draft.freeze? with
                | none => exact .inl rfl
                | some candidate =>
                    right
                    rw [← Nat.not_lt]
                    intro room
                    exact terminal _ (.freeze admitted unexpired placing freezing room)
    · exact .inl (Bool.eq_false_iff.mpr admitted)
  · rintro (refused | ⟨unexpired, blocked | ⟨full, unfrozen | noRoom⟩⟩) next step
    · cases step <;> simp_all
    · cases step <;> simp_all
    · cases step <;> simp_all
    · cases step with
      | passOver _ expired => simp_all
      | take _ _ placed => simp_all
      | freeze _ _ _ _ room => omega

/-- A step does not change what the scan is going to return. -/
theorem scan_eq_of_step {config : Config} {sequence : List DataFile} {state next : State}
    (step : Step config sequence state next) :
    scan config sequence state.done state.draft state.pending =
      scan config sequence next.done next.draft next.pending := by
  cases step with
  | passOver admitted expired => simp [scan, admitted, expired]
  | take admitted unexpired placed => simp [scan, admitted, unexpired, placed]
  | @freeze done draft passed pending late candidate admitted unexpired full frozen room =>
      -- The file is tried once more, now on an empty draft.
      cases again : place config sequence (done ++ [candidate]) .empty late <;>
        simp [scan, admitted, unexpired, full, frozen, Nat.not_le.mpr room, again, closeScan]

/-- A scan that cannot go on returns the result of its state. -/
theorem scan_eq_of_terminal {config : Config} {sequence : List DataFile} {state : State}
    (terminal : Terminal config sequence state) :
    scan config sequence state.done state.draft state.pending = state.result := by
  rcases state with ⟨done, draft, passed, pending⟩
  cases pending with
  | nil => rfl
  | cons late rest =>
      rcases (terminal_cons_iff _ _ _ _ _ _ _).mp terminal with
        refused | ⟨unexpired, blocked | ⟨full, unfrozen | noRoom⟩⟩
      · simp [scan, refused, State.result]
      · by_cases admitted : config.admits late = true <;>
          simp [scan, admitted, unexpired, blocked, State.result]
      · by_cases admitted : config.admits late = true <;>
          simp [scan, admitted, unexpired, full, unfrozen, State.result, closeScan]
      · by_cases admitted : config.admits late = true
        · cases freezing : draft.freeze? <;>
            simp [scan, admitted, unexpired, full, freezing, noRoom, State.result, closeScan]
        · simp [scan, admitted, State.result]

/-- What is left to do at a state: every pending file may be tried twice, the
second time on an empty draft. -/
def Scan.State.weight (state : State) : Nat :=
  2 * state.pending.length + if state.draft = .empty then 0 else 1

theorem weight_lt_of_step {config : Config} {sequence : List DataFile} {state next : State}
    (step : Step config sequence state next) : next.weight < state.weight := by
  cases step with
  | passOver _ _ =>
      simp only [State.weight, List.length_cons]
      omega
  | take _ _ _ =>
      simp only [State.weight, List.length_cons]
      split <;> split <;> omega
  | freeze _ _ _ frozen _ =>
      have opened : ∀ draft : Draft, draft.freeze? ≠ none → draft ≠ .empty := by
        rintro draft freezes rfl
        exact freezes Draft.freeze?_empty
      simp [State.weight, opened _ (Option.ne_none_iff_exists'.mpr ⟨_, frozen⟩)]

theorem exists_terminal (config : Config) (sequence : List DataFile) (state : State) :
    ∃ final, Run config sequence state final ∧ Terminal config sequence final := by
  by_cases terminal : Terminal config sequence state
  · exact ⟨state, .refl, terminal⟩
  · rcases Classical.not_forall_not.mp terminal with ⟨next, step⟩
    have smaller := weight_lt_of_step step
    rcases exists_terminal config sequence next with ⟨final, run, stopped⟩
    exact ⟨final, .head step run, stopped⟩
termination_by state.weight

/-- A run does not change what the scan is going to return. -/
theorem scan_eq_of_run {config : Config} {sequence : List DataFile} {start final : State}
    (run : Run config sequence start final) :
    scan config sequence start.done start.draft start.pending =
      scan config sequence final.done final.draft final.pending := by
  induction run with
  | refl => rfl
  | tail _ step ih => exact ih.trans (scan_eq_of_step step)

/-- A scan returns the result of a terminal state that steps lead to. -/
theorem exists_run (config : Config) (sequence : List DataFile) (done : List Candidate)
    (draft : Draft) (passed pending : List DataFile) :
    ∃ final, Run config sequence ⟨done, draft, passed, pending⟩ final ∧
      Terminal config sequence final ∧
      scan config sequence done draft pending = final.result := by
  obtain ⟨final, run, terminal⟩ :=
    exists_terminal config sequence ⟨done, draft, passed, pending⟩
  exact ⟨final, run, terminal, (scan_eq_of_run run).trans (scan_eq_of_terminal terminal)⟩

theorem resolveInput_of_selectFrom {config : Config} {snapshot : Snapshot}
    {sequence unsequence : List DataFile} {candidates : List Candidate}
    (selected : selectFrom config snapshot sequence unsequence = .ok candidates) :
    ∃ early late, resolveInput snapshot sequence unsequence = .ok (early, late) := by
  rw [selectFrom] at selected
  split at selected
  · contradiction
  · rename_i early late resolved
    exact ⟨early, late, resolved⟩

/-- Accepted input is scanned unless no candidate may be made. -/
theorem selectFrom_of_resolved {snapshot : Snapshot}
    {sequence unsequence early late : List DataFile} (config : Config)
    (resolved : resolveInput snapshot sequence unsequence = .ok (early, late)) :
    selectFrom config snapshot sequence unsequence =
      if config.maxCandidates = 0 then .ok [] else .ok (scan config early [] .empty late) := by
  rw [selectFrom, resolved]

/-- What a selection returns: nothing when no candidate may be made, and else the
result of a run over the resolved unsequence files. -/
theorem selectFrom_eq_ok {config : Config} {snapshot : Snapshot}
    {sequence unsequence early late : List DataFile} {candidates : List Candidate}
    (resolved : resolveInput snapshot sequence unsequence = .ok (early, late))
    (selected : selectFrom config snapshot sequence unsequence = .ok candidates) :
    (config.maxCandidates = 0 ∧ candidates = []) ∨
      (config.maxCandidates ≠ 0 ∧ ∃ final, Run config early (State.initial late) final ∧
        Terminal config early final ∧ candidates = final.result) := by
  rw [selectFrom_of_resolved config resolved] at selected
  split at selected
  · rename_i zero
    cases selected
    exact .inl ⟨zero, rfl⟩
  · rename_i positive
    cases selected
    exact .inr ⟨positive, exists_run config early [] .empty [] late⟩

/-! ## What steps keep -/

/-- The files that were passed and those that are pending are all the files. -/
theorem passed_append_pending {config : Config} {sequence : List DataFile} {start final : State}
    (run : Run config sequence start final) :
    final.passed ++ final.pending = start.passed ++ start.pending := by
  induction run with
  | refl => rfl
  | tail _ step ih =>
      rw [← ih]
      cases step <;> simp

theorem FrozenInTurn.append {config : Config} {sequence : List DataFile}
    {done : List Candidate} {candidate : Candidate}
    (inTurn : FrozenInTurn config sequence done)
    (frozen : Frozen config sequence done candidate) :
    FrozenInTurn config sequence (done ++ [candidate]) := by
  intro earlier other later split
  rcases List.eq_nil_or_concat later with rfl | ⟨front, last, rfl⟩
  · rcases List.append_inj' split rfl with ⟨rfl, same⟩
    cases same
    exact frozen
  · rw [List.concat_eq_append, ← List.cons_append, ← List.append_assoc] at split
    exact inTurn earlier other front (List.append_inj' split rfl).1

/-- At every moment the candidates were made in turn, and the draft was filled
beside all of them. -/
theorem frozenInTurn_of_run {config : Config} {sequence : List DataFile} {start final : State}
    (run : Run config sequence start final)
    (filled : start.draft.Filled config sequence start.done)
    (inTurn : FrozenInTurn config sequence start.done) :
    final.draft.Filled config sequence final.done ∧ FrozenInTurn config sequence final.done := by
  induction run with
  | refl => exact ⟨filled, inTurn⟩
  | tail _ step ih =>
      cases step with
      | passOver _ _ => exact ih
      | take _ _ placed =>
          obtain ⟨own, own_eq, fits, rfl⟩ := (place_eq_placed_iff _ _ _ _ _ _).mp placed
          exact ⟨.commit ih.1 own_eq fits, ih.2⟩
      | freeze _ _ _ frozen _ => exact ⟨.empty, ih.2.append ⟨_, ih.1, frozen⟩⟩

theorem frozenInTurn_nil (config : Config) (sequence : List DataFile) :
    FrozenInTurn config sequence [] := by
  intro earlier candidate later split
  simp at split

theorem frozenInTurn_result {config : Config} {sequence pending : List DataFile} {final : State}
    (run : Run config sequence (State.initial pending) final) :
    FrozenInTurn config sequence final.result := by
  obtain ⟨filled, inTurn⟩ :=
    frozenInTurn_of_run run .empty (frozenInTurn_nil config sequence)
  unfold State.result closeScan
  cases freezing : final.draft.freeze? with
  | none => simpa using inTurn
  | some candidate => exact inTurn.append ⟨_, filled, freezing⟩

/-- The candidates of a selection were made in turn. -/
theorem frozenInTurn_of_selectFrom {config : Config} {snapshot : Snapshot}
    {sequence unsequence early late : List DataFile} {candidates : List Candidate}
    (resolved : resolveInput snapshot sequence unsequence = .ok (early, late))
    (selected : selectFrom config snapshot sequence unsequence = .ok candidates) :
    FrozenInTurn config early candidates := by
  rcases selectFrom_eq_ok resolved selected with ⟨_, rfl⟩ | ⟨_, final, run, _, rfl⟩
  · exact frozenInTurn_nil config early
  · exact frozenInTurn_result run

end SeriesStore.Selection
