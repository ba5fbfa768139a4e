import SeriesStore.Proofs.Registry.Reachable
import SeriesStore.Proofs.Selection.Draft
import SeriesStore.Proofs.Selection.Input

/-!
# Selection in order of arrival

A scan never loses an unsequence file and goes on.  At every moment the done
candidates and the draft together hold the passed files that have not expired,
in order of arrival.  Only the draft of the last moment may be dropped, so what
is selected comes from a first part of the files.
-/

namespace SeriesStore

namespace Selection

open Scan

theorem Config.admits_iff (config : Config) (late : DataFile) :
    config.admits late = true ↔ late.status = .closed ∧ config.minLevel ≤ late.innerLevel := by
  simp [Config.admits, DataFile.isSelectable, Status.isSelectable]

/-- The files of a list that have not expired. -/
def Config.unexpired (config : Config) (files : List DataFile) : List DataFile :=
  files.filter fun file => !config.passesOver file

/-- The unsequence members of candidates, one candidate after the other. -/
def lateMembers (candidates : List Candidate) : List DataFile :=
  candidates.flatMap Candidate.unsequence

/-- A moment up to which no file was overtaken. -/
structure Scan.State.InOrder (config : Config) (state : State) : Prop where
  admitted : ∀ file ∈ state.passed, config.admits file = true
  taken : lateMembers state.done ++ state.draft.unsequence = config.unexpired state.passed

theorem inOrder_initial (config : Config) (pending : List DataFile) :
    (State.initial pending).InOrder config := by
  constructor
  case admitted =>
    intro file member
    contradiction
  case taken => rfl

theorem lateMembers_append_frozen (done : List Candidate) {draft : Draft} {candidate : Candidate}
    (frozen : draft.freeze? = some candidate) :
    lateMembers (done ++ [candidate]) = lateMembers done ++ draft.unsequence := by
  simp [lateMembers, Draft.unsequence_of_freeze? frozen]

theorem Scan.State.InOrder.step {config : Config} {sequence : List DataFile} {state next : State}
    (inOrder : state.InOrder config) (step : Step config sequence state next) :
    next.InOrder config := by
  have extended : ∀ late, config.admits late = true →
      ∀ file ∈ state.passed ++ [late], config.admits file = true := by
    intro late admitted file member
    rcases List.mem_append.mp member with member | member
    · exact inOrder.admitted file member
    · cases List.mem_singleton.mp member
      exact admitted
  cases step with
  | @passOver done draft passed pending late admitted expired =>
      constructor
      case admitted => exact extended late admitted
      case taken =>
        have taken := inOrder.taken
        simpa [Config.unexpired, expired] using taken
  | @take done draft next passed pending late admitted unexpired placed =>
      rcases (place_eq_placed_iff _ _ _ _ _ _).mp placed with ⟨own, _, _, rfl⟩
      constructor
      case admitted => exact extended late admitted
      case taken =>
        have taken := inOrder.taken
        simp only [Config.unexpired] at taken ⊢
        rw [Draft.commit_unsequence, ← List.append_assoc, taken]
        simp [unexpired]
  | freeze _ _ _ frozen _ =>
      constructor
      case admitted => exact inOrder.admitted
      case taken =>
        have taken := inOrder.taken
        rw [← taken, lateMembers_append_frozen _ frozen]
        exact List.append_nil _

theorem Scan.State.InOrder.run {config : Config} {sequence : List DataFile} {start final : State}
    (inOrder : start.InOrder config) (run : Run config sequence start final) :
    final.InOrder config := by
  induction run with
  | refl => exact inOrder
  | tail _ step ih => exact ih.step step

/-- What a moment returns is taken from a first part of the passed files. -/
theorem Scan.State.InOrder.exists_prefix {config : Config} {state : State}
    (inOrder : state.InOrder config) :
    ∃ taken rest, state.passed = taken ++ rest ∧
      lateMembers state.result = config.unexpired taken := by
  rw [State.result, closeScan]
  cases freezing : state.draft.freeze? with
  | some candidate =>
      have members := lateMembers_append_frozen state.done freezing
      rw [inOrder.taken] at members
      exact ⟨state.passed, [], (List.append_nil _).symm, members⟩
  | none =>
      -- The dropped draft took its files from the end of the passed ones.
      rcases List.filter_eq_append_iff.mp inOrder.taken.symm with ⟨taken, rest, split, kept, _⟩
      rw [Option.toList_none, List.append_nil]
      exact ⟨taken, rest, split, kept.symm⟩

/-- What a selection takes comes from a first part of the unsequence files, in which
all files are admitted. -/
theorem exists_taken {config : Config} {snapshot : Snapshot}
    {sequence unsequence early late : List DataFile} {candidates : List Candidate}
    (resolved : resolveInput snapshot sequence unsequence = .ok (early, late))
    (selected : selectFrom config snapshot sequence unsequence = .ok candidates) :
    ∃ taken rest, late = taken ++ rest ∧ (∀ file ∈ taken, config.admits file = true) ∧
      lateMembers candidates = config.unexpired taken := by
  rcases selectFrom_eq_ok resolved selected with ⟨_, rfl⟩ | ⟨_, final, run, _, rfl⟩
  · exact ⟨[], late, rfl, fun _ member => absurd member List.not_mem_nil, rfl⟩
  · have inOrder := (inOrder_initial config late).run run
    rcases inOrder.exists_prefix with ⟨taken, rest, split, members⟩
    have whole : late = taken ++ (rest ++ final.pending) := by
      rw [← List.append_assoc, ← split, passed_append_pending run]
      rfl
    have admitted : ∀ file ∈ taken, config.admits file = true := by
      intro file member
      apply inOrder.admitted
      rw [split]
      exact List.mem_append_left rest member
    exact ⟨taken, rest ++ final.pending, whole, admitted, members⟩

/-- Files that stand before a file of the first part are in the first part. -/
theorem mem_of_split {taken rest before after : List DataFile} {file : DataFile}
    (distinct : (taken ++ rest).Nodup) (split : taken ++ rest = before ++ file :: after)
    (member : file ∈ taken) : ∀ other ∈ before, other ∈ taken := by
  intro other inBefore
  rcases List.append_eq_append_iff.mp split with ⟨_, rfl, _⟩ | ⟨_, rfl, _⟩
  · rw [split] at distinct
    have apart := (List.nodup_append.mp distinct).2.2
    exact absurd rfl (apart file (List.mem_append_left _ member) file List.mem_cons_self)
  · exact List.mem_append_left _ inBefore

end Selection

namespace Sample

open Selection

/-- Candidates of two files each, from unsequence files that have not expired. -/
def config : Config where
  maxFiles := 2
  minLevel := 1
  expiry? := some 0

def first : Candidate :=
  ⟨[file .sequence .closed 3 [("a", ⟨40, 50⟩)]],
    [file .unsequence .closed 11 [("a", ⟨45, 46⟩)]], 140⟩

/-- The file that follows is taken already, so the one that precedes is the target. -/
def second : Candidate :=
  ⟨[file .sequence .closed 2 [("a", ⟨20, 30⟩)]],
    [file .unsequence .closed 13 [("a", ⟨32, 35⟩)]], 150⟩

def third : Candidate :=
  ⟨[file .sequence .closed 1 [("a", ⟨0, 10⟩)]],
    [file .unsequence .closed 14 [("a", ⟨5, 8⟩), ("b", ⟨0, 1⟩)]], 150⟩

def candidates : List Candidate :=
  [first, second, third]

theorem candidates_eq_append : candidates = [first] ++ second :: [third] := rfl

theorem resolveInput_registry :
    resolveInput (registry.snapshot key) sequence unsequence = .ok (sequence, unsequence) := by
  cbv

theorem selectFrom_registry :
    selectFrom config (registry.snapshot key) sequence unsequence = .ok candidates := by
  cbv

end Sample

namespace Selection

/-- Nothing is overtaken: the unsequence members of all candidates, one candidate
after the other, are the unexpired ones of the first `count` files, and all of
these are closed and of the least level.  So an unexpired file that arrived
before a selected one is selected as well. -/
theorem selected_in_order_of_arrival {config : Config} {snapshot : Snapshot}
    {sequence unsequence early late : List DataFile} {candidates : List Candidate}
    (resolved : resolveInput snapshot sequence unsequence = .ok (early, late))
    (selected : selectFrom config snapshot sequence unsequence = .ok candidates) :
    (∃ count ≤ late.length,
      (∀ file ∈ late.take count,
        file.status = .closed ∧ config.minLevel ≤ file.innerLevel) ∧
      lateMembers candidates = config.unexpired (late.take count)) ∧
    ∀ before file after, late = before ++ file :: after → file ∈ lateMembers candidates →
      ∀ earlier ∈ before,
        (earlier.status = .closed ∧ config.minLevel ≤ earlier.innerLevel) ∧
        (config.passesOver earlier = false → earlier ∈ lateMembers candidates) := by
  rcases exists_taken resolved selected with ⟨taken, rest, rfl, admitted, members⟩
  constructor
  · have within : taken.length ≤ (taken ++ rest).length := by
      rw [List.length_append]
      exact Nat.le_add_right _ _
    apply Exists.intro taken.length
    rw [List.take_left]
    exact ⟨within, fun file member => (config.admits_iff file).mp (admitted file member), members⟩
  · intro before file after split member earlier inBefore
    rw [members] at member ⊢
    have distinct := List.Nodup.of_map DataFile.id (resolved_of_resolveInput resolved).late_distinct
    have inTaken := mem_of_split distinct split (List.mem_filter.mp member).1 earlier inBefore
    constructor
    · exact (config.admits_iff earlier).mp (admitted earlier inTaken)
    · intro unexpired
      apply List.mem_filter.mpr
      exact ⟨inTaken, by simp [unexpired]⟩

theorem selected_in_order_of_arrival_sample :
    (∃ count ≤ Sample.unsequence.length,
      (∀ file ∈ Sample.unsequence.take count,
        file.status = .closed ∧ Sample.config.minLevel ≤ file.innerLevel) ∧
      lateMembers Sample.candidates =
        Sample.config.unexpired (Sample.unsequence.take count)) ∧
    ∀ before file after, Sample.unsequence = before ++ file :: after →
      file ∈ lateMembers Sample.candidates →
      ∀ earlier ∈ before,
        (earlier.status = .closed ∧ Sample.config.minLevel ≤ earlier.innerLevel) ∧
        (Sample.config.passesOver earlier = false → earlier ∈ lateMembers Sample.candidates) :=
  selected_in_order_of_arrival Sample.resolveInput_registry Sample.selectFrom_registry

end Selection

end SeriesStore
