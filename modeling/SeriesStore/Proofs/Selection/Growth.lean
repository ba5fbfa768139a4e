import SeriesStore.Proofs.Selection.Budget

/-!
# Later arrivals

When further unsequence files have arrived, every step of the scan before is a step of the
scan now.  So the scan now comes by the moment at which the one before ended, and can only go
on from there.  What goes on keeps the candidates that are done and adds to the draft that
was to become the last one (`Continues`).
-/

namespace SeriesStore

namespace Selection

open Scan

/-- Candidates that go on where others end: all of these but the last are kept, and in the
place of the last one stands a candidate that has at least its files. -/
def Continues (fewer more : List Candidate) : Prop :=
  ∀ kept last, fewer = kept ++ [last] → ∃ larger rest, more = kept ++ larger :: rest ∧
    last.unsequence <+: larger.unsequence ∧ last.sequence ⊆ larger.sequence

namespace Continues

theorem of_begins {fewer more : List Candidate} (begins : fewer <+: more) :
    Continues fewer more := by
  rintro kept last rfl
  obtain ⟨rest, rfl⟩ := begins
  exact ⟨last, rest, by simp, List.prefix_rfl, List.Subset.refl _⟩

/-- A last candidate that is replaced by a larger one. -/
theorem of_larger (done : List Candidate) {candidate larger : Candidate}
    (late : candidate.unsequence <+: larger.unsequence)
    (early : candidate.sequence ⊆ larger.sequence) :
    Continues (done ++ [candidate]) (done ++ [larger]) := by
  intro kept last split
  obtain ⟨rfl, same⟩ := List.append_inj' split rfl
  cases same
  exact ⟨larger, [], rfl, late, early⟩

theorem trans {fewer more all : List Candidate} (first : Continues fewer more)
    (second : Continues more all) : Continues fewer all := by
  intro kept last split
  obtain ⟨larger, rest, rfl, late, early⟩ := first kept last split
  rcases List.eq_nil_or_concat rest with rfl | ⟨front, final, rfl⟩
  · -- The candidate in the last place is the one that may still grow.
    obtain ⟨largest, others, all_eq, lateAll, earlyAll⟩ := second kept larger rfl
    exact ⟨largest, others, all_eq, late.trans lateAll, List.Subset.trans early earlyAll⟩
  · rw [List.concat_eq_append, ← List.cons_append, ← List.append_assoc] at second
    obtain ⟨_, others, all_eq, _, _⟩ := second (kept ++ larger :: front) final rfl
    rw [List.append_assoc, List.cons_append] at all_eq
    exact ⟨larger, _, all_eq, late, early⟩

theorem length_le {fewer more : List Candidate} (continues : Continues fewer more) :
    fewer.length ≤ more.length := by
  rcases List.eq_nil_or_concat fewer with rfl | ⟨kept, last, rfl⟩
  · exact Nat.zero_le _
  · obtain ⟨larger, rest, rfl, _, _⟩ := continues kept last List.concat_eq_append
    simp

end Continues

/-! ## A scan that goes on -/

theorem Draft.exists_larger {draft : Draft} {candidate : Candidate}
    (frozen : draft.freeze? = some candidate) (late : DataFile) (added : List DataFile) :
    ∃ larger, (draft.commit late added).freeze? = some larger ∧
      candidate.unsequence <+: larger.unsequence ∧ candidate.sequence ⊆ larger.sequence := by
  obtain ⟨hasEarly, _, _⟩ := (freeze?_eq_some_iff candidate).mp frozen
  have commit_frozen : (draft.commit late added).freeze? =
      some ⟨(draft.commit late added).sequence.mergeSort DataFile.comesFirst,
        (draft.commit late added).unsequence, (draft.commit late added).size⟩ :=
    (freeze?_eq_some_iff _).mpr ⟨by simp [hasEarly], by simp, rfl⟩
  refine ⟨_, commit_frozen, ?_, ?_⟩
  · rw [unsequence_of_freeze? frozen]
    exact List.prefix_append _ _
  · intro file member
    rw [mem_sequence_of_freeze? commit_frozen]
    exact List.mem_append_left _ ((mem_sequence_of_freeze? frozen file).mp member)

theorem continues_of_step {config : Config} {sequence : List DataFile} {state next : State}
    (step : Step config sequence state next) : Continues state.result next.result := by
  cases step with
  | passOver _ _ => exact .of_begins List.prefix_rfl
  | @take done draft next passed pending late admitted unexpired placed =>
      obtain ⟨own, _, _, rfl⟩ := (place_eq_placed_iff _ _ _ _ _ _).mp placed
      simp only [State.result, closeScan]
      cases freezing : draft.freeze? with
      | none =>
          rw [Option.toList_none, List.append_nil]
          exact .of_begins (List.prefix_append _ _)
      | some candidate =>
          obtain ⟨larger, larger_frozen, lateMore, earlyMore⟩ :=
            Draft.exists_larger freezing late (draft.missing own)
          rw [larger_frozen]
          exact .of_larger done lateMore earlyMore
  | freeze _ _ _ frozen _ =>
      apply Continues.of_begins
      simp [State.result, closeScan, frozen]

theorem continues_of_run {config : Config} {sequence : List DataFile} {start final : State}
    (run : Run config sequence start final) : Continues start.result final.result := by
  induction run with
  | refl => exact .of_begins List.prefix_rfl
  | tail _ step ih => exact ih.trans (continues_of_step step)

theorem continues_scan (config : Config) (sequence : List DataFile) (state : State) :
    Continues state.result (scan config sequence state.done state.draft state.pending) := by
  obtain ⟨final, run, _, scan_eq⟩ :=
    exists_run config sequence state.done state.draft state.passed state.pending
  rw [scan_eq]
  exact continues_of_run run

/-! ## More pending files -/

/-- The moment at which further files have arrived. -/
def Scan.State.extend (further : List DataFile) (state : State) : State :=
  { state with pending := state.pending ++ further }

theorem Scan.Step.extend {config : Config} {sequence : List DataFile} {state next : State}
    (further : List DataFile) (step : Step config sequence state next) :
    Step config sequence (state.extend further) (next.extend further) := by
  cases step with
  | passOver admitted expired => exact .passOver admitted expired
  | take admitted unexpired placed => exact .take admitted unexpired placed
  | freeze admitted unexpired full frozen room =>
      exact .freeze admitted unexpired full frozen room

/-- Files that arrive behind the pending ones only extend what is returned.  Wherever the scan
of the pending files ends, the scan of all files comes by as well and goes on from there. -/
theorem continues_scan_append (config : Config) (sequence : List DataFile)
    (done : List Candidate) (draft : Draft) (pending further : List DataFile) :
    Continues (scan config sequence done draft pending)
      (scan config sequence done draft (pending ++ further)) := by
  obtain ⟨final, run, _, scan_eq⟩ := exists_run config sequence done draft [] pending
  have extended : Run config sequence (State.extend further ⟨done, draft, [], pending⟩)
      (final.extend further) :=
    Relation.ReflTransGen.lift (State.extend further) (fun _ _ step => step.extend further) _ _ run
  have scan_append_eq : scan config sequence done draft (pending ++ further) =
      scan config sequence final.done final.draft (final.pending ++ further) :=
    scan_eq_of_run extended
  rw [scan_eq, scan_append_eq]
  exact continues_scan config sequence (final.extend further)

/-- Later arrivals only extend a selection: what can be selected from with further unsequence
files at the end can be selected from without them.  All candidates of the smaller selection
but the last are in the larger one, which has in the place of the last one a candidate with
its unsequence files first and with all its sequence files. -/
theorem later_arrivals_extend_selection {config : Config} {snapshot : Snapshot}
    {sequence unsequence further : List DataFile} {candidates : List Candidate}
    (selected : selectFrom config snapshot sequence (unsequence ++ further) = .ok candidates) :
    ∃ fewer, selectFrom config snapshot sequence unsequence = .ok fewer ∧
      fewer.length ≤ candidates.length ∧ Continues fewer candidates := by
  rcases resolveInput_of_selectFrom selected with ⟨early, late, resolved⟩
  have fewer_resolved := resolveInput_of_subperm resolved (List.Subperm.refl sequence)
    (List.sublist_append_left unsequence further).subperm
  obtain ⟨_, rfl, rfl⟩ := resolveInput_eq_ok_iff.mp resolved
  rw [selectFrom_of_resolved config resolved] at selected
  rw [selectFrom_of_resolved config fewer_resolved]
  by_cases none_allowed : config.maxCandidates = 0
  · rw [if_pos none_allowed]
    exact ⟨[], rfl, Nat.zero_le _, .of_begins ⟨_, List.nil_append _⟩⟩
  · rw [if_neg none_allowed] at selected ⊢
    cases selected
    have continues := continues_scan_append config
      ((snapshot.viewOf sequence).mergeSort DataFile.comesFirst) [] .empty
      (snapshot.viewOf unsequence) (snapshot.viewOf further)
    rw [Snapshot.viewOf_append]
    exact ⟨_, rfl, continues.length_le, continues⟩

end Selection

namespace Sample

open Selection

/-- The first candidate has room for the second unsequence file that is selected. -/
def roomyConfig : Config :=
  { config with maxFiles := 3 }

def roomyCandidates : List Candidate :=
  [ ⟨[file .sequence .closed 3 [("a", ⟨40, 50⟩)]],
      [ file .unsequence .closed 11 [("a", ⟨45, 46⟩)],
        file .unsequence .closed 13 [("a", ⟨32, 35⟩)] ], 270⟩,
    third ]

theorem selectFrom_roomyConfig :
    selectFrom roomyConfig (registry.snapshot key) sequence unsequence =
      .ok roomyCandidates := by
  cbv

/-- What is selected from the first unsequence file alone. -/
def firstCandidates : List Candidate :=
  [ ⟨[file .sequence .closed 3 [("a", ⟨40, 50⟩)]],
      [file .unsequence .closed 11 [("a", ⟨45, 46⟩)]], 140⟩ ]

theorem selectFrom_first :
    selectFrom roomyConfig (registry.snapshot key) sequence (unsequence.take 1) =
      .ok firstCandidates := by
  cbv

end Sample

namespace Selection

/-- The second file that is selected goes to the one candidate there was without it. -/
theorem later_arrivals_extend_selection_sample :
    selectFrom Sample.roomyConfig (Sample.registry.snapshot Sample.key) Sample.sequence
        (Sample.unsequence.take 1) = .ok Sample.firstCandidates ∧
      Sample.firstCandidates.length ≤ Sample.roomyCandidates.length ∧
      Continues Sample.firstCandidates Sample.roomyCandidates := by
  have parts : Sample.unsequence.take 1 ++ Sample.unsequence.drop 1 = Sample.unsequence :=
    List.take_append_drop 1 _
  have selected := Sample.selectFrom_roomyConfig
  rw [← parts] at selected
  rcases later_arrivals_extend_selection selected with ⟨fewer, chosen, short, continues⟩
  rw [Sample.selectFrom_first] at chosen
  cases chosen
  exact ⟨Sample.selectFrom_first, short, continues⟩

end Selection

end SeriesStore
