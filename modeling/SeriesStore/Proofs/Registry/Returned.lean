import SeriesStore.Proofs.Registry.Claiming

/-!
# Giving claims back

The candidates of a selection that has claimed them can be given back in two ways: at once, or
by starting to merge them and giving that up.  It does not matter which way is taken for which
candidate, nor how the calls for several candidates mix.

While this goes on, the members of a candidate have the status from which the calls that are left
for it lead to the closed one.  The calls for the other candidates do not touch them, since no
file is a member of two candidates.  And as a call changes statuses only, closing all members
would at any moment restore the registry from before the claims (`Returning`).  In the end they
are all closed already.
-/

namespace SeriesStore

open Selection

/-- The calls by which a claim is undone.  Starting the merge is one of them, as it comes before
giving it up. -/
inductive Undo where
  | release
  | start
  | abort
deriving DecidableEq

namespace Undo

/-- The status that the members must have. -/
def source : Undo → Status
  | .release => .candidate
  | .start => .candidate
  | .abort => .compacting

/-- The status that the members get. -/
def target : Undo → Status
  | .release => .closed
  | .start => .compacting
  | .abort => .closed

/-- Makes the call for the files of some numbers. -/
def call (key : PartitionKey) (ids : List FileId) : Undo → Registry.Step Unit
  | .release => Registry.release key ids
  | .start => Registry.start key ids
  | .abort => Registry.abort key ids

/-- A call succeeds when all members have the status that it asks for. -/
theorem call_eq_withStatus {registry : Registry} {key : PartitionKey} {ids : List FileId}
    (distinct : (registry.snapshot key).partition.Distinct) (some_member : ids ≠ [])
    (differ : ids.Nodup) (undo : Undo)
    (members : ∀ id ∈ ids, registry.status? key id = some undo.source) :
    undo.call key ids registry = .ok () (registry.withStatus key undo.target ids) := by
  cases undo with
  | release => exact Registry.release_eq_withStatus distinct some_member differ members
  | start => exact Registry.move_eq_withStatus distinct some_member differ members rfl
  | abort => exact Registry.move_eq_withStatus distinct some_member differ members rfl

/-- Whether calls one after the other lead from a status to the closed one. -/
def Closes : Status → List Undo → Prop
  | status, [] => status = .closed
  | status, undo :: rest => status = undo.source ∧ Closes undo.target rest

/-- A claim can be given back at once, or after the merge has been started. -/
theorem closes_candidate_iff (calls : List Undo) :
    Closes .candidate calls ↔ calls = [.release] ∨ calls = [.start, .abort] := by
  have closed_iff : ∀ rest, Closes .closed rest ↔ rest = [] := by
    intro rest
    cases rest with
    | nil => simp [Closes]
    | cons undo rest => cases undo <;> simp [Closes, source]
  have compacting_iff : ∀ rest, Closes .compacting rest ↔ rest = [.abort] := by
    intro rest
    cases rest with
    | nil => simp [Closes]
    | cons undo rest => cases undo <;> simp [Closes, source, target, closed_iff]
  cases calls with
  | nil => simp [Closes]
  | cons undo rest => cases undo <;> simp [Closes, source, target, closed_iff, compacting_iff]

/-- Makes calls for several candidates one after the other, until one fails. -/
def callAll (key : PartitionKey) : List (Candidate × Undo) → Registry.Step Unit
  | [], registry => .ok () registry
  | (candidate, undo) :: rest, registry =>
      match undo.call key candidate.ids registry with
      | .ok () changed => callAll key rest changed
      | .error error changed => .error error changed

/-- The calls for one candidate, in their order. -/
def callsFor (candidate : Candidate) (schedule : List (Candidate × Undo)) : List Undo :=
  (schedule.filter fun entry => entry.1 = candidate).map Prod.snd

theorem callsFor_cons_self (candidate : Candidate) (undo : Undo)
    (rest : List (Candidate × Undo)) :
    callsFor candidate ((candidate, undo) :: rest) = undo :: callsFor candidate rest := by
  simp [callsFor]

theorem callsFor_cons_of_ne {candidate other : Candidate} (ne : other ≠ candidate) (undo : Undo)
    (rest : List (Candidate × Undo)) :
    callsFor candidate ((other, undo) :: rest) = callsFor candidate rest := by
  simp [callsFor, ne]

end Undo

open Undo

/-- A schedule by which candidates are given back: every call is for one of them, and the calls
for each of them, however they mix with the others, are one of the two ways. -/
structure GivesBack (candidates : List Candidate) (schedule : List (Candidate × Undo)) : Prop where
  own : ∀ entry ∈ schedule, entry.1 ∈ candidates
  way : ∀ candidate ∈ candidates,
    callsFor candidate schedule = [.release] ∨ callsFor candidate schedule = [.start, .abort]

namespace Registry

/-- A registry in the course of giving candidates back, with the calls that are left. -/
structure Returning (key : PartitionKey) (origin : Registry) (candidates : List Candidate)
    (schedule : List (Candidate × Undo)) (current : Registry) : Prop where
  distinct : (current.snapshot key).partition.Distinct
  restored : current.withStatus key .closed (candidates.flatMap Candidate.ids) = origin
  own : ∀ entry ∈ schedule, entry.1 ∈ candidates
  stage : ∀ candidate ∈ candidates, ∃ status, Closes status (callsFor candidate schedule) ∧
    ∀ id ∈ candidate.ids, current.status? key id = some status

namespace Returning

variable {key : PartitionKey} {origin current : Registry} {candidates : List Candidate}

/-- The next call succeeds, and the others remain. -/
theorem call {candidate : Candidate} {undo : Undo} {rest : List (Candidate × Undo)}
    (separate : Separate candidates)
    (returning : Returning key origin candidates ((candidate, undo) :: rest) current) :
    undo.call key candidate.ids current =
        .ok () (current.withStatus key undo.target candidate.ids) ∧
      Returning key origin candidates rest
        (current.withStatus key undo.target candidate.ids) := by
  obtain ⟨isOwn, rest_own⟩ := List.forall_mem_cons.mp returning.own
  obtain ⟨status, closes, members⟩ := returning.stage candidate isOwn
  rw [callsFor_cons_self] at closes
  obtain ⟨rfl, closes_rest⟩ := closes
  refine ⟨call_eq_withStatus returning.distinct (separate.some_member candidate isOwn)
    (separate.ids_nodup isOwn) undo members, ?_⟩
  constructor
  case distinct => exact distinct_withStatus returning.distinct undo.target candidate.ids
  case restored =>
    have listed : candidate.ids ⊆ candidates.flatMap Candidate.ids :=
      fun id member => List.mem_flatMap.mpr ⟨candidate, isOwn, member⟩
    rw [withStatus_withStatus _ _ _ _ listed, returning.restored]
  case own => exact rest_own
  case stage =>
    intro other isOther
    -- The candidate of the call has moved on, and the call touched no member of another one.
    by_cases same : candidate = other
    · subst same
      exact ⟨undo.target, closes_rest,
        fun id member => status?_withStatus_of_mem member (members id member)⟩
    · obtain ⟨held, closes_other, other_members⟩ := returning.stage other isOther
      rw [callsFor_cons_of_ne same] at closes_other
      refine ⟨held, closes_other, fun id member => ?_⟩
      rw [status?_withStatus_of_not_mem (separate.disjoint isOther isOwn (Ne.symm same) member)]
      exact other_members id member

/-- When no call is left, the registry is what it was. -/
theorem eq_of_nil (returning : Returning key origin candidates [] current) :
    current = origin := by
  have closed : ∀ id ∈ candidates.flatMap Candidate.ids,
      current.status? key id = some .closed := by
    intro id listed
    obtain ⟨candidate, isOwn, member⟩ := List.mem_flatMap.mp listed
    obtain ⟨_, rfl, members⟩ := returning.stage candidate isOwn
    exact members id member
  rw [← returning.restored, withStatus_of_status? returning.distinct closed]

/-- All calls that are left succeed, and after them the registry is what it was. -/
theorem callAll {schedule : List (Candidate × Undo)} (separate : Separate candidates)
    (returning : Returning key origin candidates schedule current) :
    Undo.callAll key schedule current = .ok () origin := by
  induction schedule generalizing current with
  | nil => rw [Undo.callAll, returning.eq_of_nil]
  | cons entry rest ih =>
      obtain ⟨called, left⟩ := returning.call separate
      rw [Undo.callAll, called]
      exact ih left

end Returning

variable {registry after : Registry} {key : PartitionKey} {config : Config}
  {candidates : List Candidate} {schedule : List (Candidate × Undo)}

/-- After candidates have been claimed all calls that give them back are left. -/
theorem returning_of_select (distinct : (registry.snapshot key).partition.Distinct)
    (selected : select config (registry.snapshot key) = .ok candidates)
    (givesBack : GivesBack candidates schedule) :
    Returning key registry candidates schedule
      (registry.withStatus key .candidate (candidates.flatMap Candidate.ids)) := by
  have closed := closed_of_select selected
  constructor
  case distinct => exact distinct_withStatus distinct _ _
  case restored =>
    rw [withStatus_withStatus _ _ _ _ (List.Subset.refl _), withStatus_of_status? distinct closed]
  case own => exact givesBack.own
  case stage =>
    intro candidate made
    refine ⟨.candidate, (closes_candidate_iff _).mpr (givesBack.way candidate made), ?_⟩
    intro id member
    have listed : id ∈ candidates.flatMap Candidate.ids :=
      List.mem_flatMap.mpr ⟨candidate, made, member⟩
    exact status?_withStatus_of_mem listed (closed id listed)

/-- Candidates that have been selected and claimed are given back by any schedule of the two
ways: all calls succeed and leave the registry from before, so that selecting, and selecting and
claiming, find the same candidates again. -/
theorem giving_back_restores (reachable : registry.Reachable)
    (claimed : selectAndClaim config key registry = .ok candidates after)
    (givesBack : GivesBack candidates schedule) :
    ∃ final, Undo.callAll key schedule after = .ok () final ∧ final = registry ∧
      select config (final.snapshot key) = .ok candidates ∧
      selectAndClaim config key final = .ok candidates after := by
  obtain ⟨log, consistent⟩ := reachable.consistent key
  have selected := select_of_selectAndClaim claimed
  have separate := separate_of_selectFrom selected
  have returning := returning_of_select consistent.distinct selected givesBack
  have outcome := claimed
  rw [selectAndClaim_eq_withStatus consistent.distinct selected] at outcome
  cases outcome
  exact ⟨registry, returning.callAll separate, rfl, selected, claimed⟩

end Registry

namespace Sample

/-- The first candidate is given back at once, while merges of the others are started and given
up. -/
def schedule : List (Candidate × Undo) :=
  [ (second, .start), (first, .release), (third, .start), (second, .abort), (third, .abort) ]

end Sample

namespace Registry

theorem giving_back_restores_sample :
    GivesBack Sample.candidates Sample.schedule ∧
      ∃ after,
        selectAndClaim Sample.config Sample.key Sample.registry = .ok Sample.candidates after ∧
        Undo.callAll Sample.key Sample.schedule after = .ok () Sample.registry := by
  have givesBack : GivesBack Sample.candidates Sample.schedule :=
    ⟨by decide +kernel, by decide +kernel⟩
  have selected : select Sample.config (Sample.registry.snapshot Sample.key) =
      .ok Sample.candidates :=
    Sample.selectFrom_registry
  obtain ⟨log, consistent⟩ := Sample.registry_reachable.consistent Sample.key
  have claimed := selectAndClaim_eq_withStatus consistent.distinct selected
  obtain ⟨final, called, rfl, _⟩ :=
    giving_back_restores Sample.registry_reachable claimed givesBack
  exact ⟨givesBack, _, claimed, called⟩

end Registry

end SeriesStore
