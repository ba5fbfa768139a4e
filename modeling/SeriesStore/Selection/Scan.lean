import SeriesStore.Selection.Candidate
import SeriesStore.Selection.Input
import SeriesStore.Selection.Target

/-!
# The scan

A selection scans the unsequence files strictly in their order and never takes
one ahead of an earlier one.  Each file goes into the current draft together
with its targets.  When that would break the budget, the draft is frozen into a
candidate and the file is tried once more on an empty draft, now without the
files of that candidate.  A file that cannot be placed ends the scan.
-/

namespace SeriesStore.Selection

/-- Whether a sequence file can be taken after the candidates in `done`. -/
def isAvailable (done : List Candidate) (file : DataFile) : Bool :=
  file.isSelectable && !done.any fun candidate => candidate.contains file.id

/-- The outcome of trying an unsequence file on a draft. -/
inductive Placement where
  /-- The draft with the file and its targets. -/
  | placed (draft : Draft)
  /-- The file and its targets would break the budget. -/
  | overBudget
  /-- The file has no targets that could be taken. -/
  | blocked
deriving DecidableEq

/-- Tries an unsequence file on a draft. -/
def place (config : Config) (sequence : List DataFile) (done : List Candidate) (draft : Draft)
    (late : DataFile) : Placement :=
  match fileTargets? (isAvailable done) sequence late with
  | none => .blocked
  | some targets =>
      if draft.fits config late (draft.missing targets) then
        .placed (draft.commit late (draft.missing targets))
      else
        .overBudget

/-- The candidates when the scan ends with the given draft. -/
def closeScan (done : List Candidate) (draft : Draft) : List Candidate :=
  done ++ draft.freeze?.toList

/-- Scans unsequence files.  `done` are the candidates so far. -/
def scan (config : Config) (sequence : List DataFile) (done : List Candidate) (draft : Draft) :
    List DataFile → List Candidate
  | [] => closeScan done draft
  | late :: rest =>
      if !config.admits late then
        closeScan done draft
      else if config.passesOver late then
        scan config sequence done draft rest
      else
        match place config sequence done draft late with
        | .placed draft => scan config sequence done draft rest
        | .blocked => closeScan done draft
        | .overBudget =>
            match draft.freeze? with
            | none => done
            | some candidate =>
                if config.maxCandidates ≤ done.length + 1 then
                  done ++ [candidate]
                else
                  match place config sequence (done ++ [candidate]) .empty late with
                  | .placed draft => scan config sequence (done ++ [candidate]) draft rest
                  | _ => done ++ [candidate]

/-- Selects candidates from the given files as the snapshot knows them. -/
def selectFrom (config : Config) (snapshot : Snapshot) (sequence unsequence : List DataFile) :
    Except Error (List Candidate) :=
  match resolveInput snapshot sequence unsequence with
  | .error error => .error error
  | .ok (early, late) =>
      if config.maxCandidates = 0 then
        .ok []
      else
        .ok (scan config early [] .empty late)

/-- Selects candidates from all files of the snapshot. -/
def select (config : Config) (snapshot : Snapshot) : Except Error (List Candidate) :=
  selectFrom config snapshot snapshot.sequence snapshot.unsequence

end SeriesStore.Selection
