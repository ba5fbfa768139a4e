import SeriesStore.Selection.Round

/-!
# A round with workers

A round is worked on by a crew.  The keys are taken up in groups of at most
`Config.threads`, and every key of a group gets a worker of its own.  A worker looks at
its partition and selects, claims the candidates one by one and, when one of them cannot
be claimed, gives back those before it.  Looking, claiming and giving back are single
steps, and between two steps of a worker any other worker may move.  The next group is
taken up when all workers of the last one have finished.
-/

namespace SeriesStore.Selection

/-- How far a worker has come. -/
inductive Progress where
  /-- The worker has not looked at its partition yet. -/
  | waiting
  /-- The worker has claimed some of the selected candidates and is to claim the rest. -/
  | claiming (claimed rest : List Candidate)
  /-- The worker could not claim a candidate and is to give back the listed ones. -/
  | givingBack (error : Error) (rest : List Candidate)
  /-- The worker has finished. -/
  | finished (outcome : Except Error (List Candidate))

/-- One step of the worker of a partition. -/
def Progress.step (config : Config) (key : PartitionKey) :
    Progress → Registry → Progress × Registry
  | .waiting, registry =>
      match select config (registry.snapshot key) with
      | .error error => (.finished (.error error), registry)
      | .ok candidates => (.claiming [] candidates, registry)
  | .claiming claimed [], registry => (.finished (.ok claimed), registry)
  | .claiming claimed (candidate :: rest), registry =>
      match registry.claim key candidate.ids with
      | .ok () changed => (.claiming (claimed ++ [candidate]) rest, changed)
      | .error error changed => (.givingBack error claimed, changed)
  | .givingBack error [], registry => (.finished (.error error), registry)
  | .givingBack error (candidate :: rest), registry =>
      match registry.release key candidate.ids with
      | .ok () released => (.givingBack error rest, released)
      | .error _ unreleased => (.givingBack error rest, unreleased)
  | .finished outcome, registry => (.finished outcome, registry)

/-- Whether a worker has finished. -/
def Progress.isFinished : Progress → Bool
  | .finished _ => true
  | _ => false

/-- A crew at work: the registry, the workers of the current group with their keys, the
keys that have not been taken up, and the outcomes of the groups before. -/
structure Crew where
  registry : Registry
  workers : List (PartitionKey × Progress)
  pending : List PartitionKey
  results : List (PartitionKey × Except Error (List Candidate))

/-- Enters outcomes one after the other. -/
def Round.enterAll (round : Round)
    (results : List (PartitionKey × Except Error (List Candidate))) : Round :=
  results.foldl (fun round entry => round.enter entry.1 entry.2) round

namespace Crew

/-- The crew before the first group is taken up. -/
def start (registry : Registry) : Crew :=
  ⟨registry, [], registry.keys, []⟩

/-- Workers that have finished with the listed outcomes. -/
def finished (outcomes : List (PartitionKey × Except Error (List Candidate))) :
    List (PartitionKey × Progress) :=
  outcomes.map fun entry => (entry.1, .finished entry.2)

/-- Workers that are to begin with the listed keys. -/
def hired (keys : List PartitionKey) : List (PartitionKey × Progress) :=
  keys.map fun key => (key, .waiting)

/-- The size of a group; a crew has at least one worker. -/
def size (config : Config) : Nat :=
  max config.threads 1

/-- A worker that has not finished moves, or the next group is taken up. -/
inductive Step (config : Config) : Crew → Crew → Prop where
  | move {registry : Registry} {before after : List (PartitionKey × Progress)}
      {key : PartitionKey} {progress : Progress} {pending : List PartitionKey}
      {results : List (PartitionKey × Except Error (List Candidate))}
      (unfinished : progress.isFinished = false) :
      Step config ⟨registry, before ++ (key, progress) :: after, pending, results⟩
        ⟨(progress.step config key registry).2,
          before ++ (key, (progress.step config key registry).1) :: after, pending, results⟩
  | takeUp {registry : Registry} {pending : List PartitionKey}
      {outcomes results : List (PartitionKey × Except Error (List Candidate))}
      (some_pending : pending ≠ []) :
      Step config ⟨registry, finished outcomes, pending, results⟩
        ⟨registry, hired (pending.take (size config)), pending.drop (size config),
          results ++ outcomes⟩

/-- Whether the crew has finished all keys, and with which outcome of the round. -/
def Ends (crew : Crew) (round : Round) : Prop :=
  crew.pending = [] ∧ ∃ outcomes, crew.workers = finished outcomes ∧
    round = Round.empty.enterAll (crew.results ++ outcomes)

end Crew

end SeriesStore.Selection
