import SeriesStore.Registry
import SeriesStore.Selection.Scan

/-!
# Rounds

A round selects and claims in every partition.  Partitions do not share files,
so the order in which they are visited does not show in the result.  A
partition whose view was stale is tried again in the next round; one whose
metadata is malformed is passed over.
-/

namespace SeriesStore.Selection

/-- Gives claimed candidates back; one that cannot be given back is left. -/
def releaseAll (key : PartitionKey) (registry : Registry) : List Candidate → Registry
  | [] => registry
  | candidate :: rest =>
      match registry.release key candidate.ids with
      | .ok () released => releaseAll key released rest
      | .error _ unreleased => releaseAll key unreleased rest

/-- Claims candidates one after the other.  If one cannot be claimed, those of
`claimed` are given back. -/
def claimAll (key : PartitionKey) (claimed : List Candidate) :
    List Candidate → Registry.Step Unit
  | [], registry => .ok () registry
  | candidate :: rest, registry =>
      match registry.claim key candidate.ids with
      | .ok () changed => claimAll key (claimed ++ [candidate]) rest changed
      | .error error changed => .error error (releaseAll key changed claimed)

/-- Selects candidates of one partition and claims all of them, or none. -/
def selectAndClaim (config : Config) (key : PartitionKey) : Registry.Step (List Candidate) :=
  fun registry =>
    match select config (registry.snapshot key) with
    | .error error => .error error registry
    | .ok candidates =>
        match claimAll key [] candidates registry with
        | .ok () changed => .ok candidates changed
        | .error error changed => .error error changed

/-- The outcome of a round. -/
structure Round where
  /-- The claimed candidates of every partition that has some, in key order. -/
  claimed : List (PartitionKey × List Candidate)
  /-- The partitions whose view was stale. -/
  retry : List PartitionKey
  /-- The partitions whose metadata is malformed. -/
  failed : List PartitionKey
deriving DecidableEq

namespace Round

/-- The outcome when no partition was visited. -/
def empty : Round :=
  ⟨[], [], []⟩

/-- The number of claimed candidates. -/
def count (round : Round) : Nat :=
  (round.claimed.flatMap fun entry => entry.2).length

/-- Enters the outcome of one more partition. -/
def enter (round : Round) (key : PartitionKey) : Except Error (List Candidate) → Round
  | .ok [] => round
  | .ok candidates => { round with claimed := round.claimed ++ [(key, candidates)] }
  | .error error =>
      if error.isRetryable then
        { round with retry := round.retry ++ [key] }
      else
        { round with failed := round.failed ++ [key] }

end Round

/-- Visits the listed partitions in order. -/
def visit (config : Config) (round : Round) (registry : Registry) :
    List PartitionKey → Round × Registry
  | [] => (round, registry)
  | key :: rest =>
      match selectAndClaim config key registry with
      | .ok candidates changed => visit config (round.enter key (.ok candidates)) changed rest
      | .error error changed => visit config (round.enter key (.error error)) changed rest

/-- Selects and claims in every partition. -/
def runRound (config : Config) (registry : Registry) : Round × Registry :=
  visit config .empty registry registry.keys

end SeriesStore.Selection
