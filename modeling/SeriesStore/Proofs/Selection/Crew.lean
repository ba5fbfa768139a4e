import SeriesStore.Proofs.Registry.Claiming
import SeriesStore.Proofs.Selection.Local

/-!
# Rounds with workers

However the workers of a round take turns, the round ends, and it ends like the round
that visits one partition after the other.  What a worker will come to is decided by its
own partition, and no other worker touches that (`Crew.OnTrack`).  The size of the groups
does not matter either.

In a reachable registry the outcome of every partition is that of a selection from it.
What is selected is claimed, and a selection fails only because of a deleted file.
-/

namespace SeriesStore.Selection

open Registry (seen)

variable {config : Config} {origin : Registry}

/-- What selecting and claiming under a key comes to if it starts from a registry. -/
def alone (config : Config) (origin : Registry) (key : PartitionKey) :
    Except Error (List Candidate) × Option Partition :=
  seen key (selectAndClaim config key origin)

/-- The outcomes of all partitions, each on its own. -/
def outcomes (config : Config) (origin : Registry) :
    List (PartitionKey × Except Error (List Candidate)) :=
  origin.keys.map fun key => (key, (alone config origin key).1)

/-! ## A round ends -/

/-- A bound of the number of steps that a worker still makes. -/
def Progress.weight (config : Config) : Progress → Nat
  | .waiting => 2 * config.maxCandidates + 3
  | .claiming claimed rest => claimed.length + 2 * rest.length + 2
  | .givingBack _ rest => rest.length + 1
  | .finished _ => 0

/-- A bound of the number of steps that a crew still makes. -/
def Crew.weight (config : Config) (crew : Crew) : Nat :=
  (crew.workers.map fun entry => entry.2.weight config).sum +
    crew.pending.length * (2 * config.maxCandidates + 4)

theorem length_le_of_select {snapshot : Snapshot} {candidates : List Candidate}
    (selected : select config snapshot = .ok candidates) :
    candidates.length ≤ config.maxCandidates := by
  rcases resolveInput_of_selectFrom selected with ⟨early, late, resolved⟩
  exact length_le_of_selectFrom resolved selected

theorem Progress.weight_step (config : Config) {progress : Progress}
    (unfinished : progress.isFinished = false) (key : PartitionKey) (registry : Registry) :
    (progress.step config key registry).1.weight config < progress.weight config := by
  cases progress with
  | waiting =>
      rw [Progress.step]
      split
      · simp only [Progress.weight]
        omega
      · rename_i candidates selected
        have bound := length_le_of_select selected
        simp only [Progress.weight, List.length_nil]
        omega
  | claiming claimed rest =>
      cases rest with
      | nil => simp [Progress.step, Progress.weight]
      | cons candidate rest =>
          rw [Progress.step]
          split <;>
            simp only [Progress.weight, List.length_append, List.length_cons, List.length_nil] <;>
            omega
  | givingBack error rest =>
      cases rest with
      | nil => simp [Progress.step, Progress.weight]
      | cons candidate rest =>
          rw [Progress.step]
          split <;> simp [Progress.weight]
  | finished outcome => contradiction

theorem Crew.sum_weight_hired (config : Config) (keys : List PartitionKey) :
    ((hired keys).map fun entry => entry.2.weight config).sum =
      keys.length * (2 * config.maxCandidates + 3) := by
  simp [hired, Function.comp_def, Progress.weight]

/-- Every step brings the end of the round nearer. -/
theorem Crew.weight_lt_of_step {crew next : Crew} (step : Step config crew next) :
    next.weight config < crew.weight config := by
  cases step with
  | @move registry before after key progress pending results unfinished =>
      have lighter := Progress.weight_step config unfinished key registry
      simp only [Crew.weight, List.map_append, List.map_cons, List.sum_append, List.sum_cons]
      omega
  | @takeUp registry pending outcomes results some_pending =>
      have taken : 0 < (pending.take (size config)).length := by
        have positive := List.length_pos_of_ne_nil some_pending
        rw [List.length_take]
        simp only [size]
        omega
      have split : (pending.take (size config)).length + (pending.drop (size config)).length =
          pending.length := by
        rw [← List.length_append, List.take_append_drop]
      simp only [Crew.weight, sum_weight_hired, ← split, Nat.add_mul, Nat.mul_add]
      omega

theorem Crew.exists_finished {workers : List (PartitionKey × Progress)}
    (idle : ∀ entry ∈ workers, entry.2.isFinished = true) :
    ∃ outcomes, workers = finished outcomes := by
  induction workers with
  | nil => exact ⟨[], rfl⟩
  | cons entry rest ih =>
      rw [List.forall_mem_cons] at idle
      rcases ih idle.2 with ⟨outcomes, rfl⟩
      rcases entry with ⟨key, progress⟩
      cases progress with
      | finished outcome => exact ⟨(key, outcome) :: outcomes, rfl⟩
      | _ => exact absurd idle.1 Bool.false_ne_true

/-- A crew that can make no step has ended. -/
theorem Crew.step_or_ends (config : Config) (crew : Crew) :
    (∃ next, Step config crew next) ∨ ∃ round, crew.Ends round := by
  rcases crew with ⟨registry, workers, pending, results⟩
  by_cases busy : ∃ entry ∈ workers, entry.2.isFinished = false
  · rcases busy with ⟨⟨key, progress⟩, member, unfinished⟩
    rcases List.append_of_mem member with ⟨before, after, rfl⟩
    exact .inl ⟨_, .move unfinished⟩
  · have idle : ∀ entry ∈ workers, entry.2.isFinished = true := by
      intro entry member
      by_contra unfinished
      exact busy ⟨entry, member, Bool.eq_false_iff.mpr unfinished⟩
    rcases exists_finished idle with ⟨outcomes, rfl⟩
    cases pending with
    | nil => exact .inr ⟨_, rfl, outcomes, rfl, rfl⟩
    | cons key rest => exact .inl ⟨_, .takeUp (List.cons_ne_nil key rest)⟩

/-- Every crew can go on until it has ended. -/
theorem Crew.exists_end (config : Config) (crew : Crew) :
    ∃ final round, Relation.ReflTransGen (Step config) crew final ∧ final.Ends round := by
  induction bound : crew.weight config using Nat.strong_induction_on generalizing crew with
  | _ bound ih =>
      rcases step_or_ends config crew with ⟨next, step⟩ | ⟨round, ends⟩
      · have lighter := weight_lt_of_step step
        rw [bound] at lighter
        rcases ih _ lighter next rfl with ⟨final, round, run, ends⟩
        exact ⟨final, round, run.head step, ends⟩
      · exact ⟨crew, round, .refl, ends⟩

/-! ## What a crew comes to -/

/-- A crew on its way: every key has its place, those that are pending are untouched, and
every other one has come to what it comes to alone, or will. -/
structure Crew.OnTrack (config : Config) (origin : Registry) (crew : Crew) : Prop where
  keys : crew.results.map Prod.fst ++ (crew.workers.map Prod.fst ++ crew.pending) = origin.keys
  results : ∀ entry ∈ crew.results,
    (entry.2, crew.registry.partition? entry.1) = alone config origin entry.1
  workers : ∀ entry ∈ crew.workers,
    seen entry.1 (entry.2.complete config entry.1 crew.registry) = alone config origin entry.1
  pending : ∀ key ∈ crew.pending, crew.registry.partition? key = origin.partition? key
  others : ∀ key, key ∉ origin.keys → crew.registry.partition? key = origin.partition? key

theorem Crew.onTrack_start (config : Config) (origin : Registry) :
    (start origin).OnTrack config origin where
  keys := rfl
  results _ member := by contradiction
  workers _ member := by contradiction
  pending _ _ := rfl
  others _ _ := rfl

theorem Progress.seen_complete_finished (key : PartitionKey) (registry : Registry)
    (outcome : Except Error (List Candidate)) :
    seen key ((Progress.finished outcome).complete config key registry) =
      (outcome, registry.partition? key) := by
  cases outcome <;> rfl

/-- When a worker moves, the other partitions stay, and so does what it will come to. -/
theorem Crew.OnTrack.move {registry : Registry} {before after : List (PartitionKey × Progress)}
    {key : PartitionKey} {progress : Progress} {pending : List PartitionKey}
    {results : List (PartitionKey × Except Error (List Candidate))}
    (onTrack : OnTrack config origin
      ⟨registry, before ++ (key, progress) :: after, pending, results⟩) :
    OnTrack config origin ⟨(progress.step config key registry).2,
      before ++ (key, (progress.step config key registry).1) :: after, pending, results⟩ := by
  rcases onTrack with ⟨keys, resultsDone, workersDone, untouched, others⟩
  dsimp only at keys resultsDone workersDone untouched others
  have order : results.map Prod.fst ++ before.map Prod.fst ++ key ::
      (after.map Prod.fst ++ pending) = origin.keys := by
    rw [← keys]
    simp
  have differ := origin.partitions.keys_nodup
  change origin.keys.Nodup at differ
  rw [← order, List.nodup_middle, List.nodup_cons] at differ
  have away : ∀ other, other ∈ results.map Prod.fst ∨ other ∈ before.map Prod.fst ∨
      other ∈ after.map Prod.fst ∨ other ∈ pending → other ≠ key := by
    rintro other place rfl
    apply differ.1
    simp only [List.mem_append]
    tauto
  have spared : ∀ other, other ≠ key →
      (progress.step config key registry).2.partition? other = registry.partition? other :=
    fun other apart => Progress.partition?_step apart progress registry
  constructor
  case keys => simpa using keys
  case results =>
    intro entry member
    rw [← resultsDone entry member]
    dsimp only
    rw [spared _ (away _ (.inl (List.mem_map_of_mem member)))]
  case workers =>
    intro entry member
    have still : ∀ entry : PartitionKey × Progress,
        entry ∈ before ++ (key, progress) :: after → entry.1 ≠ key →
        seen entry.1 (entry.2.complete config entry.1 (progress.step config key registry).2) =
          alone config origin entry.1 := by
      intro entry member apart
      rw [Progress.seen_complete (spared _ apart)]
      exact workersDone entry member
    simp only [List.mem_append, List.mem_cons] at member still
    rcases member with inBefore | rfl | inAfter
    · exact still entry (.inl inBefore) (away _ (.inr (.inl (List.mem_map_of_mem inBefore))))
    · dsimp only
      rw [Progress.complete_step]
      exact workersDone (key, progress) (by simp)
    · exact still entry (.inr (.inr inAfter))
        (away _ (.inr (.inr (.inl (List.mem_map_of_mem inAfter)))))
  case pending =>
    intro other member
    dsimp only
    rw [spared _ (away _ (.inr (.inr (.inr member))))]
    exact untouched other member
  case others =>
    intro other outside
    have apart : other ≠ key := by
      rintro rfl
      apply outside
      rw [← order]
      simp
    dsimp only
    rw [spared _ apart]
    exact others other outside

/-- New workers find their partitions untouched, and those that have finished have come to
what they come to alone. -/
theorem Crew.OnTrack.takeUp {registry : Registry} {pending : List PartitionKey}
    {outcomes results : List (PartitionKey × Except Error (List Candidate))}
    (onTrack : OnTrack config origin ⟨registry, finished outcomes, pending, results⟩) :
    OnTrack config origin ⟨registry, hired (pending.take (size config)),
      pending.drop (size config), results ++ outcomes⟩ := by
  rcases onTrack with ⟨keys, resultsDone, workersDone, untouched, others⟩
  dsimp only at keys resultsDone workersDone untouched others
  constructor
  case keys =>
    rw [← keys]
    simp [finished, hired, Function.comp_def]
  case results =>
    intro entry member
    rcases List.mem_append.mp member with early | late
    · exact resultsDone entry early
    · have done := workersDone (entry.1, .finished entry.2) (List.mem_map_of_mem late)
      dsimp only at done
      rw [Progress.seen_complete_finished] at done
      exact done
  case workers =>
    intro entry member
    rcases List.mem_map.mp member with ⟨key, isTaken, rfl⟩
    have isPending := List.mem_of_mem_take isTaken
    exact (local_selectAndClaim config key).sees registry origin (untouched key isPending)
  case pending => exact fun key member => untouched key (List.mem_of_mem_drop member)
  case others => exact others

theorem Crew.OnTrack.step {crew next : Crew} (onTrack : crew.OnTrack config origin)
    (step : Step config crew next) : next.OnTrack config origin := by
  cases step with
  | move _ => exact onTrack.move
  | takeUp _ => exact onTrack.takeUp

/-- A crew that has ended holds the outcome of every partition on its own. -/
theorem Crew.OnTrack.ends {crew : Crew} (onTrack : crew.OnTrack config origin) {round : Round}
    (ends : crew.Ends round) :
    round = Round.empty.enterAll (outcomes config origin) ∧
      (∀ key ∈ origin.keys, crew.registry.partition? key = (alone config origin key).2) ∧
      ∀ key, key ∉ origin.keys → crew.registry.partition? key = origin.partition? key := by
  rcases ends with ⟨none_pending, last, workers_eq, rfl⟩
  have done : ∀ entry ∈ crew.results ++ last,
      (entry.2, crew.registry.partition? entry.1) = alone config origin entry.1 := by
    intro entry member
    rcases List.mem_append.mp member with early | late
    · exact onTrack.results entry early
    · have isWorker : (entry.1, Progress.finished entry.2) ∈ crew.workers := by
        rw [workers_eq]
        exact List.mem_map_of_mem late
      have seen_eq := onTrack.workers _ isWorker
      dsimp only at seen_eq
      rw [Progress.seen_complete_finished] at seen_eq
      exact seen_eq
  have keys : (crew.results ++ last).map Prod.fst = origin.keys := by
    rw [← onTrack.keys, none_pending, workers_eq]
    simp [finished, Function.comp_def]
  refine ⟨?_, ?_, onTrack.others⟩
  · have same :
        (crew.results ++ last).map (fun entry => (entry.1, (alone config origin entry.1).1)) =
          crew.results ++ last := by
      have each : ∀ entry ∈ crew.results ++ last,
          (entry.1, (alone config origin entry.1).1) = id entry := by
        intro entry member
        rw [← done entry member]
        rfl
      rw [List.map_congr_left each, List.map_id]
    rw [outcomes, ← keys, List.map_map]
    exact congrArg Round.empty.enterAll same.symm
  · intro key member
    rw [← keys] at member
    rcases List.mem_map.mp member with ⟨entry, isEntry, rfl⟩
    exact congrArg Prod.snd (done entry isEntry)

/-! ## The round without workers -/

theorem visit_cons (config : Config) (round : Round) (registry : Registry)
    (key : PartitionKey) (rest : List PartitionKey) :
    visit config round registry (key :: rest) =
      visit config (round.enter key (alone config registry key).1)
        (leftBehind (selectAndClaim config key registry)) rest := by
  rw [visit, alone]
  cases selectAndClaim config key registry <;> rfl

theorem partition?_leftBehind (config : Config) (registry : Registry) (key : PartitionKey) :
    (leftBehind (selectAndClaim config key registry)).partition? key =
      (alone config registry key).2 := by
  rw [alone]
  cases selectAndClaim config key registry <;> rfl

/-- Visiting one partition after the other gives every partition its outcome alone. -/
theorem visit_eq (config : Config) (origin : Registry) {registry : Registry}
    {keys : List PartitionKey} (differ : keys.Nodup)
    (untouched : ∀ key ∈ keys, registry.partition? key = origin.partition? key) (round : Round) :
    (visit config round registry keys).1 =
        round.enterAll (keys.map fun key => (key, (alone config origin key).1)) ∧
      (∀ key ∈ keys,
        (visit config round registry keys).2.partition? key = (alone config origin key).2) ∧
      ∀ key, key ∉ keys →
        (visit config round registry keys).2.partition? key = registry.partition? key := by
  induction keys generalizing registry round with
  | nil => exact ⟨rfl, by simp, fun _ _ => rfl⟩
  | cons first rest ih =>
      rw [List.nodup_cons] at differ
      rw [List.forall_mem_cons] at untouched
      have selecting := local_selectAndClaim config first
      have own : alone config registry first = alone config origin first :=
        selecting.sees registry origin untouched.1
      have spared : ∀ key, key ≠ first →
          (leftBehind (selectAndClaim config first registry)).partition? key =
            registry.partition? key :=
        fun key apart => selecting.spares registry key apart
      have stillUntouched : ∀ key ∈ rest,
          (leftBehind (selectAndClaim config first registry)).partition? key =
            origin.partition? key := by
        intro key member
        rw [spared key fun same => differ.1 (same ▸ member)]
        exact untouched.2 key member
      rw [visit_cons, own]
      rcases ih differ.2 stillUntouched (round.enter first (alone config origin first).1) with
        ⟨rounds, visited, others⟩
      refine ⟨rounds, ?_, fun key outside => ?_⟩
      · rw [List.forall_mem_cons]
        refine ⟨?_, visited⟩
        rw [others first differ.1, partition?_leftBehind, own]
      · rw [List.mem_cons, not_or] at outside
        rw [others key outside.2, spared key outside.1]

theorem runRound_eq (config : Config) (origin : Registry) :
    (runRound config origin).1 = Round.empty.enterAll (outcomes config origin) ∧
      (∀ key ∈ origin.keys,
        (runRound config origin).2.partition? key = (alone config origin key).2) ∧
      ∀ key, key ∉ origin.keys →
        (runRound config origin).2.partition? key = origin.partition? key :=
  visit_eq config origin origin.partitions.keys_nodup (fun _ _ => rfl) .empty

/-- A crew that has ended has come to what the round without workers comes to. -/
theorem Crew.OnTrack.ends_like_runRound {crew : Crew} (onTrack : crew.OnTrack config origin)
    {round : Round} (ends : crew.Ends round) : (round, crew.registry) = runRound config origin := by
  rcases onTrack.ends ends with ⟨rounds, visited, others⟩
  rcases runRound_eq config origin with ⟨roundsAlone, visitedAlone, othersAlone⟩
  apply Prod.ext
  · rw [rounds, roundsAlone]
  · apply Registry.ext_partition?
    intro key
    by_cases member : key ∈ origin.keys
    · rw [visited key member, visitedAlone key member]
    · rw [others key member, othersAlone key member]

end SeriesStore.Selection

namespace SeriesStore.Registry

/-- The registry that has only the partition of one key. -/
def only (registry : Registry) (key : PartitionKey) : Registry :=
  match registry.partition? key with
  | none => .empty
  | some partition => Registry.empty.put key partition

theorem partition?_only (registry : Registry) (key asked : PartitionKey) :
    (registry.only key).partition? asked =
      if asked = key then registry.partition? key else none := by
  rw [only]
  cases registry.partition? key with
  | none =>
      rw [ite_self]
      rfl
  | some partition =>
      by_cases same : asked = key
      · subst same
        rw [if_pos rfl]
        exact partition?_put_self _ _ _
      · rw [if_neg same]
        exact partition?_put_of_ne _ same _

theorem keys_only {registry : Registry} {key : PartitionKey} (member : key ∈ registry.keys) :
    (registry.only key).keys = [key] := by
  rcases (SortedMap.mem_keys_iff registry.partitions key).mp member with ⟨partition, present⟩
  change registry.partition? key = some partition at present
  rw [only, present]
  rfl

end SeriesStore.Registry

namespace SeriesStore.Selection

open Registry (seen)

variable {config : Config} {origin : Registry}

/-! ## One partition of many -/

/-- What a round says of one key. -/
def Round.only (round : Round) (key : PartitionKey) : Round where
  claimed := round.claimed.filter fun entry => entry.1 = key
  retry := round.retry.filter fun other => other = key
  failed := round.failed.filter fun other => other = key

theorem Round.only_enter (round : Round) (asked key : PartitionKey)
    (outcome : Except Error (List Candidate)) :
    (round.enter asked outcome).only key =
      if asked = key then (round.only key).enter asked outcome else round.only key := by
  by_cases same : asked = key <;> rcases outcome with error | (_ | ⟨first, rest⟩)
  case pos.error | neg.error =>
    by_cases again : error.isRetryable <;> simp [enter, only, again, same]
  all_goals simp [enter, only, same]

theorem Round.only_enterAll (round : Round) (key : PartitionKey)
    (results : List (PartitionKey × Except Error (List Candidate))) :
    (round.enterAll results).only key =
      (round.only key).enterAll (results.filter fun entry => entry.1 = key) := by
  induction results generalizing round with
  | nil => rfl
  | cons entry rest ih =>
      change ((round.enter entry.1 entry.2).enterAll rest).only key = _
      rw [ih, only_enter]
      by_cases same : entry.1 = key
      · rw [if_pos same, List.filter_cons_of_pos (by simpa using same)]
        rfl
      · rw [if_neg same, List.filter_cons_of_neg (by simpa using same)]

/-- In a registry of its own a partition gets the outcome that it gets among others. -/
theorem runRound_only (config : Config) {key : PartitionKey} (member : key ∈ origin.keys) :
    runRound config (origin.only key) =
      ((runRound config origin).1.only key, (runRound config origin).2.only key) := by
  have partition_eq : (origin.only key).partition? key = origin.partition? key := by
    rw [Registry.partition?_only, if_pos rfl]
  have own : alone config (origin.only key) key = alone config origin key :=
    (local_selectAndClaim config key).sees _ _ partition_eq
  rcases runRound_eq config origin with ⟨rounds, visited, _⟩
  rcases runRound_eq config (origin.only key) with ⟨roundsOnly, visitedOnly, othersOnly⟩
  rw [Registry.keys_only member] at visitedOnly othersOnly
  apply Prod.ext
  · have single : (outcomes config origin).filter (fun entry => entry.1 = key) =
        [(key, (alone config origin key).1)] := by
      have differ : origin.keys.Nodup := origin.partitions.keys_nodup
      have once : origin.keys.filter (fun other => other = key) = [key] := by
        rw [List.filter_eq, List.count_eq_one_of_mem differ member]
        rfl
      rw [outcomes, List.filter_map]
      change (origin.keys.filter fun other => other = key).map _ = _
      rw [once, List.map_singleton]
    rw [roundsOnly, rounds, Round.only_enterAll, single, outcomes, Registry.keys_only member,
      List.map_singleton, own]
    rfl
  · apply Registry.ext_partition?
    intro asked
    dsimp only
    rw [Registry.partition?_only]
    by_cases same : asked = key
    · rw [if_pos same, same, visitedOnly key List.mem_cons_self, own, visited key member]
    · rw [if_neg same, othersOnly asked (by simpa using same), Registry.partition?_only,
        if_neg same]

/-! ## Outcomes in a reachable registry -/

/-- The entry of an outcome among the claimed candidates. -/
def claimedOf? : PartitionKey × Except Error (List Candidate) →
    Option (PartitionKey × List Candidate)
  | (key, .ok (first :: rest)) => some (key, first :: rest)
  | _ => none

/-- Whether a key is to be tried again after its outcome. -/
def isRetried : PartitionKey × Except Error (List Candidate) → Bool
  | (_, .error error) => error.isRetryable
  | _ => false

/-- Whether a key is passed over after its outcome. -/
def isFailed : PartitionKey × Except Error (List Candidate) → Bool
  | (_, .error error) => !error.isRetryable
  | _ => false

theorem Round.enterAll_eq (round : Round)
    (results : List (PartitionKey × Except Error (List Candidate))) :
    round.enterAll results =
      ⟨round.claimed ++ results.filterMap claimedOf?,
        round.retry ++ (results.filter isRetried).map Prod.fst,
        round.failed ++ (results.filter isFailed).map Prod.fst⟩ := by
  induction results generalizing round with
  | nil => simp [enterAll]
  | cons entry rest ih =>
      change (round.enter entry.1 entry.2).enterAll rest = _
      rw [ih]
      rcases entry with ⟨key, error | (_ | ⟨first, others⟩)⟩
      · by_cases again : error.isRetryable <;>
          simp [enter, List.filterMap_cons, claimedOf?, isRetried, isFailed, again]
      · simp [enter, List.filterMap_cons, claimedOf?, isRetried, isFailed]
      · simp [enter, claimedOf?, isRetried, isFailed]

theorem claimedOf?_eq_some_iff (entry : PartitionKey × Except Error (List Candidate))
    (key : PartitionKey) (candidates : List Candidate) :
    claimedOf? entry = some (key, candidates) ↔
      entry = (key, .ok candidates) ∧ candidates ≠ [] := by
  rcases entry with ⟨asked, error | (_ | ⟨first, rest⟩)⟩
  · simp [claimedOf?]
  · simp only [claimedOf?, reduceCtorEq, Prod.mk.injEq, Except.ok.injEq, false_iff, not_and,
      not_not]
    exact fun same => same.2.symm
  · simp only [claimedOf?, Option.some.injEq, Prod.mk.injEq, Except.ok.injEq]
    constructor
    · rintro ⟨rfl, rfl⟩
      exact ⟨⟨rfl, rfl⟩, List.cons_ne_nil first rest⟩
    · exact fun same => same.1

/-- Claimed candidates stand in the order of the outcomes. -/
theorem claimed_keys_sublist (results : List (PartitionKey × Except Error (List Candidate))) :
    ((results.filterMap claimedOf?).map Prod.fst).Sublist (results.map Prod.fst) := by
  induction results with
  | nil => exact .refl _
  | cons entry rest ih =>
      rw [List.filterMap_cons, List.map_cons]
      split
      · exact ih.cons _
      · rename_i claimed same
        rcases claimed with ⟨key, candidates⟩
        rcases (claimedOf?_eq_some_iff _ _ _).mp same with ⟨rfl, _⟩
        exact ih.cons_cons key

/-- What a selection that is claimed, or that fails, comes to in a consistent partition. -/
theorem alone_of_consistent {key : PartitionKey} {log : List FileId}
    (consistent : (origin.snapshot key).partition.Consistent log) :
    (alone config origin key).1 = select config (origin.snapshot key) := by
  cases selected : select config (origin.snapshot key) with
  | error error => rw [alone, selectAndClaim, selected, seen]
  | ok candidates =>
      rw [alone, Registry.selectAndClaim_eq_withStatus consistent.distinct selected, seen]

/-- Whether a deleted file is registered under a key. -/
def holdsDeleted (registry : Registry) (key : PartitionKey) : Bool :=
  (registry.snapshot key).partition.files.any fun file => file.status = .deleted

/-- A selection fails because of a deleted file only. -/
theorem select_cases {key : PartitionKey} {log : List FileId} (config : Config)
    (consistent : (origin.snapshot key).partition.Consistent log) :
    (holdsDeleted origin key = false ∧
        ∃ candidates, select config (origin.snapshot key) = .ok candidates) ∨
      holdsDeleted origin key = true ∧
        ∃ id, select config (origin.snapshot key) = .error (.stale id .deleted) := by
  cases held : holdsDeleted origin key with
  | false =>
      have live : ∀ file ∈ (origin.snapshot key).partition.files, file.status ≠ .deleted := by
        simpa [holdsDeleted] using held
      exact .inl ⟨rfl, exists_selectFrom (resolveInput_of_consistent consistent live) config⟩
  | true =>
      rcases List.any_eq_true.mp held with ⟨file, member, deleted⟩
      rcases select_of_deleted consistent member (of_decide_eq_true deleted) with
        ⟨gone, _, _, fails⟩
      exact .inr ⟨rfl, gone.id, fails config⟩

/-- What a round comes to: the selected candidates are claimed in key order, the partitions
with a deleted file are to be tried again, none has failed, and to each partition the same
has happened as if it had been the only one. -/
structure Round.Settles (config : Config) (before : Registry) (round : Round)
    (after : Registry) : Prop where
  claimed_keys : (round.claimed.map Prod.fst).Sublist before.keys
  claimed_iff (key : PartitionKey) (candidates : List Candidate) :
    (key, candidates) ∈ round.claimed ↔
      key ∈ before.keys ∧ candidates ≠ [] ∧
        select config (before.snapshot key) = .ok candidates
  retry_eq : round.retry = before.keys.filter (holdsDeleted before)
  failed_eq : round.failed = []
  alone (key : PartitionKey) : key ∈ before.keys →
    runRound config (before.only key) = (round.only key, after.only key)

theorem settles_of_reachable (reachable : origin.Reachable) (config : Config) :
    (runRound config origin).1.Settles config origin (runRound config origin).2 := by
  have outcomes_eq : outcomes config origin =
      origin.keys.map fun key => (key, select config (origin.snapshot key)) := by
    apply List.map_congr_left
    intro key _
    rcases reachable.consistent key with ⟨log, consistent⟩
    rw [alone_of_consistent consistent]
  have round_eq := (runRound_eq config origin).1
  rw [outcomes_eq, Round.enterAll_eq] at round_eq
  constructor
  case claimed_keys =>
    have sublist := claimed_keys_sublist (outcomes config origin)
    rw [outcomes_eq, List.map_map, Function.comp_def, List.map_id'] at sublist
    rw [round_eq]
    exact sublist
  case claimed_iff =>
    intro key candidates
    rw [round_eq]
    change (key, candidates) ∈ List.filterMap claimedOf? _ ↔ _
    simp only [List.mem_filterMap, List.mem_map, claimedOf?_eq_some_iff]
    constructor
    · rintro ⟨_, ⟨other, member, rfl⟩, same, some_claimed⟩
      rw [Prod.mk.injEq] at same
      rcases same with ⟨rfl, selected⟩
      exact ⟨member, some_claimed, selected⟩
    · rintro ⟨member, some_claimed, selected⟩
      exact ⟨_, ⟨key, member, rfl⟩, by rw [selected], some_claimed⟩
  case retry_eq =>
    rw [round_eq]
    change ((List.map _ _).filter isRetried).map Prod.fst = _
    rw [List.filter_map, List.map_map, Function.comp_def, List.map_id']
    apply List.filter_congr
    intro key _
    rcases reachable.consistent key with ⟨log, consistent⟩
    rcases select_cases config consistent with ⟨held, candidates, selected⟩ | ⟨held, id, fails⟩
    · rw [held, Function.comp_apply, selected]
      rfl
    · rw [held, Function.comp_apply, fails]
      rfl
  case failed_eq =>
    rw [round_eq]
    change ((List.map _ _).filter isFailed).map Prod.fst = []
    rw [List.map_eq_nil_iff, List.filter_eq_nil_iff]
    intro entry member
    rcases List.mem_map.mp member with ⟨key, _, rfl⟩
    rcases reachable.consistent key with ⟨log, consistent⟩
    rcases select_cases config consistent with ⟨_, candidates, selected⟩ | ⟨_, id, fails⟩
    · rw [selected]
      exact Bool.false_ne_true
    · rw [fails]
      exact Bool.false_ne_true
  case alone => exact fun key member => runRound_only config member

/-- However workers take turns, a round ends, and it ends like the one that visits the
partitions in order. -/
theorem crew_ends_like_runRound {registry : Registry} (reachable : registry.Reachable)
    (config : Config) :
    (WellFounded fun next crew : Crew => Crew.Step config crew next) ∧
      ∀ crew, Relation.ReflTransGen (Crew.Step config) (Crew.start registry) crew →
        ((∃ next, Crew.Step config crew next) ∨ ∃ round, crew.Ends round) ∧
          ∀ round, crew.Ends round →
            (round, crew.registry) = runRound config registry ∧
              round.Settles config registry crew.registry := by
  constructor
  · exact Subrelation.wf (fun step => Crew.weight_lt_of_step step)
      (measure (Crew.weight config)).wf
  · intro crew run
    have onTrack : crew.OnTrack config registry := by
      induction run with
      | refl => exact Crew.onTrack_start config registry
      | tail _ step ih => exact ih.step step
    refine ⟨Crew.step_or_ends config crew, fun round ends => ?_⟩
    have same := onTrack.ends_like_runRound ends
    refine ⟨same, ?_⟩
    have settles := settles_of_reachable reachable config
    rw [← same] at settles
    exact settles

end SeriesStore.Selection

/-! ## A crew of two in three partitions

Two partitions have the same files, and the third has a deleted one. -/

namespace SeriesStore

namespace Sample

open Selection

def secondKey : PartitionKey :=
  ⟨"group", 1⟩

def thirdKey : PartitionKey :=
  ⟨"group", 2⟩

def neighbours : Registry :=
  registry.serveAll [.addAll secondKey .sequence sequence, .addAll secondKey .unsequence unsequence,
    .addAll thirdKey .sequence [file .sequence .deleted 4 [("a", ⟨80, 90⟩)]]]

theorem neighbours_reachable : neighbours.Reachable :=
  registry_reachable.serveAll _

def pair : Config :=
  { config with threads := 2 }

end Sample

namespace Selection

theorem crew_ends_like_runRound_sample :
    ∃ crew round,
      Relation.ReflTransGen (Crew.Step Sample.pair) (Crew.start Sample.neighbours) crew ∧
      crew.Ends round ∧
      round = ⟨[(Sample.key, Sample.candidates), (Sample.secondKey, Sample.candidates)],
        [Sample.thirdKey], []⟩ ∧
      round.Settles Sample.pair Sample.neighbours crew.registry := by
  rcases Crew.exists_end Sample.pair (Crew.start Sample.neighbours) with
    ⟨crew, round, run, ends⟩
  rcases crew_ends_like_runRound Sample.neighbours_reachable Sample.pair with ⟨_, reached⟩
  rcases (reached crew run).2 round ends with ⟨same, settles⟩
  refine ⟨crew, round, run, ends, ?_, settles⟩
  have round_eq : (runRound Sample.pair Sample.neighbours).1 =
      ⟨[(Sample.key, Sample.candidates), (Sample.secondKey, Sample.candidates)],
        [Sample.thirdKey], []⟩ := by
    cbv
  rw [← round_eq, ← same]

end Selection

end SeriesStore
