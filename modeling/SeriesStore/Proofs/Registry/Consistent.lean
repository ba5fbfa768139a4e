import SeriesStore.Proofs.Partition.Consistent
import SeriesStore.Proofs.Registry.Reachable
import SeriesStore.Proofs.Sidecar.Spelling

/-!
# Consistent registries

Every partition that requests have made is consistent with the files that have
come in under its key: first those that recovery has restored, in the order in
which their sidecars are listed, then those of every request that succeeded.

An invariant of partitions that holds before any file has come in, and that
revisions and files that come in keep, holds after every run of requests
(`Invariant.requests`).  Being consistent is one such invariant.  Another says
where growing spans come from that end before they start: no request looks at the
files that are handed in for that, so such a span stays if it was handed in, and
there is no other way to one.  What a sidecar says is raised when it is read.
-/

namespace SeriesStore

namespace Registry

/-- The files that recovery has brought into a registry under a key.  A partition that
is not listed gets none. -/
def recoveredUnder (layout : Disk.Layout) (disk : Disk.Tree) (registry : Registry)
    (key : PartitionKey) : List DataFile :=
  match registry.partition? key with
  | none => []
  | some _ => layout.restored disk key

/-- A registry from which requests may start, and the files that came in under each
key before. -/
inductive Opening : Registry → (PartitionKey → List DataFile) → Prop where
  | empty : Opening .empty fun _ => []
  | recovered {layout : Disk.Layout} {disk : Disk.Tree} {registry : Registry}
      (outcome : layout.recover disk = .ok registry) :
      Opening registry (recoveredUnder layout disk registry)

/-- The registry that a run of requests leaves behind. -/
def serveAll (registry : Registry) (requests : List Request) : Registry :=
  requests.foldl serve registry

theorem Reachable.serveAll {registry : Registry} (reachable : registry.Reachable)
    (requests : List Request) : (registry.serveAll requests).Reachable := by
  induction requests generalizing registry with
  | nil => exact reachable
  | cons request rest ih => exact ih (reachable.served request)

/-- The files that a run of requests brings in under a key, in the order in which
they come in. -/
def arrivals (registry : Registry) : List Request → PartitionKey → List DataFile
  | [], _ => []
  | request :: rest, key =>
      registry.entering request key ++ arrivals (registry.serve request) rest key

theorem gains_recoveredUnder {layout : Disk.Layout} {disk : Disk.Tree} {registry : Registry}
    (outcome : layout.recover disk = .ok registry) (key : PartitionKey) :
    Partition.Gains .empty (registry.snapshot key).partition
      (recoveredUnder layout disk registry key) := by
  unfold recoveredUnder
  cases present : registry.partition? key with
  | none =>
      rw [snapshot, present]
      exact .refl _
  | some partition =>
      rw [partition_snapshot present]
      exact Disk.gains_of_recover outcome key partition present

/-! ## Invariants of partitions -/

/-- A property of a partition and the files that have come into it which every
request keeps. -/
structure Invariant (holds : Partition → List DataFile → Prop) : Prop where
  empty : holds .empty []
  revisions {partition revised : Partition} {arrived : List DataFile} :
    holds partition arrived → Partition.Revisions partition revised → holds revised arrived
  insertAll {partition : Partition} {arrived files : List DataFile} :
    holds partition arrived → partition.Fresh files →
      holds (partition.insertAll files) (arrived ++ files)

section Run

variable {holds : Partition → List DataFile → Prop} (invariant : Invariant holds)

include invariant

theorem Invariant.served {before after : Registry}
    {arrived entered : PartitionKey → List DataFile} (served : Served before after entered)
    (all : ∀ key, holds (before.snapshot key).partition (arrived key)) (key : PartitionKey) :
    holds (after.snapshot key).partition (arrived key ++ entered key) := by
  cases served with
  | revised revised =>
      rw [List.append_nil]
      exact invariant.revisions (all key) (revised.snapshot key)
  | entered place revisions fresh =>
      rw [under]
      split
      · rename_i same
        subst same
        rw [partition_snapshot (partition?_put_self _ _ _)]
        exact invariant.insertAll (invariant.revisions (all key) revisions) fresh
      · rename_i other
        rw [List.append_nil, snapshot, partition?_put_of_ne _ other]
        exact all key

theorem Invariant.opening {start : Registry} {restored : PartitionKey → List DataFile}
    (opening : Opening start restored) (key : PartitionKey) :
    holds (start.snapshot key).partition (restored key) := by
  cases opening with
  | empty => exact invariant.empty
  | recovered outcome =>
      rcases gains_recoveredUnder outcome key with ⟨fresh, filled⟩
      rw [filled]
      exact invariant.insertAll invariant.empty fresh

theorem Invariant.requests {start : Registry} {restored : PartitionKey → List DataFile}
    (all : ∀ key, holds (start.snapshot key).partition (restored key)) (requests : List Request)
    (key : PartitionKey) :
    holds ((start.serveAll requests).snapshot key).partition
      (restored key ++ start.arrivals requests key) := by
  induction requests generalizing start restored with
  | nil =>
      rw [arrivals, List.append_nil]
      exact all key
  | cons request rest ih =>
      rw [arrivals, ← List.append_assoc]
      exact ih (invariant.served (start.served request) all)

theorem Invariant.reachable {registry : Registry} (reachable : registry.Reachable) :
    ∃ arrived : PartitionKey → List DataFile,
      ∀ key, holds (registry.snapshot key).partition (arrived key) := by
  induction reachable with
  | empty => exact ⟨_, invariant.opening .empty⟩
  | recovered outcome => exact ⟨_, invariant.opening (.recovered outcome)⟩
  | served _ request ih =>
      rcases ih with ⟨arrived, all⟩
      exact ⟨_, invariant.served (Registry.served _ request) all⟩

end Run

theorem invariant_consistent :
    Invariant fun partition arrived => partition.Consistent (arrived.map DataFile.id) where
  empty := Partition.consistent_empty
  revisions consistent revisions := consistent.revisions revisions
  insertAll consistent fresh := by
    rw [List.map_append]
    exact consistent.insertAll fresh

theorem Reachable.consistent {registry : Registry} (reachable : registry.Reachable)
    (key : PartitionKey) : ∃ log, (registry.snapshot key).partition.Consistent log := by
  rcases invariant_consistent.reachable reachable with ⟨arrived, consistent⟩
  exact ⟨_, consistent key⟩

theorem Reachable.sound {registry : Registry} (reachable : registry.Reachable)
    (key : PartitionKey) : (registry.snapshot key).partition.Sound := by
  rcases reachable.consistent key with ⟨_, consistent⟩
  exact consistent.sound

/-! ## Spans that end before they start -/

/-- Whether each span of a file that is not well formed has come in with a file of the same
number. -/
def SpansFrom (arrived : List DataFile) (file : DataFile) : Prop :=
  ∀ entry ∈ file.devices.entries, ¬ entry.2.WellFormed →
    ∃ own ∈ arrived, own.id = file.id ∧ entry ∈ own.devices.entries

theorem SpansFrom.change {arrived : List DataFile} {file changed : DataFile}
    (spans : SpansFrom arrived file) (change : file.Change changed) :
    SpansFrom arrived changed := by
  intro entry member inverted
  rw [change.place_eq.1]
  exact spans entry (change.mem_of_not_wellFormed member inverted) inverted

theorem SpansFrom.mono {arrived more : List DataFile} {file : DataFile}
    (spans : SpansFrom arrived file) (subset : arrived ⊆ more) : SpansFrom more file := by
  intro entry member inverted
  rcases spans entry member inverted with ⟨own, isOwn, rest⟩
  exact ⟨own, subset isOwn, rest⟩

theorem invariant_spansFrom :
    Invariant fun partition arrived => ∀ file ∈ partition.files, SpansFrom arrived file where
  empty := by simp [Partition.empty, Partition.files]
  revisions all revisions := by
    induction revisions with
    | refl => exact all
    | tail _ revision ih =>
        exact revision.forall_files (fun _ _ change spans => spans.change change) ih
  insertAll {partition arrived files} all fresh := by
    intro file member
    rcases (Partition.mem_files_insertAll _ _ _).mp member with entered | stayed
    · exact fun entry isOwn _ => ⟨file, List.mem_append_right _ entered, rfl, isOwn⟩
    · exact (all file stayed).mono (List.subset_append_left _ _)

/-! ## What sidecars bring back -/

theorem spansWellFormed_of_restoredAt? {tree : Disk.Tree} {path : String} {file : DataFile}
    (restored : Disk.restoredAt? tree path = some file) : file.SpansWellFormed := by
  rw [Disk.restoredAt?, Disk.Tree.readSidecar] at restored
  split at restored
  · contradiction
  · rename_i stored reading
    split at reading
    · contradiction
    · exact (Sidecar.spansWellFormed_of_decode reading).of_devices
        (Disk.devices_of_revived? restored)

/-- What has come in before the first request was brought back by a sidecar. -/
theorem exists_restoredAt?_of_opening {start : Registry}
    {restored : PartitionKey → List DataFile} (opening : Opening start restored)
    {key : PartitionKey} {file : DataFile} (member : file ∈ restored key) :
    ∃ tree path, Disk.restoredAt? tree path = some file := by
  cases opening with
  | empty => contradiction
  | @recovered layout disk _ outcome =>
      rw [recoveredUnder] at member
      split at member
      · contradiction
      · rcases List.mem_flatMap.mp member with ⟨space, _, member⟩
        rw [Disk.Layout.restoredIn] at member
        split at member
        · contradiction
        · rcases List.mem_filterMap.mp member with ⟨sidecar, _, restoring⟩
          exact ⟨disk, sidecar.2, restoring⟩

theorem spansWellFormed_of_opening {start : Registry} {restored : PartitionKey → List DataFile}
    (opening : Opening start restored) {key : PartitionKey} {file : DataFile}
    (member : file ∈ restored key) : file.SpansWellFormed := by
  rcases exists_restoredAt?_of_opening opening member with ⟨tree, path, restoring⟩
  exact spansWellFormed_of_restoredAt? restoring

/-! ## Reached partitions -/

/-- Every partition that requests lead to is consistent with the files that have
come in under its key.  A growing span in it ends before it starts only if a request has
handed it in so, with a file of the same number. -/
theorem reached_consistent {start : Registry} {restored : PartitionKey → List DataFile}
    (opening : Opening start restored) (requests : List Request) {key : PartitionKey}
    {partition : Partition}
    (present : (start.serveAll requests).partition? key = some partition) :
    partition.Consistent
        ((restored key ++ start.arrivals requests key).map DataFile.id) ∧
      ∀ file ∈ partition.files, ∀ device earliest lastWrite,
        file.span? device = some (.growing earliest lastWrite) → lastWrite < earliest →
          ∃ handed ∈ start.arrivals requests key, handed.id = file.id ∧
            handed.span? device = some (.growing earliest lastWrite) := by
  rw [← partition_snapshot present]
  constructor
  · exact invariant_consistent.requests (invariant_consistent.opening opening) requests key
  · intro file member device earliest lastWrite held low
    have opened := invariant_spansFrom.opening opening
    have inverted := (DeviceSpan.not_wellFormed_growing_iff earliest lastWrite).mpr low
    rcases invariant_spansFrom.requests opened requests key file member _
      ((SortedMap.get?_eq_some_iff _ _ _).mp held) inverted with ⟨handed, isHanded, same, own⟩
    refine ⟨handed, ?_, same, (SortedMap.get?_eq_some_iff _ _ _).mpr own⟩
    rcases List.mem_append.mp isHanded with isRestored | entered
    · exact absurd (spansWellFormed_of_opening opening isRestored _ own) inverted
    · exact entered

end Registry

/-! ## Two small histories

In the first a group of a sequence and an unsequence file is finished by an output that
takes over the number of the unsequence file and has the ordering key of a sequence file
that is older.  The last request fails.

In the second a file is handed in with a growing span that ends before it starts. -/

namespace Sample

def output : DataFile :=
  { file .sequence .closed 13 [("a", ⟨20, 35⟩)] with orderingKey := 3 }

def history : List Registry.Request :=
  [ .addAll key .sequence sequence, .addAll key .unsequence unsequence,
    .recordWrite key 15 "b" 7, .claim key [2, 13], .start key [2, 13],
    .finish key [2, 13] [output], .claim key [2] ]

def rewritten : Partition where
  sequence := [ file .sequence .closed 1 [("a", ⟨0, 10⟩)],
    file .sequence .closed 3 [("a", ⟨40, 50⟩)], output ]
  unsequence := [ file .unsequence .closed 11 [("a", ⟨45, 46⟩)],
    file .unsequence .closed 12 [("a", ⟨-9, -5⟩)],
    file .unsequence .closed 14 [("a", ⟨5, 8⟩), ("b", ⟨0, 1⟩)],
    (file .unsequence .unclosed 15 [("a", ⟨60, 70⟩)]).record "b" 7,
    file .unsequence .closed 16 [("a", ⟨60, 70⟩)] ]

/-- A file with a growing span that starts at 100 and was last written at 0. -/
def inverted : DataFile :=
  { file .unsequence .unclosed 15 [] with devices := .ofList _ [("a", .growing 100 0)] }

def invertedHistory : List Registry.Request :=
  [.addAll key .unsequence [inverted]]

end Sample

namespace Registry

theorem reached_consistent_sample :
    (empty.serveAll Sample.history).partition? Sample.key = some Sample.rewritten ∧
      Sample.rewritten.Consistent [1, 2, 3, 11, 12, 13, 14, 15, 16, 13] ∧
      ∀ file ∈ Sample.rewritten.files, file.SpansWellFormed := by
  have present : (empty.serveAll Sample.history).partition? Sample.key = some Sample.rewritten := by
    decide +kernel
  have log_eq : (empty.arrivals Sample.history Sample.key).map DataFile.id =
      [1, 2, 3, 11, 12, 13, 14, 15, 16, 13] := by
    decide +kernel
  have handed : ∀ file ∈ empty.arrivals Sample.history Sample.key, file.SpansWellFormed := by
    decide +kernel
  rcases reached_consistent .empty Sample.history present with ⟨consistent, inverted⟩
  rw [List.nil_append, log_eq] at consistent
  refine ⟨present, consistent, ?_⟩
  rintro file member ⟨device, span⟩ isOwn
  cases span with
  | closed _ => trivial
  | growing earliest lastWrite =>
      by_contra low
      rcases inverted file member device earliest lastWrite
        ((SortedMap.get?_eq_some_iff _ _ _).mpr isOwn)
        ((DeviceSpan.not_wellFormed_growing_iff _ _).mp low) with ⟨own, entered, _, held⟩
      exact low (handed own entered _ ((SortedMap.get?_eq_some_iff _ _ _).mp held))

/-- A growing span that ends before it starts is registered when it is handed in. -/
theorem inverted_span_is_registered :
    (empty.serveAll Sample.invertedHistory).partition? Sample.key =
        some ⟨[], [Sample.inverted]⟩ ∧
      Sample.inverted.span? "a" = some (.growing 100 0) ∧ ¬ (100 : Timestamp) ≤ 0 := by
  decide +kernel

end Registry

end SeriesStore
