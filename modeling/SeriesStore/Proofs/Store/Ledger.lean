import SeriesStore.Proofs.Disk.Mirror
import SeriesStore.Proofs.Registry.Steady

/-!
# Stores that are kept

A store is kept when every file that leaves the registry leaves the disk as well: a
deleted file is handed to the disk at once, and groups are finished together with their
sidecars.  Apart from that files may be saved whenever it suits, and claims need not be
saved at all.

A ledger is a store together with the files that are up to date on disk, those that have
been saved since they came in and since they were last written or sealed.  Two facts hold
after every turn.  No sidecar is stale: one that brings a file back stands where a
registered file of its number has its place.  And the sidecars of the files that are up to
date bring back what the registered files would.  So when all registered files are up to
date, the sidecars mirror the registry.

A file is registered as it is handed in, and a growing span may be handed in with its last
write before its start.  Only the sidecar raises it.
-/

namespace SeriesStore

open Disk Sidecar

/-- Whether all storage groups have plain names and all registered files have a sidecar that can
be read: not too many devices, and none with too long a name. -/
def Registry.Fits (registry : Registry) : Prop :=
  ∀ key ∈ registry.keys, Path.Plain key.group ∧
    ∀ file ∈ (registry.snapshot key).partition.files, Storable file

instance (file : DataFile) : Decidable (Storable file) :=
  decidable_of_iff
    ((∀ entry ∈ file.devices.entries, (Text.utf8 entry.1).length ≤ maxNameSize) ∧
      file.devices.entries.length < wordRange 4)
    ⟨fun ⟨names, few⟩ => ⟨names, few⟩, fun storable => ⟨storable.names, storable.few⟩⟩

instance (registry : Registry) : Decidable registry.Fits :=
  inferInstanceAs (Decidable (∀ key ∈ registry.keys, Path.Plain key.group ∧
    ∀ file ∈ (registry.snapshot key).partition.files, Storable file))

/-- A root that is a directory with nothing below it. -/
structure Disk.Layout.Vacant (layout : Layout) (root : Location) (tree : Tree) : Prop where
  entered : tree.enter [] (Path.steps layout.root) = .ok root
  nothing {location : Location} : location ≠ [] → tree.node? (root ++ location) = none

/-- A store, and the files whose sidecars are up to date. -/
structure Ledger where
  store : Store
  saved : List (PartitionKey × FileId)
deriving DecidableEq

/-- What is done with a kept store. -/
inductive Turn where
  | request (request : Registry.Request)
  /-- The sidecar of a registered file is written. -/
  | persist (key : PartitionKey) (id : FileId)
  /-- A file is deleted, and its sidecar is written as that of a deleted file. -/
  | delete (key : PartitionKey) (id : FileId)
  /-- A group is finished, and the sidecars of its outputs and members are written. -/
  | finish (key : PartitionKey) (ids : List FileId) (outputs : List DataFile)

namespace Ledger

variable (layout : Layout)

/-- The ledger of a store without partitions. -/
def opening (disk : Tree) : Ledger :=
  ⟨⟨.empty, disk⟩, []⟩

/-- The ledger after a turn, whether the calls succeed or fail. -/
def take (ledger : Ledger) : Turn → Ledger
  | .request request =>
      let outdated := ledger.store.registry.outdated request
      ⟨⟨ledger.store.registry.serve request, ledger.store.disk⟩,
        ledger.saved.filter fun entry => entry ∉ outdated⟩
  | .persist key id =>
      match Store.persist layout key id ledger.store with
      | .ok _ store => ⟨store, (key, id) :: ledger.saved⟩
      | .error _ store => ⟨store, ledger.saved⟩
  | .delete key id =>
      match ledger.store.registry.delete key id with
      | .ok gone registry =>
          ⟨⟨registry, leftBehind (layout.persistDeleted key gone ledger.store.disk)⟩,
            ledger.saved.filter fun entry => entry ≠ (key, id)⟩
      | .error _ registry => ⟨⟨registry, ledger.store.disk⟩, ledger.saved⟩
  | .finish key ids outputs =>
      match Store.finishAndPersist layout key ids outputs ledger.store with
      | .ok _ store =>
          ⟨store, outputs.map (fun file => (key, file.id)) ++
            ledger.saved.filter fun entry => ¬(entry.1 = key ∧ entry.2 ∈ ids)⟩
      | .error _ store => ⟨store, ledger.saved⟩

/-- Whether a call has succeeded or changed nothing. -/
def Settled {α : Type} (before : Store) : EStateM.Result Error Store α → Prop
  | .ok .. => True
  | .error _ after => after = before

instance {α : Type} (before : Store) :
    (outcome : EStateM.Result Error Store α) → Decidable (Settled before outcome)
  | .ok .. => inferInstanceAs (Decidable True)
  | .error _ after => inferInstanceAs (Decidable (after = before))

/-- Whether a turn is allowed.  Files leave by deletion and by finishing a group only, and
finishing a group succeeds or is refused altogether. -/
def Allows (ledger : Ledger) : Turn → Prop
  | .request request => request.takesOut = false
  | .persist .. | .delete .. => True
  | .finish key ids outputs =>
      Settled ledger.store (Store.finishAndPersist layout key ids outputs ledger.store)

/-- Whether each of some turns is allowed when it comes and leaves a registry that can be
saved. -/
def Admits (ledger : Ledger) : List Turn → Prop
  | [] => True
  | turn :: rest =>
      ledger.Allows layout turn ∧ (ledger.take layout turn).store.registry.Fits ∧
        (ledger.take layout turn).Admits rest

instance (ledger : Ledger) : (turn : Turn) → Decidable (ledger.Allows layout turn)
  | .request request => inferInstanceAs (Decidable (request.takesOut = false))
  | .persist .. | .delete .. => inferInstanceAs (Decidable True)
  | .finish key ids outputs =>
      inferInstanceAs
        (Decidable (Settled ledger.store
          (Store.finishAndPersist layout key ids outputs ledger.store)))

instance decidableAdmits : (ledger : Ledger) → (turns : List Turn) →
    Decidable (ledger.Admits layout turns)
  | _, [] => inferInstanceAs (Decidable True)
  | ledger, turn :: rest =>
      have := decidableAdmits (ledger.take layout turn) rest
      inferInstanceAs (Decidable (ledger.Allows layout turn ∧
        (ledger.take layout turn).store.registry.Fits ∧
        (ledger.take layout turn).Admits layout rest))

/-- The ledger after some turns. -/
def takeAll (ledger : Ledger) (turns : List Turn) : Ledger :=
  turns.foldl (take layout) ledger

/-- Whether every registered file is up to date on disk. -/
def Complete (ledger : Ledger) : Prop :=
  ∀ key ∈ ledger.store.registry.keys,
    ∀ file ∈ (ledger.store.registry.snapshot key).partition.files,
      (key, file.id) ∈ ledger.saved

instance (ledger : Ledger) : Decidable ledger.Complete :=
  inferInstanceAs (Decidable (∀ key ∈ ledger.store.registry.keys,
    ∀ file ∈ (ledger.store.registry.snapshot key).partition.files,
      (key, file.id) ∈ ledger.saved))

end Ledger

/-! ## The invariant -/

section Invariant

variable {layout : Layout} {root : Location} {tree after : Tree} {registry later : Registry}
  {saved : List (PartitionKey × FileId)} {key : PartitionKey} {id : FileId} {file : DataFile}

theorem Disk.Layout.Vacant.ne_some (vacant : layout.Vacant root tree) (location : Location)
    (name : String) (node : Node) : tree.node? (root ++ (location ++ [name])) ≠ some node := by
  intro standing
  rw [vacant.nothing (by simp)] at standing
  contradiction

/-- Below a root without anything there is nothing out of place. -/
theorem Disk.Layout.Vacant.tidy (vacant : layout.Vacant root tree) : Tidy layout root tree where
  entered := vacant.entered
  belongs := by
    intro location node ne standing
    rw [vacant.nothing ne] at standing
    contradiction
  parents := fun standing => absurd standing (vacant.ne_some _ _ _)

theorem Disk.Layout.Vacant.not_stands (vacant : layout.Vacant root tree) (key : PartitionKey)
    (file : DataFile) : ¬ Stands root tree key file := by
  intro stands
  have standing := stands.standing
  rw [sidecarPlace] at standing
  exact vacant.ne_some _ _ _ standing

/-- Whether every sidecar that brings a file back stands at the place of a registered file
with its number. -/
def NoneStale (root : Location) (tree : Tree) (registry : Registry) : Prop :=
  ∀ key file, Stands root tree key file → file.status ≠ .deleted →
    ∃ own, (registry.snapshot key).partition.find? file.id = some own ∧ own.SamePlace file

/-- Whether the sidecar of a registered file brings back what the file would. -/
def UpToDate (root : Location) (tree : Tree) (registry : Registry) (key : PartitionKey)
    (id : FileId) : Prop :=
  ∃ own stored, (registry.snapshot key).partition.find? id = some own ∧
    Stands root tree key stored ∧ own.SamePlace stored ∧ revived? stored = revived? own

/-- What every turn keeps. -/
structure Ledger.Faithful (layout : Layout) (root : Location) (ledger : Ledger) : Prop where
  tidy : Tidy layout root ledger.store.disk
  reachable : ledger.store.registry.Reachable
  fits : ledger.store.registry.Fits
  noneStale : NoneStale root ledger.store.disk ledger.store.registry
  upToDate : ∀ entry ∈ ledger.saved,
    UpToDate root ledger.store.disk ledger.store.registry entry.1 entry.2

/-! ### Requests -/

theorem NoneStale.steady (noneStale : NoneStale root tree registry)
    (steady : registry.Steady saved later) : NoneStale root tree later := by
  intro key file stands alive
  rcases noneStale key file stands alive with ⟨own, found, place⟩
  rcases steady key file.id own found with ⟨kept, keptFound, keptPlace, _⟩
  exact ⟨kept, keptFound, keptPlace.symm.trans place⟩

theorem UpToDate.steady (upToDate : UpToDate root tree registry key id)
    (steady : registry.Steady saved later) (outside : (key, id) ∉ saved) :
    UpToDate root tree later key id := by
  rcases upToDate with ⟨own, stored, found, stands, place, back⟩
  rcases steady key id own found with ⟨kept, keptFound, keptPlace, keptBack⟩
  exact ⟨kept, stored, keptFound, stands, keptPlace.symm.trans place,
    back.trans (keptBack outside).symm⟩

/-! ### Saving a file -/

theorem NoneStale.sameFiles (noneStale : NoneStale root tree registry)
    (same : SameFiles tree after) : NoneStale root after registry := by
  intro key file stands
  exact noneStale key file ((stands_of_sameFiles same key file).mp stands)

theorem UpToDate.sameFiles (upToDate : UpToDate root tree registry key id)
    (same : SameFiles tree after) : UpToDate root after registry key id := by
  rcases upToDate with ⟨own, stored, found, stands, rest⟩
  exact ⟨own, stored, found, (stands_of_sameFiles same key stored).mpr stands, rest⟩

section Wrote

variable (found : (registry.snapshot key).partition.find? file.id = some file)
  (written : Wrote root tree after key file)

include found written

theorem NoneStale.wrote (noneStale : NoneStale root tree registry) :
    NoneStale root after registry := by
  intro other another stands alive
  rcases (written other another).mp stands with ⟨rfl, rfl⟩ | ⟨_, before⟩
  · exact ⟨another, found, .refl another⟩
  · exact noneStale other another before alive

theorem upToDate_of_wrote : UpToDate root after registry key file.id :=
  ⟨file, file, found, (written key file).mpr (.inl ⟨rfl, rfl⟩), .refl file, rfl⟩

theorem UpToDate.wrote {other : PartitionKey} (upToDate : UpToDate root tree registry other id) :
    UpToDate root after registry other id := by
  rcases upToDate with ⟨own, stored, ownFound, stands, place, back⟩
  by_cases overwritten : other = key ∧ file.SamePlace stored
  · rcases overwritten with ⟨rfl, same⟩
    have id_eq : file.id = id := by
      rw [← same.id, place.id]
      exact (Partition.mem_of_find?_eq_some ownFound).2
    rw [← id_eq]
    exact upToDate_of_wrote found written
  · exact ⟨own, stored, ownFound, (written other stored).mpr (.inr ⟨overwritten, stands⟩), place,
      back⟩

end Wrote

theorem mem_keys_of_find? (found : (registry.snapshot key).partition.find? id = some file) :
    key ∈ registry.keys := by
  rw [Registry.keys, SortedMap.mem_keys_iff]
  cases present : registry.partition? key with
  | none =>
      rw [Registry.snapshot, present] at found
      contradiction
  | some partition => exact ⟨partition, present⟩

theorem Registry.Fits.of_find? (fits : registry.Fits)
    (found : (registry.snapshot key).partition.find? id = some file) :
    Path.Plain key.group ∧ Storable file := by
  rcases fits key (mem_keys_of_find? found) with ⟨plain, storable⟩
  exact ⟨plain, storable file (Partition.mem_of_find?_eq_some found).1⟩

/-! ### Deleting a file -/

/-- A file is retired on disk when no sidecar at its place brings anything back, and all
other sidecars are as they were. -/
def Retired (root : Location) (tree after : Tree) (key : PartitionKey) (gone : DataFile) :
    Prop :=
  ∀ other another,
    (other = key ∧ gone.SamePlace another → Stands root after other another →
      another.status = .deleted) ∧
    (¬(other = key ∧ gone.SamePlace another) →
      (Stands root after other another ↔ Stands root tree other another))

theorem retired_of_persistDeleted {gone : DataFile} (tidy : Tidy layout root tree)
    (plain : Path.Plain key.group) (storable : Storable gone) (deleted : gone.status = .deleted) :
    Tidy layout root (leftBehind (layout.persistDeleted key gone tree)) ∧
      Retired root tree (leftBehind (layout.persistDeleted key gone tree)) key gone := by
  rw [Layout.persistDeleted, if_pos deleted]
  rcases tidy.persist_cases plain storable with
    ⟨after, outcome, afterTidy, wrote⟩ | ⟨error, after, outcome, afterTidy, same, noFile⟩
  · rw [outcome]
    refine ⟨afterTidy, fun other another => ⟨?_, ?_⟩⟩
    · intro place stands
      rcases (wrote other another).mp stands with ⟨_, rfl⟩ | ⟨elsewhere, _⟩
      · exact deleted
      · exact absurd place elsewhere
    · intro elsewhere
      have different : ¬(other = key ∧ another = gone) := by
        rintro ⟨rfl, rfl⟩
        exact elsewhere ⟨rfl, .refl another⟩
      rw [leftBehind, wrote, or_iff_right different, and_iff_right elsewhere]
  · rw [outcome]
    refine ⟨afterTidy, fun other another => ⟨?_, fun _ => stands_of_sameFiles same _ _⟩⟩
    rintro ⟨rfl, place⟩ stands
    have standing := ((stands_of_sameFiles same _ _).mp stands).standing
    rw [sidecarPlace_eq_iff.mpr ⟨rfl, place.symm⟩] at standing
    exact absurd standing (noFile _)

section Deleted

variable {gone : DataFile}
  (deletion : Partition.Deleted (registry.snapshot key).partition (later.snapshot key).partition id
    gone)
  (others : ∀ other, other ≠ key → later.snapshot other = registry.snapshot other)
  (retired : Retired root tree after key gone)

include deletion others retired

theorem NoneStale.deleted (noneStale : NoneStale root tree registry) :
    NoneStale root after later := by
  intro other another stands alive
  have elsewhere : ¬(other = key ∧ gone.SamePlace another) :=
    fun place => alive ((retired other another).1 place stands)
  rcases noneStale other another (((retired other another).2 elsewhere).mp stands) alive with
    ⟨own, found, place⟩
  by_cases same : other = key
  · subst same
    refine ⟨own, ?_, place⟩
    rw [deletion.others, found]
    intro id_eq
    -- The deleted file would have its place here, where nothing comes back any more.
    rcases deletion.own with ⟨file, ownFound, rfl⟩
    rw [id_eq, ownFound] at found
    cases found
    exact elsewhere ⟨rfl, place.space, place.name⟩
  · rw [others other same]
    exact ⟨own, found, place⟩

theorem UpToDate.deleted {other : PartitionKey} {asked : FileId}
    (upToDate : UpToDate root tree registry other asked) (ne : (other, asked) ≠ (key, id)) :
    UpToDate root after later other asked := by
  rcases upToDate with ⟨own, stored, found, stands, place, back⟩
  have own_id := (Partition.mem_of_find?_eq_some found).2
  have differs (same : other = key) : asked ≠ id := by
    rintro rfl
    exact ne (by rw [same])
  have elsewhere : ¬(other = key ∧ gone.SamePlace stored) := by
    rintro ⟨same, atPlace⟩
    rcases deletion.own with ⟨file, ownFound, rfl⟩
    apply differs same
    rw [← own_id, ← place.id, atPlace.id]
    exact (Partition.mem_of_find?_eq_some ownFound).2
  refine ⟨own, stored, ?_, ((retired other stored).2 elsewhere).mpr stands, place, back⟩
  by_cases same : other = key
  · subst same
    rw [deletion.others asked (differs rfl), found]
  · rw [others other same, found]

end Deleted

/-! ### Finishing a group -/

section Finished

variable {ids : List FileId} {outputs removed : List DataFile}
  (finishing : Partition.Finished (registry.snapshot key).partition
    (later.snapshot key).partition ids outputs removed)
  (written : WroteAll root tree after key (layout.finishedSidecars key outputs removed))

include finishing written

theorem upToDate_of_finished (distinct : (later.snapshot key).partition.Distinct)
    (member : file ∈ outputs) :
    UpToDate root after later key file.id := by
  refine ⟨file, file, ?_, ?_, .refl file, rfl⟩
  · exact (distinct.find?_eq_some_iff _ _).mpr ⟨finishing.registered file member, rfl⟩
  · exact (written key file).mpr (.inl ⟨rfl, List.mem_append_left _ member⟩)

variable (others : ∀ other, other ≠ key → later.snapshot other = registry.snapshot other)

include others

theorem NoneStale.finished (noneStale : NoneStale root tree registry)
    (distinct : (later.snapshot key).partition.Distinct) (plain : Path.Plain key.group) :
    NoneStale root after later := by
  intro other another stands alive
  rcases (written other another).mp stands with ⟨rfl, isWritten⟩ | ⟨elsewhere, before⟩
  · rcases mem_finishedSidecars isWritten with isOutput | isMember
    · exact ⟨another, (distinct.find?_eq_some_iff _ _).mpr
        ⟨finishing.registered another isOutput, rfl⟩, .refl another⟩
    · rcases finishing.members another isMember with ⟨own, _, rfl⟩
      contradiction
  · rcases noneStale other another before alive with ⟨own, found, place⟩
    by_cases same : other = key
    · subst same
      -- The places of the members have been written over, so a sidecar that is left is not
      -- that of a member.
      have notMember : another.id ∉ ids := by
        intro isMember
        rw [← finishing.ids_eq] at isMember
        rcases List.mem_map.mp isMember with ⟨gone, goneMember, id_eq⟩
        rcases finishing.members gone goneMember with ⟨file, fileFound, rfl⟩
        rw [id_eq, found] at fileFound
        cases fileFound
        rcases exists_samePlace_finishedSidecars plain goneMember with ⟨sidecar, isWritten, at_⟩
        exact elsewhere ⟨rfl, sidecar, isWritten, at_.trans ⟨place.space, place.name⟩⟩
      refine ⟨own, ?_, place⟩
      rw [finishing.others _ notMember (finishing.free _ _ notMember found), found]
    · rw [others other same]
      exact ⟨own, found, place⟩

theorem UpToDate.finished {other : PartitionKey} {asked : FileId}
    (upToDate : UpToDate root tree registry other asked) (outside : ¬(other = key ∧ asked ∈ ids)) :
    UpToDate root after later other asked := by
  rcases upToDate with ⟨own, stored, found, stands, place, back⟩
  have stored_id : stored.id = asked :=
    place.id.trans (Partition.mem_of_find?_eq_some found).2
  -- Only members and outputs are written, and a registered file that is no member has the
  -- number of neither.
  have elsewhere : ¬(other = key ∧
      ∃ sidecar ∈ layout.finishedSidecars key outputs removed, sidecar.SamePlace stored) := by
    rintro ⟨rfl, sidecar, isWritten, at_⟩
    have notMember : asked ∉ ids := fun isMember => outside ⟨rfl, isMember⟩
    rw [at_.id] at stored_id
    rcases mem_finishedSidecars isWritten with isOutput | isMember
    · apply finishing.free asked own notMember found
      rw [← stored_id]
      exact List.mem_map_of_mem isOutput
    · apply notMember
      rw [← stored_id, ← finishing.ids_eq]
      exact List.mem_map_of_mem isMember
  refine ⟨own, stored, ?_, (written other stored).mpr (.inr ⟨elsewhere, stands⟩), place, back⟩
  by_cases same : other = key
  · subst same
    have notMember : asked ∉ ids := fun isMember => outside ⟨rfl, isMember⟩
    rw [finishing.others asked notMember (finishing.free asked own notMember found), found]
  · rw [others other same, found]

end Finished

/-! ## Turns -/

namespace Ledger

theorem faithful_opening (vacant : layout.Vacant root tree) :
    (opening tree).Faithful layout root := by
  constructor
  case tidy => exact vacant.tidy
  case reachable => exact .empty
  case fits =>
    intro key member
    contradiction
  case noneStale =>
    intro key file stands
    exact absurd stands (vacant.not_stands key file)
  case upToDate => simp [opening]

variable {ledger : Ledger}

theorem Faithful.persist (faithful : ledger.Faithful layout root) (key : PartitionKey)
    (id : FileId) : (ledger.take layout (.persist key id)).Faithful layout root := by
  rw [Ledger.take, Store.persist]
  cases outcome : ledger.store.registry.file key id with
  | error error => exact faithful
  | ok file =>
      have found := (Registry.file_eq_ok_iff _ _ _ _).mp outcome
      have id_eq := (Partition.mem_of_find?_eq_some found).2
      subst id_eq
      rcases faithful.fits.of_find? found with ⟨plain, storable⟩
      rcases faithful.tidy.persist_cases plain storable with
        ⟨after, succeeded, afterTidy, written⟩ | ⟨error, after, failed, afterTidy, same, _⟩
      · dsimp only
        rw [Store.onDisk, succeeded]
        constructor
        case tidy => exact afterTidy
        case reachable => exact faithful.reachable
        case fits => exact faithful.fits
        case noneStale => exact faithful.noneStale.wrote found written
        case upToDate =>
          rw [List.forall_mem_cons]
          exact ⟨upToDate_of_wrote found written,
            fun entry member => (faithful.upToDate entry member).wrote found written⟩
      · dsimp only
        rw [Store.onDisk, failed]
        constructor
        case tidy => exact afterTidy
        case reachable => exact faithful.reachable
        case fits => exact faithful.fits
        case noneStale => exact faithful.noneStale.sameFiles same
        case upToDate => exact fun entry member => (faithful.upToDate entry member).sameFiles same

theorem Faithful.delete (faithful : ledger.Faithful layout root) {key : PartitionKey}
    {id : FileId} (fits : (ledger.take layout (.delete key id)).store.registry.Fits) :
    (ledger.take layout (.delete key id)).Faithful layout root := by
  have reachable := faithful.reachable.served (.delete key id)
  have atomic := Registry.atomic_within key (Partition.atomic_delete id) ledger.store.registry
  rw [Registry.serve, Registry.delete] at reachable
  rw [Ledger.take, Registry.delete] at fits ⊢
  cases outcome : Registry.within key (Partition.delete id) ledger.store.registry with
  | error error registry =>
      rw [atomic error registry outcome]
      exact faithful
  | ok gone registry =>
      rw [outcome] at reachable fits
      rcases Registry.of_within_eq_ok outcome with ⟨_, deleting, others⟩
      have deletion := Partition.deleted_of_delete deleting
      rcases deletion.own with ⟨own, found, gone_eq⟩
      rcases faithful.fits.of_find? found with ⟨plain, storable⟩
      have goneStorable : Storable gone := by
        rw [gone_eq]
        exact ⟨storable.names, storable.few⟩
      have deleted : gone.status = .deleted := by rw [gone_eq]
      rcases retired_of_persistDeleted faithful.tidy plain goneStorable deleted with
        ⟨afterTidy, retired⟩
      constructor
      case tidy => exact afterTidy
      case reachable => exact reachable
      case fits => exact fits
      case noneStale => exact faithful.noneStale.deleted deletion others retired
      case upToDate =>
        intro entry member
        rcases List.mem_filter.mp member with ⟨before, ne⟩
        exact (faithful.upToDate entry before).deleted deletion others retired
          (of_decide_eq_true ne)

theorem Faithful.finish (faithful : ledger.Faithful layout root) {key : PartitionKey}
    {ids : List FileId} {outputs : List DataFile}
    (allowed : ledger.Allows layout (.finish key ids outputs))
    (fits : (ledger.take layout (.finish key ids outputs)).store.registry.Fits) :
    (ledger.take layout (.finish key ids outputs)).Faithful layout root := by
  have reachable := faithful.reachable.served (.finish key ids outputs)
  rw [Registry.serve] at reachable
  rw [Allows] at allowed
  rw [Ledger.take] at fits ⊢
  cases outcome : Store.finishAndPersist layout key ids outputs ledger.store with
  | error error store =>
      rw [outcome, Settled] at allowed
      rw [allowed]
      exact faithful
  | ok removed store =>
      rw [outcome] at fits
      rw [Store.finishAndPersist_eq] at outcome
      split at outcome
      · contradiction
      rename_i gone registry concluded
      split at outcome
      · contradiction
      rename_i disk saving
      cases outcome
      rw [concluded] at reachable
      rcases Registry.of_within_eq_ok concluded with ⟨registered, concluding, others⟩
      rcases faithful.reachable.consistent key with ⟨_, consistentBefore⟩
      rcases reachable.consistent key with ⟨_, consistent⟩
      have finishing := Partition.finished_of_finish consistentBefore.distinct concluding
      rcases fits key registered with ⟨plain, storable⟩
      have sidecarsStorable :
          ∀ file ∈ layout.finishedSidecars key outputs removed, Storable file := by
        intro file isSidecar
        rcases mem_finishedSidecars isSidecar with isOutput | isMember
        · exact storable file (finishing.registered file isOutput)
        · rcases finishing.members file isMember with ⟨own, found, rfl⟩
          have ownStorable := (faithful.fits.of_find? found).2
          exact ⟨ownStorable.names, ownStorable.few⟩
      have apart : (layout.finishedSidecars key outputs removed).Pairwise fun first second =>
          ¬ first.SamePlace second := by
        apply pairwise_finishedSidecars finishing.outputs_nodup
        rw [finishing.ids_eq]
        exact finishing.ids_nodup
      rcases faithful.tidy.persistAll_ok plain sidecarsStorable apart saving with
        ⟨afterTidy, written⟩
      constructor
      case tidy => exact afterTidy
      case reachable => exact reachable
      case fits => exact fits
      case noneStale =>
        exact faithful.noneStale.finished finishing written others consistent.distinct plain
      case upToDate =>
        intro entry member
        rcases List.mem_append.mp member with isOutput | isBefore
        · rcases List.mem_map.mp isOutput with ⟨file, fileMember, rfl⟩
          exact upToDate_of_finished finishing written consistent.distinct fileMember
        · rcases List.mem_filter.mp isBefore with ⟨before, outside⟩
          exact (faithful.upToDate entry before).finished finishing written others
            (of_decide_eq_true outside)

/-- Every turn that is allowed keeps the sidecars faithful. -/
theorem Faithful.take (faithful : ledger.Faithful layout root) {turn : Turn}
    (allowed : ledger.Allows layout turn) (fits : (ledger.take layout turn).store.registry.Fits) :
    (ledger.take layout turn).Faithful layout root := by
  cases turn with
  | request request =>
      have steady := ledger.store.registry.steady_serve allowed
      constructor
      case tidy => exact faithful.tidy
      case reachable => exact faithful.reachable.served request
      case fits => exact fits
      case noneStale => exact faithful.noneStale.steady steady
      case upToDate =>
        intro entry member
        rcases List.mem_filter.mp member with ⟨before, outside⟩
        exact (faithful.upToDate entry before).steady steady (of_decide_eq_true outside)
  | persist key id => exact faithful.persist key id
  | delete key id => exact faithful.delete fits
  | finish key ids outputs => exact faithful.finish allowed fits

theorem Faithful.takeAll (faithful : ledger.Faithful layout root) {turns : List Turn}
    (admitted : ledger.Admits layout turns) :
    (ledger.takeAll layout turns).Faithful layout root := by
  induction turns generalizing ledger with
  | nil => exact faithful
  | cons turn rest ih =>
      rcases admitted with ⟨allowed, fits, others⟩
      exact ih (faithful.take allowed fits) others

/-- In a complete ledger every registered file has a sidecar that brings it back. -/
theorem Faithful.exists_stands (faithful : ledger.Faithful layout root)
    (complete : ledger.Complete)
    (member : file ∈ (ledger.store.registry.snapshot key).partition.files) :
    ∃ stored, Stands root ledger.store.disk key stored ∧ file.SamePlace stored ∧
      comesBack? stored = comesBack? file := by
  rcases faithful.reachable.consistent key with ⟨_, consistent⟩
  have found := (Partition.Distinct.find?_eq_some_iff consistent.distinct file.id file).mpr
    ⟨member, rfl⟩
  rcases faithful.upToDate _ (complete key (mem_keys_of_find? found) file member) with
    ⟨own, stored, ownFound, stands, place, back⟩
  have same : own = file := Option.some.inj (ownFound.symm.trans found)
  rw [same] at place back
  exact ⟨stored, stands, place, comesBack?_congr back⟩

/-- When every registered file is up to date, the sidecars mirror the registry. -/
theorem Faithful.mirrors (faithful : ledger.Faithful layout root) (complete : ledger.Complete) :
    Mirrors root ledger.store.disk ledger.store.registry := by
  intro key kept
  constructor
  · rintro ⟨stored, stands, back⟩
    rcases faithful.noneStale key stored stands (comesBack?_eq_some back) with
      ⟨own, found, place⟩
    have member := (Partition.mem_of_find?_eq_some found).1
    rcases faithful.exists_stands complete member with
      ⟨current, currentStands, currentPlace, currentBack⟩
    -- A place has one sidecar, so the one that stands is the one that is up to date.
    have same := currentStands.unique stands (currentPlace.symm.trans place)
    rw [same, back] at currentBack
    exact ⟨own, member, currentBack.symm⟩
  · rintro ⟨file, member, back⟩
    rcases faithful.exists_stands complete member with ⟨stored, stands, _, same⟩
    exact ⟨stored, stands, same.trans back⟩

/-- In a store that is kept, recovery succeeds whenever every registered file is up to date
on disk.  It brings back the registered files and no others, each list by ordering key and
number, with claims dropped and deleted files left out.  The last write of a growing span comes
back raised to the start if it lies before it. -/
theorem sidecars_mirror_registry {disk : Tree} {turns : List Turn} (roomy : layout.Roomy)
    (vacant : layout.Vacant root disk) (admitted : (opening disk).Admits layout turns)
    (reached : (opening disk).takeAll layout turns = ledger) (complete : ledger.Complete) :
    ∃ recovered, layout.recover ledger.store.disk = .ok recovered ∧
      ∀ key, (recovered.snapshot key).partition =
        restoredPartition (ledger.store.registry.snapshot key).partition := by
  have faithful := (faithful_opening vacant).takeAll admitted
  rw [reached] at faithful
  exact (faithful.mirrors complete).recover_eq_ok faithful.reachable faithful.tidy roomy

end Ledger

end Invariant

/-! ## A small store

Two files come in.  One is deleted, and the other is saved and merged into an output, which
is claimed in the end.

Another store has a single file, which is handed in with a growing span from 100 and a last
write at 0. -/

namespace Sample

open Disk

/-- What a change returns that succeeds. -/
def returned? {ε σ α : Type} : EStateM.Result ε σ α → Option α
  | .ok value _ => some value
  | .error _ _ => none

theorem eq_ok_of_returned? {ε σ α : Type} {outcome : EStateM.Result ε σ α} {value : α}
    (returned : returned? outcome = some value) : outcome = .ok value (leftBehind outcome) := by
  cases outcome with
  | ok other left =>
      cases returned
      rfl
  | error error left => contradiction

/-- A disk with a directory for the root and nothing else. -/
def blank : Tree :=
  Tree.empty.put ["store"] .directory

def turns : List Turn :=
  [ .request (.addAll key .sequence
      [file .sequence .closed 2 [("a", ⟨1, 2⟩)], file .sequence .closed 3 [("a", ⟨3, 4⟩)]]),
    .delete key 2, .persist key 3, .request (.claim key [3]), .request (.start key [3]),
    .finish key [3] [file .sequence .closed 4 [("a", ⟨3, 4⟩)]], .request (.claim key [4]) ]

/-- The ledger in the end. -/
def kept : Ledger :=
  (Ledger.opening blank).takeAll layout turns

theorem roomy_layout : layout.Roomy := by
  constructor <;> decide

theorem vacant_blank : layout.Vacant ["store"] blank := by
  constructor
  case entered => decide +kernel
  case nothing =>
    intro location ne
    have differ : ["store"] ++ location ≠ ["store"] := by simpa using ne
    rw [blank, Tree.node?_put_of_ne _ differ]
    rfl

theorem run_kept :
    (Ledger.opening blank).Admits layout turns ∧ kept.Complete ∧
      (kept.store.registry.snapshot key).partition =
        ⟨[file .sequence .candidate 4 [("a", ⟨3, 4⟩)]], []⟩ := by
  decide +kernel

theorem restoredPartition_kept :
    restoredPartition ⟨[file .sequence .candidate 4 [("a", ⟨3, 4⟩)]], []⟩ =
      ⟨[file .sequence .closed 4 [("a", ⟨3, 4⟩)]], []⟩ := by
  have claimed : restoredFiles [file .sequence .candidate 4 [("a", ⟨3, 4⟩)]] =
      [file .sequence .closed 4 [("a", ⟨3, 4⟩)]] :=
    List.mergeSort_singleton _
  have nothing : restoredFiles [] = [] := List.mergeSort_nil
  rw [restoredPartition, claimed, nothing]

def invertedTurns : List Turn :=
  [.request (.addAll key .unsequence [inverted]), .persist key 15]

/-- The ledger when the file has been saved. -/
def invertedKept : Ledger :=
  (Ledger.opening blank).takeAll layout invertedTurns

theorem run_invertedKept :
    (Ledger.opening blank).Admits layout invertedTurns ∧ invertedKept.Complete ∧
      (invertedKept.store.registry.snapshot key).partition = ⟨[], [inverted]⟩ := by
  decide +kernel

theorem restoredPartition_inverted :
    restoredPartition ⟨[], [inverted]⟩ = ⟨[], [inverted.raised]⟩ := by
  have back : restoredFiles [inverted] = [inverted.raised] := List.mergeSort_singleton _
  have nothing : restoredFiles [] = [] := List.mergeSort_nil
  rw [restoredPartition, back, nothing]

end Sample

namespace Ledger

theorem sidecars_mirror_registry_sample :
    (opening Sample.blank).Admits Sample.layout Sample.turns ∧ Sample.kept.Complete ∧
      ∃ recovered, Sample.layout.recover Sample.kept.store.disk = .ok recovered ∧
        (recovered.snapshot Sample.key).partition =
          ⟨[Sample.file .sequence .closed 4 [("a", ⟨3, 4⟩)]], []⟩ := by
  rcases Sample.run_kept with ⟨admitted, complete, partition_eq⟩
  have reached : (opening Sample.blank).takeAll Sample.layout Sample.turns = Sample.kept := rfl
  rcases sidecars_mirror_registry Sample.roomy_layout Sample.vacant_blank admitted reached
    complete with ⟨recovered, outcome, partitions⟩
  refine ⟨admitted, complete, recovered, outcome, ?_⟩
  rw [partitions, partition_eq]
  exact Sample.restoredPartition_kept

/-- A growing span that was last written before its start does not come back as it was. -/
theorem inverted_span_comes_back_raised :
    (opening Sample.blank).Admits Sample.layout Sample.invertedTurns ∧
      Sample.invertedKept.Complete ∧
      (Sample.invertedKept.store.registry.snapshot Sample.key).partition =
        ⟨[], [Sample.inverted]⟩ ∧
      Sample.inverted.span? "a" = some (.growing 100 0) ∧
      ∃ recovered, Sample.layout.recover Sample.invertedKept.store.disk = .ok recovered ∧
        (recovered.snapshot Sample.key).partition = ⟨[], [Sample.inverted.raised]⟩ ∧
        Sample.inverted.raised.span? "a" = some (.growing 100 100) := by
  rcases Sample.run_invertedKept with ⟨admitted, complete, partition_eq⟩
  have faithful : Sample.invertedKept.Faithful Sample.layout ["store"] :=
    (faithful_opening Sample.vacant_blank).takeAll admitted
  rcases (faithful.mirrors complete).recover_eq_ok faithful.reachable faithful.tidy
    Sample.roomy_layout with ⟨recovered, outcome, partitions⟩
  have back := partitions Sample.key
  rw [partition_eq, Sample.restoredPartition_inverted] at back
  exact ⟨admitted, complete, partition_eq, by decide +kernel, recovered, outcome, back,
    by decide +kernel⟩

end Ledger

end SeriesStore
