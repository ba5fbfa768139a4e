import SeriesStore.Proofs.Disk.Clash
import SeriesStore.Proofs.Disk.Refusal

/-!
# Sidecars that are written over

What recovery brings back depends on which sidecars bring back which files and on nothing
else in the tree: not on the order in which a directory gives its entries, since files of
one number do not come back twice, and not on sidecars that bring nothing back.  So a file
that came back from the path of its own sidecar may be written there again.

A sidecar may also stand under a name of other keys or levels, or one that is spelled in
another way.  Writing the file then puts a second sidecar beside the first.
-/

namespace SeriesStore.Disk

open SeriesStore.Disk.Path (Plain)

namespace Layout

variable {layout : Layout} {root : Location} {tree after : Tree} {key : PartitionKey}
  {space : Space} {registry recovered : Registry} {file kept : DataFile} {id : FileId}

/-- A tree from which a partition is recovered has a directory for the root. -/
theorem exists_rooted (wellFormed : tree.WellFormed) {keys : List PartitionKey}
    (listed : layout.listPartitions tree = .ok keys) (member : key ∈ keys) :
    ∃ root, Rooted layout root tree := by
  rcases (mem_listPartitions listed key).mp member with ⟨space, _, ⟨location, reached, _⟩, _⟩
  have entered := ((Tree.directoryAt_eq_ok_iff _ _ _).mp reached).2
  rw [steps_spaceDirectory, Tree.enter_append] at entered
  split at entered
  · contradiction
  · rename_i root found
    exact ⟨root, wellFormed, found⟩

theorem partition?_of_not_mem_keys (outside : key ∉ registry.keys) :
    registry.partition? key = none :=
  (SortedMap.get?_eq_none_iff _ _).mpr outside

/-- Recovery registers the partitions that it has listed, and each of them is recoverable. -/
theorem recoverable_of_keys (recovers : layout.recover tree = .ok registry) :
    layout.listPartitions tree = .ok registry.keys ∧
      ∀ key ∈ registry.keys, layout.Recoverable tree key := by
  rcases recoverable_of_recover recovers with ⟨keys, listed, recoverable⟩
  rw [(described_of_recover listed recovers).1]
  exact ⟨listed, recoverable⟩

/-- A registered partition holds what the sidecars of its key bring back. -/
theorem snapshot_of_recover (recovers : layout.recover tree = .ok registry)
    (registered : key ∈ registry.keys) :
    (registry.snapshot key).partition = Partition.empty.insertAll (layout.restored tree key) := by
  rcases (described_of_recover (recoverable_of_keys recovers).1 recovers).2 key registered with
    ⟨partition, present, _, _, partition_eq⟩
  rw [Registry.partition_snapshot present, partition_eq]

/-! ## What the sidecars of a partition bring back -/

/-- Whether a sidecar in the directory of a partition brings back a file. -/
def Brings (layout : Layout) (tree : Tree) (space : Space) (key : PartitionKey)
    (sidecar : FileName × String) (kept : DataFile) : Prop :=
  (∃ name bytes, layout.HasSidecar tree space key sidecar name bytes) ∧
    restoredAt? tree sidecar.2 = some kept

theorem mem_restored_iff (inPlace : ∀ space, layout.AllInPlace tree key space) :
    kept ∈ layout.restored tree key ↔ ∃ sidecar, layout.Brings tree kept.space key sidecar kept := by
  have back (space : Space) := mem_restoredIn_iff (inPlace space).exists_listed kept
  rw [restored, List.mem_flatMap]
  constructor
  · rintro ⟨space, _, member⟩
    rcases (back space).mp member with ⟨sidecar, name, bytes, has, brought⟩
    rw [space_of_mem_restoredIn (inPlace space) member]
    exact ⟨sidecar, ⟨name, bytes, has⟩, brought⟩
  · rintro ⟨sidecar, ⟨name, bytes, has⟩, brought⟩
    exact ⟨kept.space, by cases kept.space <;> decide,
      (back kept.space).mpr ⟨sidecar, name, bytes, has, brought⟩⟩

/-- A file that recovery registers has come back from a sidecar in the directory of its space. -/
theorem exists_brings_of_recover (recovers : layout.recover tree = .ok registry)
    (found : (registry.snapshot key).partition.find? id = some file) :
    key ∈ registry.keys ∧ ∃ sidecar, layout.Brings tree file.space key sidecar file := by
  have member := (Partition.mem_of_find?_eq_some found).1
  have registered : key ∈ registry.keys := by
    by_contra outside
    rw [Registry.snapshot, partition?_of_not_mem_keys outside] at member
    contradiction
  refine ⟨registered, ?_⟩
  rw [snapshot_of_recover recovers registered, Partition.mem_files_insertAll] at member
  have recoverable := (recoverable_of_keys recovers).2 key registered
  rcases member with isRestored | isEmpty
  · exact (mem_restored_iff recoverable.inPlace).mp isRestored
  · contradiction

/-- Whether the sidecars of a partition bring back the same files in two trees. -/
def SameBack (layout : Layout) (tree after : Tree) (key : PartitionKey) : Prop :=
  ∀ space sidecar kept,
    layout.Brings after space key sidecar kept ↔ layout.Brings tree space key sidecar kept

/-- Where the same sidecars stand, the same comes back. -/
theorem sameBack_of_sameSidecars (wellFormed : tree.WellFormed) (afterWellFormed : after.WellFormed)
    (same : ∀ space sidecar name bytes, layout.HasSidecar after space key sidecar name bytes ↔
      layout.HasSidecar tree space key sidecar name bytes) : layout.SameBack tree after key := by
  intro space sidecar kept
  constructor
  · rintro ⟨⟨name, bytes, has⟩, back⟩
    have stood := (same space sidecar name bytes).mp has
    rw [has.restoredAt?_eq_some_iff afterWellFormed,
      ← stood.restoredAt?_eq_some_iff wellFormed] at back
    exact ⟨⟨name, bytes, stood⟩, back⟩
  · rintro ⟨⟨name, bytes, stood⟩, back⟩
    have has := (same space sidecar name bytes).mpr stood
    rw [stood.restoredAt?_eq_some_iff wellFormed,
      ← has.restoredAt?_eq_some_iff afterWellFormed] at back
    exact ⟨⟨name, bytes, has⟩, back⟩

/-- The listed sidecars that bring a file back, with that file. -/
def bringing (tree : Tree) (sidecars : List (FileName × String)) :
    List ((FileName × String) × DataFile) :=
  sidecars.filterMap fun sidecar => (restoredAt? tree sidecar.2).map fun kept => (sidecar, kept)

theorem map_snd_bringing (tree : Tree) (sidecars : List (FileName × String)) :
    (bringing tree sidecars).map Prod.snd =
      sidecars.filterMap fun sidecar => restoredAt? tree sidecar.2 := by
  rw [bringing, List.map_filterMap]
  apply List.filterMap_congr
  intro sidecar _
  rw [Option.map_map]
  exact Option.map_id'

theorem mem_bringing (tree : Tree) (sidecars : List (FileName × String))
    (sidecar : FileName × String) (kept : DataFile) :
    (sidecar, kept) ∈ bringing tree sidecars ↔
      sidecar ∈ sidecars ∧ restoredAt? tree sidecar.2 = some kept := by
  rw [bringing, List.mem_filterMap]
  constructor
  · rintro ⟨own, listed, brought⟩
    rcases Option.map_eq_some_iff.mp brought with ⟨file, back, same⟩
    cases same
    exact ⟨listed, back⟩
  · rintro ⟨listed, back⟩
    exact ⟨sidecar, listed, by rw [back]; rfl⟩

theorem nodup_bringing {sidecars : List (FileName × String)} (nodup : sidecars.Nodup) :
    (bringing tree sidecars).Nodup := by
  apply nodup.filterMap
  intro first second pair isFirst isSecond
  rcases Option.map_eq_some_iff.mp isFirst with ⟨_, _, rfl⟩
  rcases Option.map_eq_some_iff.mp isSecond with ⟨_, _, same⟩
  exact (congrArg Prod.fst same).symm

theorem sorted_bringing {sidecars : List (FileName × String)}
    (listed : layout.listSidecars tree space key = .ok sidecars) :
    (bringing tree sidecars).Pairwise fun first second => listedFirst first.1 second.1 := by
  rw [bringing, List.pairwise_filterMap]
  apply (sorted_listSidecars listed).imp
  intro first second before firstPair isFirst secondPair isSecond
  rcases Option.map_eq_some_iff.mp isFirst with ⟨_, _, rfl⟩
  rcases Option.map_eq_some_iff.mp isSecond with ⟨_, _, rfl⟩
  exact before

theorem id_eq_of_listedFirst {first second : FileName × String}
    (before : listedFirst first second) (behind : listedFirst second first) :
    first.1.id = second.1.id := by
  simp only [listedFirst, Bool.or_eq_true, Bool.and_eq_true, decide_eq_true_eq, beq_iff_eq,
    UInt64.lt_iff_toNat_lt, UInt64.le_iff_toNat_le, ← UInt64.toNat_inj] at before behind ⊢
  omega

section Same

variable (wellFormed : tree.WellFormed) (afterWellFormed : after.WellFormed)
  (same : layout.SameBack tree after key)

include wellFormed afterWellFormed same

/-- The same files come back from a space in the same order.  A directory may give sidecars of
one key and number in any order, but only one of them brings a file back. -/
theorem restoredIn_eq_of_sameBack (recoverable : layout.Recoverable tree key)
    (afterInPlace : layout.AllInPlace after key space) :
    layout.restoredIn after key space = layout.restoredIn tree key space := by
  rcases recoverable.inPlace space with ⟨sidecars, listed, inPlace⟩
  rcases afterInPlace with ⟨others, afterListed, _⟩
  have perm : (bringing after others).Perm (bringing tree sidecars) := by
    rw [List.perm_ext_iff_of_nodup
      (nodup_bringing (nodup_listSidecars_of_wellFormed afterWellFormed afterListed))
      (nodup_bringing (nodup_listSidecars_of_wellFormed wellFormed listed))]
    rintro ⟨sidecar, kept⟩
    rw [mem_bringing, mem_bringing, mem_listSidecars listed, mem_listSidecars afterListed]
    exact same space sidecar kept
  have distinct : ((bringing tree sidecars).map fun pair => pair.2.id).Nodup := by
    have ids := recoverable.distinct
    rw [restored_eq_append, List.map_append, List.nodup_append] at ids
    have own : ((layout.restoredIn tree key space).map DataFile.id).Nodup := by
      cases space
      · exact ids.1
      · exact ids.2.1
    rwa [restoredIn_eq listed, ← map_snd_bringing, List.map_map] at own
  have idOf : ∀ pair ∈ bringing tree sidecars, pair.2.id = pair.1.1.id := by
    rintro ⟨sidecar, kept⟩ member
    rcases (mem_bringing _ _ _ _).mp member with ⟨isListed, back⟩
    rcases inPlace sidecar isListed with ⟨stored, reading, _, sameId⟩
    rw [restoredAt?, reading] at back
    exact (samePlace_of_revived? back).id.trans sameId
  have pairs : bringing after others = bringing tree sidecars := by
    apply perm.eq_of_pairwise _ (sorted_bringing afterListed) (sorted_bringing listed)
    intro first second isFirst isSecond before behind
    rw [perm.mem_iff] at isFirst
    apply List.inj_on_of_nodup_map distinct isFirst isSecond
    rw [idOf first isFirst, idOf second isSecond, id_eq_of_listedFirst before behind]
  rw [restoredIn_eq listed, restoredIn_eq afterListed, ← map_snd_bringing, ← map_snd_bringing,
    pairs]

theorem restored_eq_of_sameBack (recoverable : layout.Recoverable tree key)
    (afterInPlace : ∀ space, layout.AllInPlace after key space) :
    layout.restored after key = layout.restored tree key := by
  rw [restored_eq_append, restored_eq_append,
    restoredIn_eq_of_sameBack wellFormed afterWellFormed same recoverable (afterInPlace _),
    restoredIn_eq_of_sameBack wellFormed afterWellFormed same recoverable (afterInPlace _)]

end Same

/-- Trees whose sidecars bring back the same are recovered to the same registry. -/
theorem eq_of_recover_of_sameBack (wellFormed : tree.WellFormed)
    (afterWellFormed : after.WellFormed) (recovers : layout.recover tree = .ok registry)
    (again : layout.recover after = .ok recovered)
    (sameKeys : ∀ key, key ∈ recovered.keys ↔ key ∈ registry.keys)
    (same : ∀ key ∈ registry.keys, layout.SameBack tree after key) : recovered = registry := by
  rcases recoverable_of_keys recovers with ⟨listed, recoverable⟩
  rcases recoverable_of_keys again with ⟨afterListed, afterRecoverable⟩
  apply Registry.ext_partition?
  intro key
  by_cases member : key ∈ registry.keys
  · have afterMember := (sameKeys key).mpr member
    rcases (described_of_recover listed recovers).2 key member with
      ⟨partition, present, _, _, partition_eq⟩
    rcases (described_of_recover afterListed again).2 key afterMember with
      ⟨later, laterPresent, _, _, later_eq⟩
    rw [present, laterPresent, partition_eq, later_eq,
      restored_eq_of_sameBack wellFormed afterWellFormed (same key member)
        (recoverable key member) (afterRecoverable key afterMember).inPlace]
  · have outside : key ∉ recovered.keys := fun afterMember => member ((sameKeys key).mp afterMember)
    rw [partition?_of_not_mem_keys member, partition?_of_not_mem_keys outside]

/-! ## Writing what came back -/

/-- What has come back is no longer claimed and comes back as it is. -/
theorem revived?_of_revived? {stored : DataFile} (back : revived? stored = some kept) :
    revived? kept = some kept := by
  rcases revived?_eq_some_iff.mp back with ⟨alive, rfl⟩
  rcases stored with ⟨id, space, status, orderingKey, size, innerLevel, crossLevel, devices⟩
  cases status <;> first | contradiction | rfl

/-- A file that comes back has been read from a sidecar, so it can be written to one, and it comes
back from there as it is. -/
theorem Brings.storable (wellFormed : tree.WellFormed) {sidecar : FileName × String}
    (brings : layout.Brings tree space key sidecar kept) :
    Sidecar.Storable kept ∧ comesBack? kept = some kept := by
  rcases brings with ⟨⟨name, bytes, has⟩, back⟩
  have spans := Registry.spansWellFormed_of_restoredAt? back
  rcases (has.restoredAt?_eq_some_iff wellFormed kept).mp back with ⟨stored, decoded, own⟩
  refine ⟨(Sidecar.storable_of_decode decoded).of_devices (devices_of_revived? own), ?_⟩
  rw [comesBack?_of_spans spans]
  exact revived?_of_revived? own

/-- The sidecar of a file is written after recovery has brought that file back. -/
structure Rewriting (layout : Layout) (root : Location) (tree after : Tree) (registry : Registry)
    (key : PartitionKey) (file : DataFile) (sidecar : FileName × String) : Prop where
  rooted : Rooted layout root tree
  recovers : layout.recover tree = .ok registry
  registered : key ∈ registry.keys
  brings : layout.Brings tree file.space key sidecar file
  saved : Saved layout root key [file] tree after

/-- The sidecar of a recovered file has been written. -/
theorem exists_rewriting (wellFormed : tree.WellFormed)
    (recovers : layout.recover tree = .ok registry)
    (registered : key ∈ registry.keys) {sidecar : FileName × String}
    (brings : layout.Brings tree file.space key sidecar file)
    (outcome : layout.persist key file tree = .ok () after) :
    ∃ root, layout.Rewriting root tree after registry key file sidecar := by
  have listed := (recoverable_of_keys recovers).1
  rcases exists_rooted wellFormed listed registered with ⟨root, rooted⟩
  have plain := (rooted.housed listed registered).plain
  exact ⟨root, rooted, recovers, registered, brings, saved_persist rooted plain outcome⟩

section Rewritten

variable {sidecar : FileName × String}
  (rewriting : layout.Rewriting root tree after registry key file sidecar)

include rewriting

theorem Rewriting.listed : layout.listPartitions tree = .ok registry.keys :=
  (recoverable_of_keys rewriting.recovers).1

theorem Rewriting.recoverable {other : PartitionKey} (member : other ∈ registry.keys) :
    layout.Recoverable tree other :=
  (recoverable_of_keys rewriting.recovers).2 other member

theorem Rewriting.ownRecoverable : layout.Recoverable tree key :=
  rewriting.recoverable rewriting.registered

theorem Rewriting.plain : Plain key.group :=
  (rewriting.rooted.housed rewriting.listed rewriting.registered).plain

theorem Rewriting.few : file.devices.size < 2 ^ 32 :=
  (rewriting.brings.storable rewriting.rooted.wellFormed).1.few

theorem Rewriting.afterWellFormed : after.WellFormed :=
  (rewriting.saved.confined.rooted rewriting.rooted).wellFormed

/-- The number of the file came back from its sidecar and from no other. -/
theorem Rewriting.bringsBack_iff (path : String) :
    layout.BringsBack tree key file.id path ↔ path = sidecar.2 := by
  rcases rewriting.brings with ⟨⟨name, bytes, has⟩, back⟩
  rw [Layout.bringsBack_iff fun space => (rewriting.ownRecoverable.inPlace space).exists_listed]
  constructor
  · rintro ⟨_, _, _, _, otherHas, kept, otherBack, sameId⟩
    exact congrArg Prod.snd (rewriting.ownRecoverable.eq_of_id otherHas has otherBack back sameId)
  · rintro rfl
    exact ⟨file.space, sidecar.1, name, bytes, has, file, back, rfl⟩

/-- A file that has come back comes back as it is after it has been written. -/
theorem Rewriting.restoredAt?_after :
    restoredAt? after (layout.sidecarPath key file) = some file := by
  rcases rewriting.brings.storable rewriting.rooted.wellFormed with ⟨storable, back⟩
  rw [restoredAt?_written rewriting.rooted rewriting.plain rewriting.saved List.mem_cons_self
    storable.few, back]

/-- After its sidecar has been written a file comes back from there, and all other sidecars bring
back what they brought back before. -/
theorem Rewriting.brings_after_iff (other : FileName × String) :
    layout.Brings after space key other kept ↔
      (space = file.space ∧ kept = file ∧
        other = (FileName.ofFile file, layout.sidecarPath key file)) ∨
      layout.Brings tree space key other kept ∧ other.2 ≠ layout.sidecarPath key file := by
  have written := rewriting.restoredAt?_after
  have plain := rewriting.plain
  rcases rewriting with ⟨rooted, _, _, _, saved⟩
  have unwritten : other.2 ≠ layout.sidecarPath key file →
      ∀ own ∈ [file], other.2 ≠ layout.sidecarPath key own :=
    fun apart own member => (List.mem_singleton.mp member) ▸ apart
  constructor
  · rintro ⟨⟨name, bytes, has⟩, back⟩
    rcases hasSidecar_cases rooted plain saved has with
      ⟨_, isFile, rfl, _, rfl⟩ | ⟨stood, away⟩
    · cases List.mem_singleton.mp isFile
      dsimp only at back
      rw [written] at back
      exact .inl ⟨rfl, (Option.some.inj back).symm, rfl⟩
    · have apart : other.2 ≠ layout.sidecarPath key file := fun path =>
        away file List.mem_cons_self (rooted.eq_ofFile_of_path plain stood path).1
      rw [(stays_unwritten rooted plain saved stood (unwritten apart)).2] at back
      exact .inr ⟨⟨⟨name, bytes, stood⟩, back⟩, apart⟩
  · rintro (⟨rfl, rfl, rfl⟩ | ⟨⟨⟨name, bytes, stood⟩, back⟩, apart⟩)
    · refine ⟨⟨_, _, hasSidecar_written rooted plain saved List.mem_cons_self⟩, ?_⟩
      dsimp only
      exact written
    · rcases stays_unwritten rooted plain saved stood (unwritten apart) with ⟨stays, same⟩
      exact ⟨⟨name, bytes, stays⟩, same.trans back⟩

/-- Where a file came back from the path of its own sidecar, the same comes back as before. -/
theorem Rewriting.sameBack (path : sidecar.2 = layout.sidecarPath key file) :
    layout.SameBack tree after key := by
  rcases rewriting.brings with ⟨⟨name, bytes, has⟩, back⟩
  have own_eq := rewriting.rooted.eq_ofFile_of_path rewriting.plain has path
  intro space other kept
  rw [rewriting.brings_after_iff]
  constructor
  · rintro (⟨rfl, rfl, rfl⟩ | ⟨brings, _⟩)
    · rw [← own_eq.2]
      exact rewriting.brings
    · exact brings
  · intro brings
    by_cases apart : other.2 = layout.sidecarPath key file
    · rcases brings with ⟨⟨otherName, otherBytes, otherHas⟩, otherBack⟩
      have other_eq := rewriting.rooted.eq_ofFile_of_path rewriting.plain otherHas apart
      have spaces := (sidecarPlace_eq_append_iff.mp other_eq.1.symm).2.1
      rw [apart, ← path, back] at otherBack
      exact .inl ⟨spaces.symm, (Option.some.inj otherBack).symm, other_eq.2⟩
    · exact .inr ⟨brings, apart⟩

theorem Rewriting.valid : file.Valid := by
  apply file.validate_eq_ok_iff.mp
  apply rewriting.ownRecoverable.validated
  exact (mem_restored_iff rewriting.ownRecoverable.inPlace).mpr ⟨sidecar, rewriting.brings⟩

/-- Afterwards the same partitions are listed. -/
theorem Rewriting.exists_listed_after :
    ∃ keys, layout.listPartitions after = .ok keys ∧
      ∀ other, other ∈ keys ↔ other ∈ registry.keys := by
  have listable := listable_after rewriting.rooted rewriting.saved.confined rewriting.listed
    (fun _ => rewriting.recoverable) rewriting.registered
  rcases exists_listPartitions listable with ⟨keys, listed⟩
  exact ⟨keys, listed, mem_listPartitions_after rewriting.rooted rewriting.saved.confined
    rewriting.listed rewriting.registered listed⟩

theorem Rewriting.recoverable_elsewhere {other : PartitionKey} (member : other ∈ registry.keys)
    (differ : other ≠ key) : layout.Recoverable after other :=
  Disk.recoverable_elsewhere rewriting.rooted rewriting.saved.confined rewriting.listed
    (fun _ => rewriting.recoverable) member differ

theorem Rewriting.sameBack_elsewhere {other : PartitionKey} (member : other ∈ registry.keys)
    (differ : other ≠ key) : layout.SameBack tree after other :=
  sameBack_of_sameSidecars rewriting.rooted.wellFormed rewriting.afterWellFormed
    (hasSidecar_after_iff rewriting.rooted rewriting.saved.confined
      (rewriting.rooted.housed rewriting.listed member).plain differ)

theorem Rewriting.allInPlace_after (space : Space) : layout.AllInPlace after key space := by
  apply rewriting.ownRecoverable.allInPlace_after rewriting.rooted rewriting.plain rewriting.saved
  · exact listable_partition_after rewriting.rooted rewriting.saved.confined rewriting.listed
      (fun _ => rewriting.recoverable) rewriting.registered
  · exact fun own isFile => (List.mem_singleton.mp isFile) ▸ rewriting.few

theorem Rewriting.valid_after (member : kept ∈ layout.restored after key) : kept.Valid := by
  rcases (mem_restored_iff rewriting.allInPlace_after).mp member with ⟨other, brings⟩
  rcases (rewriting.brings_after_iff other).mp brings with ⟨_, rfl, _⟩ | ⟨brought, _⟩
  · exact rewriting.valid
  · apply kept.validate_eq_ok_iff.mp
    apply rewriting.ownRecoverable.validated
    exact (mem_restored_iff rewriting.ownRecoverable.inPlace).mpr ⟨other, brought⟩

/-- No number but that of the file comes back twice. -/
theorem Rewriting.id_eq_of_twice {id : FileId}
    (twice : 2 ≤ ((layout.restored after key).map DataFile.id).count id) : id = file.id := by
  by_contra differ
  have once : ((layout.restored after key).map DataFile.id).count id ≤ 1 := by
    apply count_restored_le_one rewriting.afterWellFormed rewriting.allInPlace_after
    intro first second _ _ _ _ _ _ firstHas secondHas _ _ firstBack secondBack firstId secondId
    rcases (rewriting.brings_after_iff first).mp ⟨⟨_, _, firstHas⟩, firstBack⟩ with
      ⟨_, rfl, _⟩ | ⟨⟨⟨_, _, firstStood⟩, firstWas⟩, _⟩
    · exact absurd firstId.symm differ
    · rcases (rewriting.brings_after_iff second).mp ⟨⟨_, _, secondHas⟩, secondBack⟩ with
        ⟨_, rfl, _⟩ | ⟨⟨⟨_, _, secondStood⟩, secondWas⟩, _⟩
      · exact absurd secondId.symm differ
      · exact rewriting.ownRecoverable.eq_of_id firstStood secondStood firstWas secondWas
          (firstId.trans secondId.symm)
  omega

/-- Recovery succeeds afterwards exactly when the file had come back from the path to which it has
been written. -/
theorem Rewriting.exists_recover_iff :
    (∃ recovered, layout.recover after = .ok recovered) ↔
      sidecar.2 = layout.sidecarPath key file := by
  have alive := comesBack?_eq_some
    (rewriting.brings.storable rewriting.rooted.wellFormed).2
  rw [exists_recover_written_iff rewriting.rooted rewriting.plain rewriting.saved
    rewriting.recovers rewriting.registered, Compatible, List.forall_mem_singleton]
  case valid => simpa using fun _ => rewriting.valid
  case differ => simp
  simp only [rewriting.bringsBack_iff, forall_eq, List.mem_singleton, exists_eq_left]
  constructor
  · exact fun compatible => compatible.2 alive
  · exact fun path => ⟨rewriting.few, fun _ => path⟩

theorem Rewriting.recover_eq_ok (path : sidecar.2 = layout.sidecarPath key file) :
    layout.recover after = .ok registry := by
  rcases rewriting.exists_recover_iff.mpr path with ⟨recovered, again⟩
  rcases rewriting.exists_listed_after with ⟨keys, listed, same⟩
  rw [again]
  congr 1
  apply eq_of_recover_of_sameBack rewriting.rooted.wellFormed rewriting.afterWellFormed
    rewriting.recovers again
  · rw [(described_of_recover listed again).1]
    exact same
  · intro other member
    by_cases own : other = key
    · rw [own]
      exact rewriting.sameBack path
    · exact rewriting.sameBack_elsewhere member own

/-- Otherwise recovery finds the number of the file twice. -/
theorem Rewriting.recover_eq_error (path : sidecar.2 ≠ layout.sidecarPath key file) :
    layout.recover after = .error (.malformed file.id .listedTwice) := by
  rcases rewriting.exists_listed_after with ⟨keys, listed, same⟩
  have fine : ∀ other ∈ keys, (∀ space, layout.AllInPlace after other space) ∧
      ∀ kept ∈ layout.restored after other, kept.Valid := by
    intro other member
    by_cases own : other = key
    · rw [own]
      exact ⟨rewriting.allInPlace_after, fun _ => rewriting.valid_after⟩
    · have recoverable := rewriting.recoverable_elsewhere ((same other).mp member) own
      exact ⟨recoverable.inPlace, fun kept restored =>
        kept.validate_eq_ok_iff.mp (recoverable.validated kept restored)⟩
  cases outcome : layout.recover after with
  | ok recovered => exact absurd (rewriting.exists_recover_iff.mp ⟨recovered, outcome⟩) path
  | error error =>
      rcases namesTwice_of_recover listed (fun other member => (fine other member).1)
        (fun other member => (fine other member).2) outcome with ⟨other, member, id, rfl, twice⟩
      by_cases own : other = key
      · rw [own] at twice
        rw [rewriting.id_eq_of_twice twice]
      · have recoverable := rewriting.recoverable_elsewhere ((same other).mp member) own
        have once := List.nodup_iff_count_le_one.mp recoverable.distinct id
        omega

end Rewritten

end Layout

end SeriesStore.Disk
