import Mathlib.Data.List.Nodup
import Mathlib.Data.List.TakeWhile
import SeriesStore.Proofs.Partition.Edit

/-!
# Consistent partitions

A log lists the numbers under which files have come in, in that order; a number
that is given out again stands in it more than once.  A partition is consistent
with a log when it is what its two lists promise: every number once, every file
in the list of its space, sequence files by ordering key and then in the order of
the log, unsequence files in the order of the log.

Revisions keep this for the same log, and a file that comes in is the next entry
of the log.
-/

namespace SeriesStore

/-- Whether the last entry of one number in a log stands before the last entry of
another one. -/
def RegisteredBefore (log : List FileId) (first second : FileId) : Prop :=
  ∃ earlier later, log = earlier ++ second :: later ∧ first ∈ earlier ∧ first ∉ second :: later

namespace RegisteredBefore

variable {log : List FileId} {first second id : FileId}

/-- A number that comes in later, also for the second time, does not go before a
different one. -/
theorem append (before : RegisteredBefore log first second) (ne : first ≠ id) :
    RegisteredBefore (log ++ [id]) first second := by
  rcases before with ⟨earlier, later, rfl, early, notLate⟩
  refine ⟨earlier, later ++ [id], by simp, early, ?_⟩
  rw [← List.cons_append, List.mem_append, List.mem_singleton]
  exact not_or.mpr ⟨notLate, ne⟩

/-- Every number of the log goes before a different one that comes in. -/
theorem of_mem (known : first ∈ log) (ne : first ≠ id) :
    RegisteredBefore (log ++ [id]) first id :=
  ⟨log, [], rfl, known, by simpa using ne⟩

end RegisteredBefore

namespace Partition

/-- The order of sequence files: by ordering key, and equal keys in order of
registration. -/
def ListedBefore (log : List FileId) (first second : DataFile) : Prop :=
  first.orderingKey < second.orderingKey ∨
    first.orderingKey = second.orderingKey ∧ RegisteredBefore log first.id second.id

/-- A partition that is in order, given the log of the numbers that have come in. -/
structure Consistent (partition : Partition) (log : List FileId) : Prop where
  distinct : (partition.files.map DataFile.id).Nodup
  registered : partition.files.map DataFile.id ⊆ log
  validated : ∀ file ∈ partition.files, file.validate = .ok ()
  sequence_space : ∀ file ∈ partition.sequence, file.space = .sequence
  unsequence_space : ∀ file ∈ partition.unsequence, file.space = .unsequence
  sequence_order : partition.sequence.Pairwise (ListedBefore log)
  unsequence_order :
    partition.unsequence.Pairwise fun first second => RegisteredBefore log first.id second.id

theorem consistent_empty : Consistent .empty [] := by
  constructor <;> simp [empty, files]

/-- A partition whose files are valid, each in the list of its space and none of them twice, in
whatever order they come. -/
structure Sound (partition : Partition) : Prop where
  distinct : (partition.files.map DataFile.id).Nodup
  validated : ∀ file ∈ partition.files, file.validate = .ok ()
  sequence_space : ∀ file ∈ partition.sequence, file.space = .sequence
  unsequence_space : ∀ file ∈ partition.unsequence, file.space = .unsequence

theorem Consistent.sound {partition : Partition} {log : List FileId}
    (consistent : partition.Consistent log) : partition.Sound :=
  ⟨consistent.distinct, consistent.validated, consistent.sequence_space,
    consistent.unsequence_space⟩

theorem Sound.of_sublist {partition part : Partition} (sound : partition.Sound)
    (sequence : part.sequence.Sublist partition.sequence)
    (unsequence : part.unsequence.Sublist partition.unsequence) : part.Sound := by
  have files : part.files.Sublist partition.files := sequence.append unsequence
  constructor
  case distinct => exact (files.map DataFile.id).nodup sound.distinct
  case validated => exact fun file member => sound.validated file (files.subset member)
  case sequence_space =>
    exact fun file member => sound.sequence_space file (sequence.subset member)
  case unsequence_space =>
    exact fun file member => sound.unsequence_space file (unsequence.subset member)

theorem Sound.mem_sequence_iff {partition : Partition} (sound : partition.Sound)
    (file : DataFile) :
    file ∈ partition.sequence ↔ file ∈ partition.files ∧ file.space = .sequence := by
  rw [mem_files]
  constructor
  · intro member
    exact ⟨.inl member, sound.sequence_space file member⟩
  · rintro ⟨member | member, fits⟩
    · exact member
    · rw [sound.unsequence_space file member] at fits
      contradiction

theorem Sound.mem_unsequence_iff {partition : Partition} (sound : partition.Sound)
    (file : DataFile) :
    file ∈ partition.unsequence ↔ file ∈ partition.files ∧ file.space = .unsequence := by
  rw [mem_files]
  constructor
  · intro member
    exact ⟨.inr member, sound.unsequence_space file member⟩
  · rintro ⟨member | member, fits⟩
    · rw [sound.sequence_space file member] at fits
      contradiction
    · exact member

/-! ## Revisions -/

theorem validate_of_change (file changed : DataFile) (change : file.Change changed)
    (validated : file.validate = .ok ()) : changed.validate = .ok () :=
  changed.validate_eq_ok_iff.mpr (change.valid (file.validate_eq_ok_iff.mp validated))

/-- A change of a registered file leaves every file at its place. -/
theorem place_eq_of_change {partition : Partition}
    (distinct : (partition.files.map DataFile.id).Nodup) {file changed : DataFile}
    (found : partition.find? file.id = some file) (change : file.Change changed)
    {other : DataFile} (member : other ∈ partition.files) :
    let replaced := if other.id = changed.id then changed else other
    replaced.id = other.id ∧ replaced.space = other.space ∧
      replaced.orderingKey = other.orderingKey := by
  dsimp only
  split
  · rename_i same
    have place := change.place_eq
    have isFile : other = file :=
      List.inj_on_of_nodup_map distinct member (mem_of_find?_eq_some found).1
        (same.trans place.1)
    rw [isFile]
    exact place
  · exact ⟨rfl, rfl, rfl⟩

theorem Consistent.replace {partition : Partition} {log : List FileId}
    (consistent : partition.Consistent log) {file changed : DataFile}
    (found : partition.find? file.id = some file) (change : file.Change changed) :
    (partition.replace changed).Consistent log := by
  have place := fun {other : DataFile} (member : other ∈ partition.files) =>
    place_eq_of_change consistent.distinct found change member
  have inSequence := fun {other : DataFile} (member : other ∈ partition.sequence) =>
    place (partition.sequence_subset_files member)
  have inUnsequence := fun {other : DataFile} (member : other ∈ partition.unsequence) =>
    place (partition.unsequence_subset_files member)
  have ids : (partition.replace changed).files.map DataFile.id =
      partition.files.map DataFile.id := by
    rw [files_replace, List.map_map]
    exact List.map_congr_left fun other member => (place member).1
  constructor
  case distinct => rw [ids]; exact consistent.distinct
  case registered => rw [ids]; exact consistent.registered
  case validated =>
    exact (Revision.replace found change).forall_files validate_of_change consistent.validated
  case sequence_space =>
    intro other member
    rcases List.mem_map.mp member with ⟨old, oldMember, rfl⟩
    exact (inSequence oldMember).2.1.trans (consistent.sequence_space old oldMember)
  case unsequence_space =>
    intro other member
    rcases List.mem_map.mp member with ⟨old, oldMember, rfl⟩
    exact (inUnsequence oldMember).2.1.trans (consistent.unsequence_space old oldMember)
  case sequence_order =>
    apply List.pairwise_map.mpr
    apply consistent.sequence_order.imp_of_mem
    intro first second firstMember secondMember listed
    rcases inSequence firstMember with ⟨firstId, _, firstKey⟩
    rcases inSequence secondMember with ⟨secondId, _, secondKey⟩
    rw [ListedBefore, firstId, secondId, firstKey, secondKey]
    exact listed
  case unsequence_order =>
    apply List.pairwise_map.mpr
    apply consistent.unsequence_order.imp_of_mem
    intro first second firstMember secondMember before
    rw [(inUnsequence firstMember).1, (inUnsequence secondMember).1]
    exact before

theorem Consistent.erase {partition : Partition} {log : List FileId}
    (consistent : partition.Consistent log) (id : FileId) :
    (partition.erase id).Consistent log := by
  have kept : (partition.erase id).files.Sublist partition.files :=
    List.filter_sublist.append List.filter_sublist
  constructor
  case distinct => exact (kept.map DataFile.id).nodup consistent.distinct
  case registered =>
    exact List.Subset.trans (kept.map DataFile.id).subset consistent.registered
  case validated => exact fun file member => consistent.validated file (kept.subset member)
  case sequence_space =>
    exact fun file member => consistent.sequence_space file (List.mem_of_mem_filter member)
  case unsequence_space =>
    exact fun file member => consistent.unsequence_space file (List.mem_of_mem_filter member)
  case sequence_order => exact consistent.sequence_order.filter _
  case unsequence_order => exact consistent.unsequence_order.filter _

theorem Consistent.revisions {partition revised : Partition} {log : List FileId}
    (consistent : partition.Consistent log) (revisions : Revisions partition revised) :
    revised.Consistent log := by
  induction revisions with
  | refl => exact consistent
  | tail _ revision ih =>
      cases revision with
      | replace found change => exact ih.replace found change
      | erase id => exact ih.erase id

/-! ## Files that come in -/

/-- What `dropWhile` keeps fails the test, when passing it is passed on to what
stands before. -/
theorem not_of_mem_dropWhile {test : DataFile → Bool} {files : List DataFile}
    (falling : files.Pairwise fun first second => test second → test first) {file : DataFile}
    (member : file ∈ files.dropWhile test) : ¬ test file := by
  induction files with
  | nil => contradiction
  | cons first rest ih =>
      rw [List.pairwise_cons] at falling
      rw [List.dropWhile_cons] at member
      split at member
      · exact ih falling.2 member
      · rename_i fails
        rcases List.mem_cons.mp member with rfl | member
        · exact fails
        · exact fun passes => fails (falling.1 file member passes)

/-- A file is placed behind the files whose key is not larger and before the
others. -/
theorem pairwise_placeByKey {relation : DataFile → DataFile → Prop} {file : DataFile}
    {files : List DataFile} (related : files.Pairwise relation)
    (sorted : files.Pairwise fun first second => first.orderingKey ≤ second.orderingKey)
    (before : ∀ other ∈ files, other.orderingKey ≤ file.orderingKey → relation other file)
    (after : ∀ other ∈ files, ¬ other.orderingKey ≤ file.orderingKey → relation file other) :
    (placeByKey file files).Pairwise relation := by
  -- In a sorted list the files whose key is not larger stand in front.
  have falling : files.Pairwise fun first second =>
      decide (second.orderingKey ≤ file.orderingKey) →
        decide (first.orderingKey ≤ file.orderingKey) := by
    apply sorted.imp
    intro first second low
    simp only [decide_eq_true_eq]
    exact UInt64.le_trans low
  have parts := related
  rw [← List.takeWhile_append_dropWhile (p := fun other : DataFile =>
    decide (other.orderingKey ≤ file.orderingKey)) (l := files), List.pairwise_append] at parts
  rcases parts with ⟨front, back, across⟩
  rw [placeByKey, List.pairwise_append, List.pairwise_cons]
  refine ⟨front, ⟨fun other member => ?_, back⟩, fun first firstMember other member => ?_⟩
  · apply after other ((List.dropWhile_sublist _).subset member)
    simpa using not_of_mem_dropWhile falling member
  · rcases List.mem_cons.mp member with rfl | member
    · apply before first ((List.takeWhile_sublist _).subset firstMember)
      simpa using List.mem_takeWhile_imp firstMember
    · exact across first firstMember other member

theorem insert_of_sequence {file : DataFile} (space : file.space = .sequence)
    (partition : Partition) :
    partition.insert file =
      { partition with sequence := placeByKey file partition.sequence } := by
  rw [insert, space]

theorem insert_of_unsequence {file : DataFile} (space : file.space = .unsequence)
    (partition : Partition) :
    partition.insert file = { partition with unsequence := partition.unsequence ++ [file] } := by
  rw [insert, space]

theorem files_insert_perm (partition : Partition) (file : DataFile) :
    (partition.insert file).files.Perm (file :: partition.files) := by
  unfold insert
  split
  · exact (placeByKey_perm file partition.sequence).append_right partition.unsequence
  · rw [files, ← List.append_assoc]
    exact List.perm_append_singleton file partition.files

/-- The order of a list before a file comes in is its order among the old entries
of the log afterwards. -/
theorem ListedBefore.append {log : List FileId} {first second : DataFile} {id : FileId}
    (listed : ListedBefore log first second) (ne : first.id ≠ id) :
    ListedBefore (log ++ [id]) first second := by
  rcases listed with lower | ⟨same, before⟩
  · exact .inl lower
  · exact .inr ⟨same, before.append ne⟩

theorem ListedBefore.orderingKey_le {log : List FileId} {first second : DataFile}
    (listed : ListedBefore log first second) : first.orderingKey ≤ second.orderingKey := by
  rcases listed with lower | ⟨same, _⟩
  · exact UInt64.le_of_lt lower
  · exact same ▸ UInt64.le_refl _

theorem id_ne_of_free {partition : Partition} {file other : DataFile}
    (free : partition.contains file.id = false) (member : other ∈ partition.files) :
    other.id ≠ file.id := by
  intro same
  rw [(contains_iff _ _).mpr ⟨other, member, same⟩] at free
  contradiction

namespace Consistent

section Insert

variable {partition : Partition} {log : List FileId} (consistent : partition.Consistent log)
  {file : DataFile} (free : partition.contains file.id = false)

include consistent

theorem mem_log {other : DataFile} (member : other ∈ partition.files) : other.id ∈ log :=
  consistent.registered (List.mem_map_of_mem member)

include free

/-- A file goes behind those that were registered before with the same key. -/
theorem sequence_order_insert :
    (partition.insert file).sequence.Pairwise (ListedBefore (log ++ [file.id])) := by
  have inFiles := partition.sequence_subset_files
  have kept : partition.sequence.Pairwise (ListedBefore (log ++ [file.id])) :=
    consistent.sequence_order.imp_of_mem fun member _ listed =>
      listed.append (id_ne_of_free free (inFiles member))
  cases space : file.space with
  | sequence =>
      rw [insert_of_sequence space]
      apply pairwise_placeByKey kept (kept.imp ListedBefore.orderingKey_le)
      · intro other member low
        rcases UInt64.lt_or_eq_of_le low with lower | same
        · exact .inl lower
        · have known := consistent.mem_log (inFiles member)
          exact .inr ⟨same, .of_mem known (id_ne_of_free free (inFiles member))⟩
      · exact fun other _ high => .inl (UInt64.not_le.mp high)
  | unsequence =>
      rw [insert_of_unsequence space]
      exact kept

theorem unsequence_order_insert :
    (partition.insert file).unsequence.Pairwise fun first second =>
      RegisteredBefore (log ++ [file.id]) first.id second.id := by
  have inFiles := partition.unsequence_subset_files
  have kept : partition.unsequence.Pairwise fun first second =>
      RegisteredBefore (log ++ [file.id]) first.id second.id :=
    consistent.unsequence_order.imp_of_mem fun member _ before =>
      before.append (id_ne_of_free free (inFiles member))
  cases space : file.space with
  | sequence =>
      rw [insert_of_sequence space]
      exact kept
  | unsequence =>
      rw [insert_of_unsequence space, List.pairwise_append]
      refine ⟨kept, List.pairwise_singleton _ _, fun other member last isLast => ?_⟩
      rw [List.mem_singleton.mp isLast]
      have known := consistent.mem_log (inFiles member)
      exact .of_mem known (id_ne_of_free free (inFiles member))

theorem insert (valid : file.Valid) :
    (partition.insert file).Consistent (log ++ [file.id]) := by
  have arrived := files_insert_perm partition file
  constructor
  case distinct =>
    apply (arrived.map DataFile.id).symm.nodup
    rw [List.map_cons, List.nodup_cons]
    refine ⟨fun repeated => ?_, consistent.distinct⟩
    rcases List.mem_map.mp repeated with ⟨other, member, same⟩
    exact id_ne_of_free free member same
  case registered =>
    intro id member
    rw [(arrived.map DataFile.id).mem_iff, List.map_cons, List.mem_cons] at member
    rw [List.mem_append, List.mem_singleton]
    exact member.symm.imp_left fun old => consistent.registered old
  case validated =>
    intro other member
    rcases (mem_files_insert _ _ _).mp member with rfl | member
    · exact other.validate_eq_ok_iff.mpr valid
    · exact consistent.validated other member
  case sequence_space =>
    cases space : file.space with
    | sequence =>
        rw [insert_of_sequence space]
        intro other member
        rw [(placeByKey_perm file partition.sequence).mem_iff] at member
        rcases List.mem_cons.mp member with rfl | member
        · exact space
        · exact consistent.sequence_space other member
    | unsequence =>
        rw [insert_of_unsequence space]
        exact consistent.sequence_space
  case unsequence_space =>
    cases space : file.space with
    | sequence =>
        rw [insert_of_sequence space]
        exact consistent.unsequence_space
    | unsequence =>
        rw [insert_of_unsequence space]
        intro other member
        rcases List.mem_append.mp member with member | member
        · exact consistent.unsequence_space other member
        · rwa [List.mem_singleton.mp member]
  case sequence_order => exact consistent.sequence_order_insert free
  case unsequence_order => exact consistent.unsequence_order_insert free

end Insert

theorem insertAll {partition : Partition} {log : List FileId}
    (consistent : partition.Consistent log) {files : List DataFile}
    (fresh : partition.Fresh files) :
    (partition.insertAll files).Consistent (log ++ files.map DataFile.id) := by
  induction files generalizing partition log with
  | nil => simpa [Partition.insertAll] using consistent
  | cons file rest ih =>
      rcases (fresh_cons_iff _ _ _).mp fresh with ⟨valid, free, tail⟩
      have next := ih (consistent.insert free valid) tail
      rwa [List.append_assoc, List.singleton_append] at next

end Consistent

end Partition

end SeriesStore
