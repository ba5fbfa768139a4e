import Mathlib.Logic.Relation
import SeriesStore.Partition.Basic
import SeriesStore.Proofs.File.Change

/-!
# Edits of a partition

Whatever an operation does to a partition, also one that fails on the way, is a
sequence of three kinds of edits: a valid file comes in under a free number, a
registered file changes, or a file leaves.  What holds of the partition without
files and is kept by every edit therefore holds of every partition of the
store.

The last two kinds are revisions.  Files come in at two places only, when they
are added and when a group is finished, and there all of them come in together
after revisions.
-/

namespace SeriesStore

/-- The state that a step leaves behind, whether it failed or not. -/
def leftBehind {ε σ α : Type} : EStateM.Result ε σ α → σ
  | .ok _ state => state
  | .error _ state => state

namespace Partition

/-- One edit of a partition. -/
inductive Edit : Partition → Partition → Prop where
  | insert {partition : Partition} {file : DataFile} (valid : file.Valid)
      (free : partition.contains file.id = false) : Edit partition (partition.insert file)
  | replace {partition : Partition} {file changed : DataFile}
      (found : partition.find? file.id = some file) (change : file.Change changed) :
      Edit partition (partition.replace changed)
  | erase (partition : Partition) (id : FileId) : Edit partition (partition.erase id)

/-- Any number of edits. -/
abbrev Edits : Partition → Partition → Prop :=
  Relation.ReflTransGen Edit

/-- An edit that brings no file in. -/
inductive Revision : Partition → Partition → Prop where
  | replace {partition : Partition} {file changed : DataFile}
      (found : partition.find? file.id = some file) (change : file.Change changed) :
      Revision partition (partition.replace changed)
  | erase (partition : Partition) (id : FileId) : Revision partition (partition.erase id)

/-- Any number of revisions. -/
abbrev Revisions : Partition → Partition → Prop :=
  Relation.ReflTransGen Revision

/-- A registered file that is not written any more moves to a status. -/
inductive Shift (target : Status) : Partition → Partition → Prop where
  | move {partition : Partition} {file changed : DataFile}
      (found : partition.find? file.id = some file) (settled : file.status ≠ .unclosed)
      (outcome : file.transition target = .ok changed) :
      Shift target partition (partition.replace changed)

/-- Any number of moves to one status. -/
abbrev Shifts (target : Status) : Partition → Partition → Prop :=
  Relation.ReflTransGen (Shift target)

theorem Revision.edit {partition revised : Partition} (revision : Revision partition revised) :
    Edit partition revised := by
  cases revision with
  | replace found change => exact .replace found change
  | erase id => exact .erase partition id

theorem Revisions.edits {partition revised : Partition}
    (revisions : Revisions partition revised) : Edits partition revised := by
  induction revisions with
  | refl => exact .refl
  | tail _ revision ih => exact ih.tail revision.edit

theorem Shifts.revisions {target : Status} {partition shifted : Partition}
    (shifts : Shifts target partition shifted) : Revisions partition shifted := by
  induction shifts with
  | refl => exact .refl
  | tail _ shift ih =>
      cases shift with
      | move found settled outcome => exact ih.tail (.replace found (.moved _ settled outcome))

/-- Files that may come in together: each is valid, and their numbers are free and
differ. -/
structure Fresh (partition : Partition) (files : List DataFile) : Prop where
  valid : ∀ file ∈ files, file.Valid
  free : ∀ file ∈ files, partition.contains file.id = false
  distinct : (files.map DataFile.id).Nodup

/-- A partition that edits have made from the one without files. -/
def Built (partition : Partition) : Prop :=
  Edits .empty partition

theorem Built.edits {partition edited : Partition} (built : partition.Built)
    (edits : Edits partition edited) : edited.Built :=
  Relation.ReflTransGen.trans built edits

/-! ## Lookups after an edit -/

theorem contains_iff (partition : Partition) (id : FileId) :
    partition.contains id = true ↔ ∃ file ∈ partition.files, file.id = id := by
  simp [contains, find?]

theorem contains_insert (partition : Partition) (file : DataFile) (id : FileId) :
    (partition.insert file).contains id = (partition.contains id || file.id == id) := by
  rw [Bool.eq_iff_iff, Bool.or_eq_true, contains_iff, contains_iff, beq_iff_eq]
  simp only [mem_files_insert]
  constructor
  · rintro ⟨other, rfl | member, same⟩
    · exact .inr same
    · exact .inl ⟨other, member, same⟩
  · rintro (⟨other, member, same⟩ | same)
    · exact ⟨other, .inr member, same⟩
    · exact ⟨file, .inl rfl, same⟩

theorem contains_erase (partition : Partition) (gone id : FileId) :
    (partition.erase gone).contains id = (partition.contains id && id != gone) := by
  rw [Bool.eq_iff_iff, Bool.and_eq_true, contains_iff, contains_iff, bne_iff_ne]
  simp only [mem_files_erase]
  constructor
  · rintro ⟨file, ⟨member, ne⟩, rfl⟩
    exact ⟨⟨file, member, rfl⟩, ne⟩
  · rintro ⟨⟨file, member, rfl⟩, ne⟩
    exact ⟨file, ⟨member, ne⟩, rfl⟩

theorem files_replace (partition : Partition) (file : DataFile) :
    (partition.replace file).files =
      partition.files.map fun other => if other.id = file.id then file else other :=
  (List.map_append).symm

theorem find?_replace (partition : Partition) (file : DataFile) (id : FileId) :
    (partition.replace file).find? id =
      (partition.find? id).map fun other => if other.id = file.id then file else other := by
  have sameNumber : (fun other : DataFile => other.id == id) ∘
      (fun other => if other.id = file.id then file else other) = fun other => other.id == id := by
    funext other
    by_cases same : other.id = file.id <;> simp [same]
  simp only [find?, files_replace, List.find?_map, sameNumber]

theorem contains_replace (partition : Partition) (file : DataFile) (id : FileId) :
    (partition.replace file).contains id = partition.contains id := by
  simp [contains, find?_replace]

/-! ## Outcomes of steps -/

theorem bind_eq {α β : Type} (step : Step α) (next : α → Step β) (partition : Partition) :
    (step >>= next) partition =
      match step partition with
      | .error error middle => .error error middle
      | .ok value middle => next value middle := by
  change EStateM.bind step next partition = _
  rw [EStateM.bind]
  cases step partition <;> rfl

theorem bind_eq_ok_iff {α β : Type} (step : Step α) (next : α → Step β)
    (partition final : Partition) (value : β) :
    (step >>= next) partition = .ok value final ↔
      ∃ first middle, step partition = .ok first middle ∧ next first middle = .ok value final := by
  rw [bind_eq]
  cases step partition with
  | error error middle => simp
  | ok first middle =>
      constructor
      · intro outcome
        exact ⟨first, middle, rfl, outcome⟩
      · rintro ⟨_, _, same, outcome⟩
        cases same
        exact outcome

/-- A check changes nothing, and what follows it may rely on it. -/
theorem check_bind {α : Type} (outcome : Partition → Except Error Unit) (next : Step α)
    (partition : Partition) :
    (check outcome >>= fun _ => next) partition =
      match outcome partition with
      | .error error => .error error partition
      | .ok () => next partition := by
  rw [bind_eq, check]
  cases outcome partition <;> rfl

theorem update_eq_ok_iff (id : FileId) (change : DataFile → Except Error DataFile)
    (partition left : Partition) (changed : DataFile) :
    update id change partition = .ok changed left ↔
      ∃ file, partition.find? id = some file ∧ change file = .ok changed ∧
        left = partition.replace changed := by
  rw [update]
  cases found : partition.find? id with
  | none => simp
  | some file =>
      cases outcome : change file with
      | error error => simp [outcome]
      | ok result =>
          simp only [EStateM.Result.ok.injEq, Option.some.injEq, exists_eq_left', outcome,
            Except.ok.injEq]
          constructor
          · rintro ⟨rfl, rfl⟩
            exact ⟨rfl, rfl⟩
          · rintro ⟨rfl, rfl⟩
            exact ⟨rfl, rfl⟩

theorem take_eq_ok {id : FileId} {partition left : Partition} {file : DataFile}
    (outcome : take id partition = .ok file left) : left = partition.erase id := by
  rw [take] at outcome
  split at outcome
  · contradiction
  · cases outcome
    rfl

/-- A move never leads back to the unclosed status. -/
theorem status_ne_unclosed_of_transition {file changed : DataFile} {target : Status}
    (outcome : file.transition target = .ok changed) : changed.status ≠ .unclosed := by
  rcases (DataFile.transition_eq_ok_iff _ _ _).mp outcome with ⟨allowed, rfl⟩
  rintro rfl
  cases status : file.status <;> rw [status] at allowed <;> contradiction

/-- Taking files out leaves the other numbers registered. -/
theorem contains_of_takeAll_eq_ok {ids : List FileId} {partition left : Partition}
    {removed : List DataFile} (outcome : takeAll ids partition = .ok removed left) (id : FileId) :
    left.contains id = (partition.contains id && !ids.contains id) := by
  induction ids generalizing partition removed with
  | nil =>
      cases outcome
      simp
  | cons first rest ih =>
      rw [takeAll, bind_eq_ok_iff] at outcome
      rcases outcome with ⟨file, middle, taken, outcome⟩
      rw [bind_eq_ok_iff] at outcome
      rcases outcome with ⟨others, last, more, outcome⟩
      cases outcome
      rw [ih more, take_eq_ok taken, contains_erase, List.contains_cons, Bool.not_or,
        Bool.and_assoc]
      rfl

theorem contains_of_transitionAll_eq_ok {target : Status} {ids : List FileId}
    {partition left : Partition} (outcome : transitionAll target ids partition = .ok () left)
    (id : FileId) : left.contains id = partition.contains id := by
  induction ids generalizing partition with
  | nil =>
      cases outcome
      rfl
  | cons first rest ih =>
      rw [transitionAll, bind_eq_ok_iff] at outcome
      rcases outcome with ⟨moved, middle, changed, outcome⟩
      rcases (update_eq_ok_iff _ _ _ _ _).mp changed with ⟨_, _, _, rfl⟩
      rw [ih outcome, contains_replace]

/-! ## Operations revise -/

section Steps

variable {edit : Partition → Partition → Prop} {partition : Partition}

theorem bind_edits {α β : Type} {step : Step α} {next : α → Step β}
    (first : Relation.ReflTransGen edit partition (leftBehind (step partition)))
    (others : ∀ value middle, step partition = .ok value middle →
      Relation.ReflTransGen edit middle (leftBehind (next value middle))) :
    Relation.ReflTransGen edit partition (leftBehind ((step >>= next) partition)) := by
  rw [bind_eq]
  cases outcome : step partition with
  | error error middle =>
      rw [outcome] at first
      exact first
  | ok value middle =>
      rw [outcome] at first
      exact first.trans (others value middle outcome)

theorem check_bind_edits {α : Type} {outcome : Partition → Except Error Unit} {next : Step α}
    (others : outcome partition = .ok () →
      Relation.ReflTransGen edit partition (leftBehind (next partition))) :
    Relation.ReflTransGen edit partition
      (leftBehind ((check outcome >>= fun _ => next) partition)) := by
  rw [check_bind]
  split
  · exact .refl
  · rename_i checked
    exact others checked

theorem update_edits {id : FileId} {change : DataFile → Except Error DataFile}
    (changes : ∀ file changed, partition.find? file.id = some file → file.id = id →
      change file = .ok changed → edit partition (partition.replace changed)) :
    Relation.ReflTransGen edit partition (leftBehind (update id change partition)) := by
  rw [update]
  split
  · exact .refl
  · rename_i file found
    split
    · exact .refl
    · rename_i changed outcome
      have same := (mem_of_find?_eq_some found).2
      exact .single (changes file changed (same ▸ found) same outcome)

end Steps

theorem recordWrite_revisions (id : FileId) (device : String) (time : Timestamp)
    (partition : Partition) :
    Revisions partition (leftBehind (recordWrite id device time partition)) := by
  apply update_edits
  intro file changed found _ outcome
  rw [writtenTo] at outcome
  split at outcome
  · rename_i unclosed
    cases outcome
    exact .replace found (.recorded unclosed device time)
  · contradiction

theorem sealFile_revisions (id : FileId) (ends : EndTimes) (partition : Partition) :
    Revisions partition (leftBehind (sealFile id ends partition)) :=
  update_edits fun _ _ found _ outcome => .replace found (.sealed ends outcome)

theorem take_revisions (id : FileId) (partition : Partition) :
    Revisions partition (leftBehind (take id partition)) := by
  rw [take]
  split
  · exact .refl
  · exact .single (.erase partition id)

theorem takeAll_revisions (ids : List FileId) (partition : Partition) :
    Revisions partition (leftBehind (takeAll ids partition)) := by
  induction ids generalizing partition with
  | nil => exact .refl
  | cons id rest ih =>
      rw [takeAll]
      apply bind_edits (take_revisions id partition)
      intro file middle _
      exact bind_edits (ih middle) fun others last _ => .refl

/-- Only a file that is not written any more can be deleted. -/
theorem delete_revisions (id : FileId) (partition : Partition) :
    Revisions partition (leftBehind (delete id partition)) := by
  apply bind_edits
  · apply update_edits
    intro file changed found _ outcome
    apply Revision.replace found (DataFile.Change.moved .deleted _ outcome)
    have allowed := ((DataFile.transition_eq_ok_iff _ _ _).mp outcome).1
    intro unclosed
    rw [unclosed] at allowed
    contradiction
  · intro moved middle _
    exact take_revisions id middle

/-- Moving members that are not written any more moves them and does nothing else. -/
theorem transitionAll_shifts {target : Status} {ids : List FileId} {partition : Partition}
    (settled : ∀ id ∈ ids, ∀ file, partition.find? id = some file → file.status ≠ .unclosed) :
    Shifts target partition (leftBehind (transitionAll target ids partition)) := by
  induction ids generalizing partition with
  | nil => exact .refl
  | cons id rest ih =>
      rw [transitionAll]
      apply bind_edits
      · apply update_edits
        rintro file changed found rfl outcome
        exact .move found (settled file.id List.mem_cons_self file found) outcome
      · intro moved middle first
        rcases (update_eq_ok_iff _ _ _ _ _).mp first with ⟨_, _, move, rfl⟩
        apply ih
        intro other member file found
        rw [find?_replace, Option.map_eq_some_iff] at found
        rcases found with ⟨old, oldFound, rfl⟩
        split
        · exact status_ne_unclosed_of_transition move
        · exact settled other (List.mem_cons_of_mem id member) old oldFound

theorem claim_shifts (ids : List FileId) (partition : Partition) :
    Shifts .candidate partition (leftBehind (claim ids partition)) := by
  apply check_bind_edits
  intro checked
  apply transitionAll_shifts
  intro id member file found
  rcases (expectUnchanged_eq_ok_iff partition ids).mp checked id member with
    ⟨other, otherFound, closed⟩
  have same : other = file := Option.some.inj (otherFound.symm.trans found)
  rw [← same, closed]
  decide

theorem transitionAll_shifts_of_expectStatus {source expected target : Status}
    {ids : List FileId} {partition : Partition} (settled : source ≠ .unclosed)
    (checked : partition.expectStatus source expected ids = .ok ()) :
    Shifts target partition (leftBehind (transitionAll target ids partition)) := by
  apply transitionAll_shifts
  intro id member file found
  rcases (expectStatus_eq_ok_iff partition source expected ids).mp checked id member with
    ⟨other, otherFound, status⟩
  have same : other = file := Option.some.inj (otherFound.symm.trans found)
  rw [← same, status]
  exact settled

theorem move_shifts {source : Status} (target : Status) (settled : source ≠ .unclosed)
    (ids : List FileId) (partition : Partition) :
    Shifts target partition (leftBehind (move source target ids partition)) :=
  check_bind_edits fun checked => transitionAll_shifts_of_expectStatus settled checked

/-! ## Files come in together -/

theorem fresh_of_expectNew {space : Space} {partition : Partition} {files : List DataFile}
    (checked : expectNew space partition.contains [] files = .ok ()) : partition.Fresh files := by
  rcases (expectNew_eq_ok_iff _ _ _ _).mp checked with ⟨each, distinct⟩
  constructor
  case valid => exact fun file member => (each file member).1
  case free => exact fun file member => (each file member).2.2.1
  case distinct => exact distinct

/-- Why new files are refused, and with which error. -/
inductive Refused (space : Space) (taken : FileId → Bool) (files : List DataFile) :
    Error → Prop where
  | malformed {file : DataFile} {error : Error} (listed : file ∈ files)
      (fault : file.validate = .error error) : Refused space taken files error
  | wrongSpace {file : DataFile} (listed : file ∈ files) (other : file.space ≠ space) :
      Refused space taken files (.malformed file.id .wrongSpace)
  | listedTwice {first file : DataFile} (listed : [first, file].Sublist files)
      (same : first.id = file.id) : Refused space taken files (.malformed file.id .listedTwice)
  | taken {file : DataFile} (listed : file ∈ files) (inUse : taken file.id = true) :
      Refused space taken files (.malformed file.id .listedTwice)

/-- The check refuses new files for no other reason.  `before` are the files that it has
passed. -/
theorem refused_of_expectNew {space : Space} {taken : FileId → Bool} {seen : List FileId}
    {before files : List DataFile} {error : Error}
    (outcome : expectNew space taken seen files = .error error)
    (passed : ∀ id ∈ seen, ∃ file ∈ before, file.id = id) :
    Refused space taken (before ++ files) error := by
  induction files generalizing seen before with
  | nil => contradiction
  | cons file rest ih =>
      have listed : file ∈ before ++ file :: rest :=
        List.mem_append_right before List.mem_cons_self
      rw [expectNew] at outcome
      split at outcome
      · rename_i fault
        cases outcome
        exact .malformed listed fault
      split at outcome
      · rename_i other
        cases outcome
        exact .wrongSpace listed other
      split at outcome
      · rename_i used
        cases outcome
        rcases Bool.or_eq_true_iff.mp used with repeated | inUse
        · rcases passed file.id (List.contains_iff_mem.mp repeated) with ⟨first, member, same⟩
          have inOrder : [first, file].Sublist (before ++ file :: rest) :=
            (List.singleton_sublist.mpr member).append
              (List.singleton_sublist.mpr List.mem_cons_self)
          exact .listedTwice inOrder same
        · exact .taken listed inUse
      · rw [List.append_cons]
        apply ih outcome
        rw [List.forall_mem_cons]
        refine ⟨⟨file, by simp, rfl⟩, fun id member => ?_⟩
        rcases passed id member with ⟨first, firstMember, same⟩
        exact ⟨first, List.mem_append_left [file] firstMember, same⟩

/-- Files are fresh when the first is and leaves the others fresh. -/
theorem fresh_cons_iff (partition : Partition) (file : DataFile) (files : List DataFile) :
    partition.Fresh (file :: files) ↔
      file.Valid ∧ partition.contains file.id = false ∧ (partition.insert file).Fresh files := by
  constructor
  · intro fresh
    have distinct := fresh.distinct
    rw [List.map_cons, List.nodup_cons] at distinct
    refine ⟨fresh.valid file List.mem_cons_self, fresh.free file List.mem_cons_self, ?_⟩
    constructor
    case valid => exact fun other member => fresh.valid other (List.mem_cons_of_mem file member)
    case free =>
      intro other member
      have other_ne : file.id ≠ other.id := fun same =>
        distinct.1 (same ▸ List.mem_map_of_mem member)
      rw [contains_insert, fresh.free other (List.mem_cons_of_mem file member)]
      simpa using other_ne
    case distinct => exact distinct.2
  · rintro ⟨valid, free, fresh⟩
    have others : ∀ other ∈ files, partition.contains other.id = false ∧ file.id ≠ other.id := by
      intro other member
      have absent := fresh.free other member
      rw [contains_insert, Bool.or_eq_false_iff] at absent
      exact ⟨absent.1, by simpa using absent.2⟩
    constructor
    case valid => exact List.forall_mem_cons.mpr ⟨valid, fresh.valid⟩
    case free =>
      exact List.forall_mem_cons.mpr ⟨free, fun other member => (others other member).1⟩
    case distinct =>
      rw [List.map_cons, List.nodup_cons]
      refine ⟨fun repeated => ?_, fresh.distinct⟩
      rcases List.mem_map.mp repeated with ⟨other, member, same⟩
      exact (others other member).2 same.symm

theorem Fresh.append {partition : Partition} {files others : List DataFile}
    (fresh : partition.Fresh files) (more : (partition.insertAll files).Fresh others) :
    partition.Fresh (files ++ others) := by
  induction files generalizing partition with
  | nil => exact more
  | cons file rest ih =>
      rcases (fresh_cons_iff _ _ _).mp fresh with ⟨valid, free, tail⟩
      exact (fresh_cons_iff _ _ _).mpr ⟨valid, free, ih tail more⟩

/-- Whether a partition is another one into which fresh files have come. -/
def Gains (partition gained : Partition) (files : List DataFile) : Prop :=
  partition.Fresh files ∧ gained = partition.insertAll files

theorem Gains.refl (partition : Partition) : Gains partition partition [] :=
  ⟨⟨by simp, by simp, by simp⟩, rfl⟩

theorem Gains.append {partition middle gained : Partition} {files others : List DataFile}
    (first : Gains partition middle files) (second : Gains middle gained others) :
    Gains partition gained (files ++ others) := by
  rcases first with ⟨fresh, rfl⟩
  rcases second with ⟨more, rfl⟩
  exact ⟨fresh.append more, List.foldl_append.symm⟩

theorem mem_files_insertAll (partition : Partition) (files : List DataFile) (other : DataFile) :
    other ∈ (partition.insertAll files).files ↔ other ∈ files ∨ other ∈ partition.files := by
  induction files generalizing partition with
  | nil => simp [insertAll]
  | cons file rest ih =>
      change other ∈ ((partition.insert file).insertAll rest).files ↔ _
      rw [ih, mem_files_insert, List.mem_cons, or_left_comm, or_assoc]

theorem Fresh.edits {partition : Partition} {files : List DataFile}
    (fresh : partition.Fresh files) : Edits partition (partition.insertAll files) := by
  induction files generalizing partition with
  | nil => exact .refl
  | cons file rest ih =>
      rcases (fresh_cons_iff _ _ _).mp fresh with ⟨valid, free, tail⟩
      exact .head (.insert valid free) (ih tail)

theorem addAll_eq (space : Space) (files : List DataFile) (partition : Partition) :
    addAll space files partition =
      match expectNew space partition.contains [] files with
      | .error error => .error error partition
      | .ok () => .ok () (partition.insertAll files) :=
  check_bind _ _ _

/-- Marks the members of a group as deleted and takes them out. -/
def retire (ids : List FileId) : Step (List DataFile) := do
  transitionAll .deleted ids
  takeAll ids

/-- Finishing checks the members and the outputs, retires the members and lets the
outputs come in. -/
theorem finish_eq (ids : List FileId) (outputs : List DataFile) (partition : Partition) :
    finish ids outputs partition =
      match partition.expectStatus .compacting .deleted ids with
      | .error error => .error error partition
      | .ok () =>
          match expectNew .sequence (fun id => partition.contains id && !ids.contains id) []
            outputs with
          | .error error => .error error partition
          | .ok () =>
              match retire ids partition with
              | .error error left => .error error left
              | .ok removed left => .ok removed (left.insertAll outputs) := by
  rw [finish, check_bind]
  cases partition.expectStatus .compacting .deleted ids with
  | error error => rfl
  | ok _ =>
      dsimp only
      rw [check_bind]
      cases expectNew .sequence (fun id => partition.contains id && !ids.contains id) []
          outputs with
      | error error => rfl
      | ok _ =>
          dsimp only
          rw [retire, bind_eq, bind_eq]
          cases transitionAll .deleted ids partition with
          | error error marked => rfl
          | ok _ marked =>
              dsimp only
              rw [bind_eq]
              cases takeAll ids marked <;> rfl

theorem retire_revisions {ids : List FileId} {partition : Partition}
    (members : partition.expectStatus .compacting .deleted ids = .ok ()) :
    Revisions partition (leftBehind (retire ids partition)) :=
  bind_edits (transitionAll_shifts_of_expectStatus (by decide) members).revisions
    fun _ marked _ => takeAll_revisions ids marked

theorem contains_of_retire_eq_ok {ids : List FileId} {partition left : Partition}
    {removed : List DataFile} (outcome : retire ids partition = .ok removed left) (id : FileId) :
    left.contains id = (partition.contains id && !ids.contains id) := by
  rcases (bind_eq_ok_iff _ _ _ _ _).mp outcome with ⟨_, marked, moved, taken⟩
  rw [contains_of_takeAll_eq_ok taken, contains_of_transitionAll_eq_ok moved]

/-- Outputs that pass the check are fresh once the members have been retired. -/
theorem fresh_of_retire_eq_ok {ids : List FileId} {outputs removed : List DataFile}
    {partition left : Partition}
    (checked : expectNew .sequence (fun id => partition.contains id && !ids.contains id) []
      outputs = .ok ())
    (outcome : retire ids partition = .ok removed left) : left.Fresh outputs := by
  have free : (fun id => partition.contains id && !ids.contains id) = left.contains :=
    funext fun id => (contains_of_retire_eq_ok outcome id).symm
  rw [free] at checked
  exact fresh_of_expectNew checked

/-- Finishing either fails after revisions, or the outputs come in after them. -/
theorem finish_cases (ids : List FileId) (outputs : List DataFile) (partition : Partition) :
    (∃ error left, finish ids outputs partition = .error error left ∧ Revisions partition left) ∨
      ∃ removed left, finish ids outputs partition = .ok removed (left.insertAll outputs) ∧
        Revisions partition left ∧ left.Fresh outputs := by
  rw [finish_eq]
  split
  · rename_i error _
    exact .inl ⟨error, partition, rfl, .refl⟩
  rename_i members
  split
  · rename_i error _
    exact .inl ⟨error, partition, rfl, .refl⟩
  rename_i checked
  have revisions := retire_revisions members
  cases outcome : retire ids partition with
  | error error left =>
      rw [outcome] at revisions
      exact .inl ⟨error, left, rfl, revisions⟩
  | ok removed left =>
      rw [outcome] at revisions
      exact .inr ⟨removed, left, rfl, revisions, fresh_of_retire_eq_ok checked outcome⟩

/-! ## What every edit keeps -/

/-- What every change of a file keeps, every revision keeps of all files. -/
theorem Revision.forall_files {property : DataFile → Prop}
    (kept : ∀ file changed, file.Change changed → property file → property changed)
    {partition revised : Partition} (revision : Revision partition revised)
    (all : ∀ file ∈ partition.files, property file) : ∀ file ∈ revised.files, property file := by
  intro file member
  cases revision with
  | replace found change =>
      rw [files_replace] at member
      rcases List.mem_map.mp member with ⟨other, otherMember, rfl⟩
      split
      · exact kept _ _ change (all _ (mem_of_find?_eq_some found).1)
      · exact all other otherMember
  | erase id => exact all file ((mem_files_erase _ _ _).mp member).1

theorem Edit.valid {partition edited : Partition} (edit : Edit partition edited)
    (valid : ∀ file ∈ partition.files, file.Valid) : ∀ file ∈ edited.files, file.Valid := by
  have kept : ∀ file changed : DataFile, file.Change changed → file.Valid → changed.Valid :=
    fun _ _ change own => change.valid own
  cases edit with
  | insert newValid free =>
      intro file member
      rcases (mem_files_insert _ _ _).mp member with rfl | member
      · exact newValid
      · exact valid file member
  | replace found change => exact Revision.forall_files kept (.replace found change) valid
  | erase id => exact Revision.forall_files kept (.erase partition id) valid

theorem Built.valid {partition : Partition} (built : partition.Built) :
    ∀ file ∈ partition.files, file.Valid := by
  induction built with
  | refl => simp [files, empty]
  | tail _ edit ih => exact edit.valid ih

end Partition

end SeriesStore
