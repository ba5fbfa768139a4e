import SeriesStore.Proofs.Registry.Claiming

/-!
# Members and their spaces

A selection looks at the space that a given file says and goes on with the snapshot's file of
its number, whose space it does not compare with the list.  So a given file that tells the
space of the snapshot's file keeps that file out of the wrong list, since it is refused there
itself.  One that tells the other space is accepted, and the snapshot's file becomes a member
in the list of the space to which it does not belong.
-/

namespace SeriesStore

/-- The snapshot's files of a space. -/
def Snapshot.filesOf (snapshot : Snapshot) : Space → List DataFile
  | .sequence => snapshot.sequence
  | .unsequence => snapshot.unsequence

theorem Snapshot.mem_filesOf_iff {snapshot : Snapshot} (sound : snapshot.partition.Sound)
    (space : Space) (file : DataFile) :
    file ∈ snapshot.filesOf space ↔ file ∈ snapshot.partition.files ∧ file.space = space := by
  cases space with
  | sequence => exact sound.mem_sequence_iff file
  | unsequence => exact sound.mem_unsequence_iff file

namespace Selection

/-- Whether a given file says the space of the snapshot's file of its number, if there is one. -/
def Truthful (snapshot : Snapshot) (given : DataFile) : Prop :=
  ∀ recorded, snapshot.find? given.id = some recorded → given.space = recorded.space

/-- How a file of the snapshot became a member in the list of a space: a given file of its
number says this space, and the member has it exactly if the given file told the truth. -/
structure Sourced (snapshot : Snapshot) (space : Space) (given : List DataFile)
    (member : DataFile) : Prop where
  recorded : snapshot.find? member.id = some member
  listed : member ∈ snapshot.filesOf member.space
  named : ∃ file ∈ given, file.id = member.id ∧ file.space = space ∧
    (member.space = space ↔ Truthful snapshot file)

/-- A selection succeeds exactly on input of which every file is accepted. -/
theorem exists_selectFrom_iff (config : Config) (snapshot : Snapshot)
    (sequence unsequence : List DataFile) :
    (∃ candidates, selectFrom config snapshot sequence unsequence = .ok candidates) ↔
      AcceptsAll snapshot .sequence [] sequence ∧
        AcceptsAll snapshot .unsequence (sequence.map DataFile.id) unsequence := by
  constructor
  · rintro ⟨candidates, selected⟩
    rcases resolveInput_of_selectFrom selected with ⟨early, late, resolved⟩
    exact (resolveInput_eq_ok_iff.mp resolved).1
  · intro accepts
    exact exists_selectFrom (resolveInput_eq_ok_iff.mpr ⟨accepts, rfl, rfl⟩) config

section Members

variable {snapshot : Snapshot} {space : Space}
  {seen : List FileId} {given : List DataFile} {member file : DataFile}

/-- A given file is truthful when the snapshot's file of its number has the space that it
says. -/
theorem truthful_iff (found : snapshot.find? file.id = some member) :
    Truthful snapshot file ↔ file.space = member.space := by
  constructor
  · exact fun truthful => truthful member found
  · intro same recorded other
    rw [found] at other
    cases other
    exact same

theorem Sourced.of_accepts (sound : snapshot.partition.Sound)
    (accepts : AcceptsAll snapshot space seen given)
    (recorded : snapshot.find? member.id = some member)
    (named : member.id ∈ given.map DataFile.id) : Sourced snapshot space given member := by
  obtain ⟨file, inGiven, same⟩ := List.mem_map.mp named
  obtain ⟨_, accepted⟩ := accepts.accepted file inGiven
  refine ⟨recorded, ?_, file, inGiven, same, accepted.placed, ?_⟩
  · rw [Snapshot.mem_filesOf_iff sound]
    exact ⟨(Partition.mem_of_find?_eq_some recorded).1, rfl⟩
  · rw [truthful_iff (same ▸ recorded), accepted.placed, eq_comm]

/-- A member that a truthful file named is in the list of its space. -/
theorem Sourced.placed (source : Sourced snapshot space given member)
    (truthful : ∀ file ∈ given, Truthful snapshot file) :
    member.space = space ∧ member ∈ snapshot.filesOf space := by
  obtain ⟨named, inGiven, _, _, space_iff⟩ := source.named
  have space_eq := space_iff.mpr (truthful named inGiven)
  exact ⟨space_eq, space_eq ▸ source.listed⟩

/-- Among accepted files no truthful one names a file of another space. -/
theorem space_eq_of_truthful (sound : snapshot.partition.Sound)
    (accepts : AcceptsAll snapshot space seen given) (inGiven : file ∈ given)
    (truthful : Truthful snapshot file) {own : Space} (listed : member ∈ snapshot.filesOf own)
    (same : file.id = member.id) : own = space := by
  obtain ⟨_, accepted⟩ := accepts.accepted file inGiven
  obtain ⟨registered, member_space⟩ := (Snapshot.mem_filesOf_iff sound own member).mp listed
  have found : snapshot.find? file.id = some member :=
    (Partition.Distinct.find?_eq_some_iff sound.distinct _ _).mpr ⟨registered, same.symm⟩
  rw [← member_space, ← (truthful_iff found).mp truthful, accepted.placed]

end Members

section Selected

variable {snapshot : Snapshot} (sound : snapshot.partition.Sound) {config : Config}
  {sequence unsequence : List DataFile}

include sound

theorem sourced_of_selectFrom {candidates : List Candidate} {candidate : Candidate}
    (selected : selectFrom config snapshot sequence unsequence = .ok candidates)
    (made : candidate ∈ candidates) :
    (∀ file ∈ candidate.sequence, Sourced snapshot .sequence sequence file) ∧
      ∀ file ∈ candidate.unsequence, Sourced snapshot .unsequence unsequence file := by
  obtain ⟨acceptsEarly, acceptsLate⟩ :=
    (exists_selectFrom_iff _ _ _ _).mp ⟨candidates, selected⟩
  obtain ⟨early, late, resolved⟩ := resolveInput_of_selectFrom selected
  have facts := sound_of_selectFrom resolved selected made
  constructor
  · intro file member
    exact .of_accepts sound acceptsEarly
      (facts.recorded file (List.mem_append_left _ member)) (facts.sequence_given file member)
  · intro file member
    exact .of_accepts sound acceptsLate
      (facts.recorded file (List.mem_append_right _ member)) (facts.unsequence_given file member)

/-- Truthful input that names a file in the list of the other space is refused. -/
theorem exists_error_of_misplaced
    (truthful : ∀ given ∈ sequence ++ unsequence, Truthful snapshot given)
    (misplaced : (∃ given ∈ sequence, ∃ file ∈ snapshot.unsequence, given.id = file.id) ∨
      ∃ given ∈ unsequence, ∃ file ∈ snapshot.sequence, given.id = file.id) :
    ∃ error, selectFrom config snapshot sequence unsequence = .error error := by
  cases outcome : selectFrom config snapshot sequence unsequence with
  | error error => exact ⟨error, rfl⟩
  | ok candidates =>
      exfalso
      obtain ⟨acceptsEarly, acceptsLate⟩ :=
        (exists_selectFrom_iff _ _ _ _).mp ⟨candidates, outcome⟩
      rcases misplaced with ⟨given, inGiven, file, listed, same⟩ |
        ⟨given, inGiven, file, listed, same⟩
      · have honest := truthful given (List.mem_append_left _ inGiven)
        have impossible : Space.unsequence = .sequence :=
          space_eq_of_truthful sound acceptsEarly inGiven honest listed same
        contradiction
      · have honest := truthful given (List.mem_append_right _ inGiven)
        have impossible : Space.sequence = .unsequence :=
          space_eq_of_truthful sound acceptsLate inGiven honest listed same
        contradiction

end Selected

/-- A selection succeeds exactly if all given files are accepted, which depends on the spaces
that they say and not on those of the snapshot's files.  Every member is a file of the snapshot
and stands there in the list of its own space; it is a member in the list of the space that the
given file of its number said.  So when all given files are truthful, sequence members are
sequence files from the snapshot's sequence list and unsequence members unsequence files from
its unsequence list, and naming a file of the snapshot in the list of the other space makes the
selection fail. -/
theorem members_in_declared_space {registry : Registry} (reachable : registry.Reachable)
    (key : PartitionKey) (config : Config) (sequence unsequence : List DataFile) :
    ((∃ candidates,
        selectFrom config (registry.snapshot key) sequence unsequence = .ok candidates) ↔
      AcceptsAll (registry.snapshot key) .sequence [] sequence ∧
        AcceptsAll (registry.snapshot key) .unsequence (sequence.map DataFile.id) unsequence) ∧
    (∀ candidates,
      selectFrom config (registry.snapshot key) sequence unsequence = .ok candidates →
        ∀ candidate ∈ candidates,
          (∀ file ∈ candidate.sequence,
            Sourced (registry.snapshot key) .sequence sequence file) ∧
          ∀ file ∈ candidate.unsequence,
            Sourced (registry.snapshot key) .unsequence unsequence file) ∧
    ((∀ given ∈ sequence ++ unsequence, Truthful (registry.snapshot key) given) →
      (∀ candidates,
        selectFrom config (registry.snapshot key) sequence unsequence = .ok candidates →
          ∀ candidate ∈ candidates,
            (∀ file ∈ candidate.sequence,
              file.space = .sequence ∧ file ∈ (registry.snapshot key).sequence) ∧
            ∀ file ∈ candidate.unsequence,
              file.space = .unsequence ∧ file ∈ (registry.snapshot key).unsequence) ∧
      ((∃ given ∈ sequence, ∃ file ∈ (registry.snapshot key).unsequence, given.id = file.id) ∨
          (∃ given ∈ unsequence, ∃ file ∈ (registry.snapshot key).sequence,
            given.id = file.id) →
        ∃ error,
          selectFrom config (registry.snapshot key) sequence unsequence = .error error)) := by
  obtain ⟨log, consistent⟩ := reachable.consistent key
  have sound := consistent.sound
  refine ⟨exists_selectFrom_iff _ _ _ _, ?_, fun truthful => ⟨?_, ?_⟩⟩
  · exact fun candidates selected candidate made => sourced_of_selectFrom sound selected made
  · rw [List.forall_mem_append] at truthful
    intro candidates selected candidate made
    obtain ⟨inSequence, inUnsequence⟩ := sourced_of_selectFrom sound selected made
    exact ⟨fun file member => (inSequence file member).placed truthful.1,
      fun file member => (inUnsequence file member).placed truthful.2⟩
  · exact exists_error_of_misplaced sound truthful

end Selection

/-! ## Given files that say the other space

File 1 is a sequence file and file 2 an unsequence file.  Each is given in the list of the
other space, by a file of its number that says that space. -/

namespace Sample

open Selection

def bothSpaces : Registry :=
  (Registry.empty.serve (.addAll key .sequence [file .sequence .closed 1 [("a", ⟨0, 10⟩)]])).serve
    (.addAll key .unsequence [file .unsequence .closed 2 [("a", ⟨4, 6⟩)]])

theorem bothSpaces_reachable : bothSpaces.Reachable :=
  (Registry.Reachable.empty.served _).served _

/-- The candidate whose members have changed places. -/
def crossed : Candidate :=
  ⟨[file .unsequence .closed 2 [("a", ⟨4, 6⟩)]], [file .sequence .closed 1 [("a", ⟨0, 10⟩)]], 30⟩

theorem selectFrom_bothSpaces :
    selectFrom {} (bothSpaces.snapshot key) [file .sequence .closed 2 []]
      [file .unsequence .closed 1 []] = .ok [crossed] := by
  cbv

end Sample

namespace Selection

/-- When the two lists are exchanged the selection fails, but with files that say the other
space the members change places. -/
theorem members_in_declared_space_sample :
    (∃ error, selectFrom {} (Sample.bothSpaces.snapshot Sample.key)
      [Sample.file .unsequence .closed 2 []] [Sample.file .sequence .closed 1 []] =
        .error error) ∧
    ∀ member ∈ Sample.crossed.sequence, Sourced (Sample.bothSpaces.snapshot Sample.key) .sequence
      [Sample.file .sequence .closed 2 []] member := by
  have exchanged := members_in_declared_space Sample.bothSpaces_reachable Sample.key {}
    [Sample.file .unsequence .closed 2 []] [Sample.file .sequence .closed 1 []]
  have disguised := members_in_declared_space Sample.bothSpaces_reachable Sample.key {}
    [Sample.file .sequence .closed 2 []] [Sample.file .unsequence .closed 1 []]
  constructor
  · have second : (Sample.bothSpaces.snapshot Sample.key).find? 2 =
        some (Sample.file .unsequence .closed 2 [("a", ⟨4, 6⟩)]) := by
      decide +kernel
    have first : (Sample.bothSpaces.snapshot Sample.key).find? 1 =
        some (Sample.file .sequence .closed 1 [("a", ⟨0, 10⟩)]) := by
      decide +kernel
    have listed : Sample.file .unsequence .closed 2 [("a", ⟨4, 6⟩)] ∈
        (Sample.bothSpaces.snapshot Sample.key).unsequence := by
      decide +kernel
    refine (exchanged.2.2 ?_).2 (.inl ⟨_, List.mem_singleton_self _, _, listed, rfl⟩)
    rw [List.singleton_append, List.forall_mem_cons, List.forall_mem_singleton]
    exact ⟨(truthful_iff second).mpr (by decide), (truthful_iff first).mpr (by decide)⟩
  · exact (disguised.2.1 _ Sample.selectFrom_bothSpaces _ (List.mem_singleton_self _)).1

/-- A file of the snapshot becomes a member in the list of the space to which it does not
belong. -/
theorem misdeclared_files_change_places :
    Sample.bothSpaces.Reachable ∧
      ∃ candidates candidate,
        selectFrom {} (Sample.bothSpaces.snapshot Sample.key) [Sample.file .sequence .closed 2 []]
          [Sample.file .unsequence .closed 1 []] = .ok candidates ∧
        candidate ∈ candidates ∧
        (∃ file ∈ candidate.sequence,
          file.space = .unsequence ∧ file ∉ (Sample.bothSpaces.snapshot Sample.key).sequence) ∧
        ∃ file ∈ candidate.unsequence,
          file.space = .sequence ∧ file ∉ (Sample.bothSpaces.snapshot Sample.key).unsequence := by
  refine ⟨Sample.bothSpaces_reachable, _, _, Sample.selectFrom_bothSpaces,
    List.mem_singleton_self _, ?_⟩
  decide +kernel

end Selection

end SeriesStore
