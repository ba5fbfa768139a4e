import SeriesStore.Selection.Config

/-!
# Candidates and drafts

A candidate is a group of files that are to be merged into new sequence files.
It grows as a draft, one unsequence file at a time together with the sequence
files that this one needs, and is frozen once it has files of both spaces.
-/

namespace SeriesStore.Selection

/-- A group of files that are to be merged. -/
structure Candidate where
  /-- The sequence members by ordering key and number. -/
  sequence : List DataFile
  /-- The unsequence members in the order in which they were selected. -/
  unsequence : List DataFile
  /-- The sizes of all members together. -/
  size : UInt64
deriving DecidableEq

namespace Candidate

/-- All members, sequence files first. -/
def files (candidate : Candidate) : List DataFile :=
  candidate.sequence ++ candidate.unsequence

/-- The numbers of all members, sequence files first. -/
def ids (candidate : Candidate) : List FileId :=
  candidate.files.map DataFile.id

/-- The number of members. -/
def count (candidate : Candidate) : Nat :=
  candidate.files.length

/-- Whether the file of the given number is a member. -/
def contains (candidate : Candidate) (id : FileId) : Bool :=
  candidate.files.any fun file => file.id == id

/-- The devices whose data is merged, each once and in order. -/
def devices (candidate : Candidate) : List String :=
  (SortedMap.ofList Text.compareUtf8
    (candidate.files.flatMap fun file => file.deviceNames.map fun name => (name, ()))).keys

end Candidate

/-- A candidate in the making. -/
structure Draft where
  sequence : List DataFile
  unsequence : List DataFile
  size : UInt64
deriving DecidableEq

namespace Draft

/-- The draft without files. -/
def empty : Draft :=
  ⟨[], [], 0⟩

/-- The number of files. -/
def count (draft : Draft) : Nat :=
  draft.sequence.length + draft.unsequence.length

/-- The targets that are not in the draft yet. -/
def missing (draft : Draft) (targets : List DataFile) : List DataFile :=
  targets.filter fun target => !draft.sequence.any fun file => file.id == target.id

/-- The size of an unsequence file together with sequence files. -/
def shareSize (late : DataFile) (added : List DataFile) : UInt64 :=
  added.foldl (fun size file => addCapped size file.size) late.size

/-- Whether the draft stays within the budget with one more unsequence file and
the sequence files that it adds. -/
def fits (config : Config) (draft : Draft) (late : DataFile) (added : List DataFile) : Bool :=
  draft.count + (1 + added.length) ≤ config.maxFiles &&
    addCapped draft.size (shareSize late added) ≤ config.maxSize

/-- Takes an unsequence file and the sequence files that it adds. -/
def commit (draft : Draft) (late : DataFile) (added : List DataFile) : Draft where
  sequence := draft.sequence ++ added
  unsequence := draft.unsequence ++ [late]
  size := addCapped draft.size (shareSize late added)

/-- The candidate that the draft has become, if it has files of both spaces. -/
def freeze? (draft : Draft) : Option Candidate :=
  if draft.sequence.isEmpty || draft.unsequence.isEmpty then
    none
  else
    some {
      sequence := draft.sequence.mergeSort DataFile.comesFirst
      unsequence := draft.unsequence
      size := draft.size
    }

@[simp]
theorem freeze?_empty : empty.freeze? = none := rfl

end Draft

end SeriesStore.Selection
