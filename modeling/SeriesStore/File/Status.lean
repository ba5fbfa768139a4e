/-!
# Spaces and the lifecycle of a file

Every file belongs to one of two spaces for its whole life.  Its status moves
along the lifecycle

    unclosed ──> closed ──> candidate ──> compacting ──> deleted
                 │   ^──────────┴─────────────┘             ^
                 └──────────────────────────────────────────┘

in which a candidate is given back by a release and a compacting file by an
abort.  `Status.canBecome` is this picture as a function.
-/

namespace SeriesStore

/-- The two spaces of a partition.  Sequence files are written in time order,
unsequence files hold late data and may overlap anything. -/
inductive Space where
  | sequence
  | unsequence
deriving DecidableEq

namespace Space

/-- Both spaces, in the order in which they are listed. -/
def all : List Space :=
  [.sequence, .unsequence]

/-- The byte that stands for a space in a sidecar. -/
def code : Space → UInt8
  | .sequence => 0
  | .unsequence => 1

/-- The space that a byte stands for. -/
def ofCode? : UInt8 → Option Space
  | 0 => some .sequence
  | 1 => some .unsequence
  | _ => none

/-- The name of the directory that holds the files of a space. -/
def directoryName : Space → String
  | .sequence => "sequence"
  | .unsequence => "unsequence"

@[simp]
theorem ofCode?_code (space : Space) : ofCode? space.code = some space := by
  cases space <;> rfl

theorem code_of_ofCode? {byte : UInt8} {space : Space} (known : ofCode? byte = some space) :
    space.code = byte := by
  unfold ofCode? at known
  split at known <;> cases known <;> rfl

end Space

/-- The lifecycle status of a file. -/
inductive Status where
  /-- Data is still being written to the file. -/
  | unclosed
  /-- The file is sealed and may be selected. -/
  | closed
  /-- A selected group of files has claimed the file. -/
  | candidate
  /-- The file is being merged into new ones. -/
  | compacting
  /-- The file has left the store. -/
  | deleted
deriving DecidableEq

namespace Status

/-- The moves that the lifecycle allows. -/
def canBecome : Status → Status → Bool
  | .unclosed, .closed => true
  | .closed, .candidate => true
  | .closed, .deleted => true
  | .candidate, .compacting => true
  | .candidate, .closed => true
  | .compacting, .deleted => true
  | .compacting, .closed => true
  | _, _ => false

/-- Whether a file of this status may join a group that is to be merged. -/
def isSelectable (status : Status) : Bool :=
  status = .closed

/-- Whether a file of this status belongs to a group that was claimed. -/
def isClaimed (status : Status) : Bool :=
  status = .candidate ∨ status = .compacting

/-- The byte that stands for a status in a sidecar. -/
def code : Status → UInt8
  | .unclosed => 0
  | .closed => 1
  | .candidate => 2
  | .compacting => 3
  | .deleted => 4

/-- The status that a byte stands for. -/
def ofCode? : UInt8 → Option Status
  | 0 => some .unclosed
  | 1 => some .closed
  | 2 => some .candidate
  | 3 => some .compacting
  | 4 => some .deleted
  | _ => none

/-- The name of a status in messages. -/
def name : Status → String
  | .unclosed => "Unclosed"
  | .closed => "Closed"
  | .candidate => "CompactionCandidate"
  | .compacting => "Compacting"
  | .deleted => "Deleted"

@[simp]
theorem ofCode?_code (status : Status) : ofCode? status.code = some status := by
  cases status <;> rfl

theorem code_of_ofCode? {byte : UInt8} {status : Status} (known : ofCode? byte = some status) :
    status.code = byte := by
  unfold ofCode? at known
  split at known <;> cases known <;> rfl

/-- No move leaves the deleted status. -/
@[simp]
theorem canBecome_deleted (next : Status) : deleted.canBecome next = false := by
  cases next <;> rfl

end Status

end SeriesStore
