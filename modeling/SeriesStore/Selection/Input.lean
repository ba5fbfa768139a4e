import SeriesStore.Partition.Snapshot

/-!
# The input of a selection

A selection may be given any list of files, but it works on the snapshot's own
files of the same numbers.  A given file must be well placed and well formed by
itself and must have its status in common with the snapshot; everything else is
taken from there.
-/

namespace SeriesStore.Selection

/-- The snapshot's file for a given one.  `seen` are the numbers that were given
before. -/
def resolve (snapshot : Snapshot) (space : Space) (seen : List FileId) (given : DataFile) :
    Except Error DataFile :=
  if given.space ≠ space then
    .error (.malformed given.id .wrongSpace)
  else if seen.contains given.id then
    .error (.malformed given.id .listedTwice)
  else
    match given.validate with
    | .error error => .error error
    | .ok () =>
        match snapshot.find? given.id with
        | none => .error (.stale given.id .notInSnapshot)
        | some recorded =>
            if recorded.status = .deleted ∨ given.status = .deleted then
              .error (.stale given.id .deleted)
            else if recorded.status ≠ given.status then
              .error (.stale given.id (.statusDiffers given.status recorded.status))
            else
              .ok recorded

/-- The snapshot's files for a list of given ones, in the same order. -/
def resolveAll (snapshot : Snapshot) (space : Space) (seen : List FileId) :
    List DataFile → Except Error (List DataFile)
  | [] => .ok []
  | given :: rest =>
      match resolve snapshot space seen given with
      | .error error => .error error
      | .ok recorded =>
          match resolveAll snapshot space (given.id :: seen) rest with
          | .error error => .error error
          | .ok others => .ok (recorded :: others)

/-- The resolved sequence files by ordering key and number, and the resolved
unsequence files in the given order. -/
def resolveInput (snapshot : Snapshot) (sequence unsequence : List DataFile) :
    Except Error (List DataFile × List DataFile) :=
  match resolveAll snapshot .sequence [] sequence with
  | .error error => .error error
  | .ok early =>
      match resolveAll snapshot .unsequence (sequence.map DataFile.id) unsequence with
      | .error error => .error error
      | .ok late => .ok (early.mergeSort DataFile.comesFirst, late)

end SeriesStore.Selection
