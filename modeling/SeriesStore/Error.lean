import SeriesStore.File.Status
import SeriesStore.Partition.Key
import SeriesStore.Time.Interval

/-!
# Errors

An error says what went wrong as data: which file, which device, which bytes.
The wording is in one place only, the `message` functions below.  A stale view
is the one error after which the same request may succeed on a fresh view.
-/

namespace SeriesStore

/-- The number of a file, unique inside its partition. -/
abbrev FileId := UInt64

/-- How the metadata of a file can be malformed. -/
inductive Malformation where
  /-- A growing span in a file that is no longer written. -/
  | growingSpan (device : String)
  /-- A closed span whose start lies after its stop. -/
  | invertedSpan (device : String) (interval : Interval)
  /-- A file of the other space. -/
  | wrongSpace
  /-- A number that occurs twice. -/
  | listedTwice
  /-- A growing span that is to be sealed without an end. -/
  | missingEnd (device : String)
  /-- An end that would cut off data already written. -/
  | endBeforeLastWrite (device : String) (lastWrite stop : Timestamp)
  /-- A device name whose length does not fit the sidecar format. -/
  | nameTooLong (bytes : Nat)
deriving DecidableEq

/-- How a file can differ from the view on which a decision was made. -/
inductive Staleness where
  /-- The file has left the registry. -/
  | unregistered
  /-- The file has another status now. -/
  | statusChanged (current : Status)
  /-- The file is not in the snapshot. -/
  | notInSnapshot
  /-- The file was deleted. -/
  | deleted
  /-- The file has another status in the snapshot. -/
  | statusDiffers (given recorded : Status)
deriving DecidableEq

/-- Why the content of a sidecar has no reading, or not at its place. -/
inductive Damage where
  | tooShort (bytes : Nat)
  | unknownSpace (code : UInt8)
  | unknownStatus (code : UInt8)
  | unknownSpanKind (code : UInt8)
  | invalidName
  | endsEarly (offset : Nat)
  | trailingBytes (count : Nat)
  | misplaced (path : String)
deriving DecidableEq

/-- Why a request to the directory tree failed. -/
inductive DiskFault where
  | missing
  | notDirectory
  | isDirectory
  | nameTooLong
  | invalidPath
deriving DecidableEq

/-- Why an operation of the store failed. -/
inductive Error where
  | stale (file : FileId) (cause : Staleness)
  | malformed (file : FileId) (cause : Malformation)
  | illegalTransition (file : FileId) (source target : Status)
  | fileNotFound (file : FileId)
  | fileSealed (file : FileId)
  | partitionNotFound (key : PartitionKey)
  | wrongMark (found : List UInt8)
  | unsupportedVersion (version : Nat)
  | checksumMismatch (stored computed : Nat)
  | damaged (cause : Damage)
  | disk (cause : DiskFault)
deriving DecidableEq

namespace Malformation

/-- The wording of a malformation. -/
def message : Malformation → String
  | .growingSpan device => "closed file has open range for device " ++ device
  | .invertedSpan device interval =>
      "device " ++ device ++ " has inverted range [" ++ Text.writeInt interval.start.toInt ++
        ", " ++ Text.writeInt interval.stop.toInt ++ "]"
  | .wrongSpace => "file listed in the wrong space"
  | .listedTwice => "file listed twice"
  | .missingEnd device => "no end time supplied for open device " ++ device
  | .endBeforeLastWrite device lastWrite stop =>
      "end time " ++ Text.writeInt stop.toInt ++ " for device " ++ device ++
        " is before its last write at " ++ Text.writeInt lastWrite.toInt
  | .nameTooLong bytes =>
      "device name of " ++ Text.writeNat bytes ++ " bytes does not fit the resource format"

end Malformation

namespace Staleness

/-- The wording of a stale view. -/
def message : Staleness → String
  | .unregistered => "file no longer registered"
  | .statusChanged current => "status changed to " ++ current.name
  | .notInSnapshot => "not present in snapshot"
  | .deleted => "file was deleted"
  | .statusDiffers given recorded =>
      "status " ++ given.name ++ " differs from snapshot " ++ recorded.name

end Staleness

namespace Damage

/-- The wording of a damage. -/
def message : Damage → String
  | .tooShort bytes => "resource too short: " ++ Text.writeNat bytes ++ " bytes"
  | .unknownSpace code => "unknown space " ++ Text.writeNat code.toNat
  | .unknownStatus code => "unknown status " ++ Text.writeNat code.toNat
  | .unknownSpanKind code => "unknown device range kind " ++ Text.writeNat code.toNat
  | .invalidName => "device name: <invalid utf-8>"
  | .endsEarly offset => "unexpected end of resource at offset " ++ Text.writeNat offset
  | .trailingBytes count => Text.writeNat count ++ " trailing bytes"
  | .misplaced path => "resource " ++ path ++ " does not match its location"

end Damage

namespace DiskFault

/-- The wording of a failed request to the directory tree. -/
def message : DiskFault → String
  | .missing => "no such file or directory"
  | .notDirectory => "not a directory"
  | .isDirectory => "is a directory"
  | .nameTooLong => "name too long"
  | .invalidPath => "invalid path"

end DiskFault

namespace Error

/-- The wording of an error. -/
def message : Error → String
  | .stale file cause =>
      "Concurrent modification of file " ++ Text.writeNat file.toNat ++ ": " ++ cause.message
  | .malformed file cause =>
      "Invariant violation on file " ++ Text.writeNat file.toNat ++ ": " ++ cause.message
  | .illegalTransition file source target =>
      "Illegal status transition for file " ++ Text.writeNat file.toNat ++ ": " ++ source.name ++
        " -> " ++ target.name
  | .fileNotFound file => "File not found: " ++ Text.writeNat file.toNat
  | .fileSealed file => "File " ++ Text.writeNat file.toNat ++ " is not accepting writes"
  | .partitionNotFound key => "Partition not found: " ++ key.label
  | .wrongMark found =>
      "Invalid magic bytes: expected SRES, got [" ++
        String.intercalate ", " (found.map fun byte => Text.writeNat byte.toNat) ++ "]"
  | .unsupportedVersion version => "Unsupported version: " ++ Text.writeNat version
  | .checksumMismatch stored computed =>
      "Checksum mismatch: expected " ++ Text.writeNat stored ++ ", got " ++
        Text.writeNat computed
  | .damaged cause => "Corrupted resource file: " ++ cause.message
  | .disk cause => "I/O error: " ++ cause.message

/-- Whether the same request may succeed on a fresh view. -/
def isRetryable : Error → Bool
  | .stale .. => true
  | _ => false

end Error

end SeriesStore
