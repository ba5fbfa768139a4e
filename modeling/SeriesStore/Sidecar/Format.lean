import SeriesStore.File.Basic
import SeriesStore.Sidecar.Checksum
import SeriesStore.Sidecar.Reader

/-!
# The sidecar format

A sidecar holds the metadata of one data file:

* a header of 44 bytes: the opening mark, the version, the codes of space and
  status, number, ordering key and size, both levels and the count of devices;
* one entry for every device: the length of its name, the name in UTF-8, the
  kind of its span and both its timestamps;
* a footer of 8 bytes: the checksum of all bytes before it and the closing mark.

All numbers are little-endian.  A `Record` is what the bytes spell out before it
is taken for a file: its entries may repeat a device and may come in any order.
`Record.toFile` lets the last entry of a device win, and `Record.ofFile` lists
the devices in order, so writing a file always gives the same bytes.

## Reading

The footer is checked first, so damage is noticed before any field is believed.
Fields are then checked in the order in which they stand.
-/

namespace SeriesStore.Sidecar

/-- The four bytes at the start of a sidecar. -/
def openingMark : List UInt8 :=
  [0x53, 0x52, 0x45, 0x53]

/-- The four bytes at the end of a sidecar. -/
def closingMark : List UInt8 :=
  [0x53, 0x45, 0x52, 0x53]

/-- The version that is written and the only one that is read. -/
def version : Nat :=
  1

/-- The number of bytes before the entries. -/
def headerSize : Nat :=
  44

/-- The number of bytes after the entries. -/
def footerSize : Nat :=
  8

/-- The longest device name in bytes. -/
def maxNameSize : Nat :=
  65535

/-- What the bytes of a sidecar spell out. -/
structure Record where
  space : Space
  status : Status
  id : FileId
  orderingKey : UInt64
  size : UInt64
  innerLevel : UInt32
  crossLevel : UInt32
  entries : List (String × DeviceSpan)
deriving DecidableEq

/-- The byte that stands for the kind of a span. -/
def spanKind : DeviceSpan → UInt8
  | .closed _ => 0
  | .growing .. => 1

/-- The span of the kind that a byte stands for. -/
def spanOfKind? (kind : UInt8) (start stop : Timestamp) : Option DeviceSpan :=
  match kind with
  | 0 => some (.closed ⟨start, stop⟩)
  | 1 => some (.growing start stop)
  | _ => none

/-- The bytes of a timestamp. -/
def timestampBytes (time : Timestamp) : List UInt8 :=
  wordBytes 8 time.toUInt64.toNat

/-- The bytes of one entry. -/
def entryBytes (entry : String × DeviceSpan) : List UInt8 :=
  wordBytes 2 (Text.utf8 entry.1).length ++ Text.utf8 entry.1 ++ [spanKind entry.2] ++
    timestampBytes entry.2.start ++ timestampBytes entry.2.lastWrite

namespace Record

/-- The bytes before the entries. -/
def headerBytes (record : Record) : List UInt8 :=
  openingMark ++ wordBytes 2 version ++ [record.space.code, record.status.code] ++
    wordBytes 8 record.id.toNat ++ wordBytes 8 record.orderingKey.toNat ++
    wordBytes 8 record.size.toNat ++ wordBytes 4 record.innerLevel.toNat ++
    wordBytes 4 record.crossLevel.toNat ++ wordBytes 4 record.entries.length

/-- The bytes before the footer. -/
def bodyBytes (record : Record) : List UInt8 :=
  record.headerBytes ++ record.entries.flatMap entryBytes

/-- The record of a file, with its devices in order. -/
def ofFile (file : DataFile) : Record where
  space := file.space
  status := file.status
  id := file.id
  orderingKey := file.orderingKey
  size := file.size
  innerLevel := file.innerLevel
  crossLevel := file.crossLevel
  entries := file.devices.entries

/-- The file of a record.  The last entry of a device counts, and the last write
of a growing span is raised to its start. -/
def toFile (record : Record) : DataFile where
  id := record.id
  space := record.space
  status := record.status
  orderingKey := record.orderingKey
  size := record.size
  innerLevel := record.innerLevel
  crossLevel := record.crossLevel
  devices := .ofList _ (record.entries.map fun entry => (entry.1, entry.2.normalize))

end Record

/-- The footer that belongs to a body. -/
def footerBytes (body : List UInt8) : List UInt8 :=
  wordBytes 4 (checksum body).toNat ++ closingMark

/-- A body with its footer. -/
def withFooter (body : List UInt8) : List UInt8 :=
  body ++ footerBytes body

/-- The bytes of the first name in the list that is too long for the format. -/
def longName? (entries : List (String × DeviceSpan)) : Option Nat :=
  (entries.map fun entry => (Text.utf8 entry.1).length).find? fun size => maxNameSize < size

/-- Writes the sidecar of a file, unless the name of a device does not fit. -/
def encode (file : DataFile) : Except Error (List UInt8) :=
  match longName? file.devices.entries with
  | some size => .error (.malformed file.id (.nameTooLong size))
  | none => .ok (withFooter (Record.ofFile file).bodyBytes)

/-- Reads the name of a device. -/
def readName : Reader String := do
  let size ← Reader.word 2
  let name ← Reader.bytes size
  match String.fromUTF8? name.toByteArray with
  | some name => return name
  | none => throw (.damaged .invalidName)

/-- Reads one entry.  The kind is checked after both timestamps are there. -/
def readEntry : Reader (String × DeviceSpan) := do
  let device ← readName
  let kind ← Reader.byte
  let start ← Reader.timestamp
  let stop ← Reader.timestamp
  match spanOfKind? kind start stop with
  | some span => return (device, span)
  | none => throw (.damaged (.unknownSpanKind kind))

/-- Reads the opening mark. -/
def readOpeningMark : Reader Unit := do
  let mark ← Reader.bytes 4
  if mark ≠ openingMark then
    throw (.wrongMark mark)

/-- Reads the version. -/
def readVersion : Reader Unit := do
  let found ← Reader.word 2
  if found ≠ version then
    throw (.unsupportedVersion found)

/-- Reads the code of a space. -/
def readSpace : Reader Space := do
  let code ← Reader.byte
  match Space.ofCode? code with
  | some space => return space
  | none => throw (.damaged (.unknownSpace code))

/-- Reads the code of a status. -/
def readStatus : Reader Status := do
  let code ← Reader.byte
  match Status.ofCode? code with
  | some status => return status
  | none => throw (.damaged (.unknownStatus code))

/-- Reads a record and the end of the body. -/
def readRecord : Reader Record := do
  readOpeningMark
  readVersion
  let space ← readSpace
  let status ← readStatus
  let id ← Reader.word 8
  let orderingKey ← Reader.word 8
  let size ← Reader.word 8
  let innerLevel ← Reader.word 4
  let crossLevel ← Reader.word 4
  let count ← Reader.word 4
  let entries ← Reader.repeated readEntry count
  Reader.atEnd
  return {
    space := space
    status := status
    id := UInt64.ofNat id
    orderingKey := UInt64.ofNat orderingKey
    size := UInt64.ofNat size
    innerLevel := UInt32.ofNat innerLevel
    crossLevel := UInt32.ofNat crossLevel
    entries := entries
  }

/-- Checks the footer of a sidecar and returns its body. -/
def checkedBody (bytes : List UInt8) : Except Error (List UInt8) :=
  if bytes.length < headerSize + footerSize then
    .error (.damaged (.tooShort bytes.length))
  else
    let body := bytes.take (bytes.length - footerSize)
    let footer := bytes.drop (bytes.length - footerSize)
    let stored := wordValue (footer.take 4)
    let computed := (checksum body).toNat
    if footer.drop 4 ≠ closingMark then
      .error (.wrongMark (footer.drop 4))
    else if stored ≠ computed then
      .error (.checksumMismatch stored computed)
    else
      .ok body

/-- Reads a sidecar. -/
def decode (bytes : List UInt8) : Except Error DataFile := do
  let body ← checkedBody bytes
  let (record, _) ← readRecord.run ⟨0, body⟩
  return record.toFile

end SeriesStore.Sidecar
