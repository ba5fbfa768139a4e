import SeriesStore.File.Basic
import SeriesStore.Text.Decimal
import SeriesStore.Text.Fields

/-!
# File names

The name of a data file spells out the four numbers by which a file is found
again: ordering key, number, inner level and cross level, joined by `-`.  Its
sidecar has the same name with one more ending.  The reader takes either name
and every spelling of the numbers that `Text.readNat?` takes.
-/

namespace SeriesStore

/-- The numbers in the name of a data file. -/
structure FileName where
  orderingKey : UInt64
  id : FileId
  innerLevel : UInt32
  crossLevel : UInt32
deriving DecidableEq

namespace FileName

/-- The ending of a data file. -/
def dataEnding : String :=
  ".tsfile"

/-- The ending of a sidecar, which contains that of its data file. -/
def sidecarEnding : String :=
  ".tsfile.resource"

/-- The name of a file. -/
def ofFile (file : DataFile) : FileName where
  orderingKey := file.orderingKey
  id := file.id
  innerLevel := file.innerLevel
  crossLevel := file.crossLevel

/-- The four numbers joined by `-`. -/
def stem (name : FileName) : String :=
  Text.writeNat name.orderingKey.toNat ++ "-" ++ Text.writeNat name.id.toNat ++ "-" ++
    Text.writeNat name.innerLevel.toNat ++ "-" ++ Text.writeNat name.crossLevel.toNat

/-- The name of the data file. -/
def dataName (name : FileName) : String :=
  name.stem ++ dataEnding

/-- The name of the sidecar. -/
def sidecarName (name : FileName) : String :=
  name.stem ++ sidecarEnding

/-- What stands before `ending` in a text that ends in it. -/
def beforeEnding? (ending : String) (text : List Char) : Option (List Char) :=
  if ending.toList.isSuffixOf text then
    some (text.take (text.length - ending.toList.length))
  else
    none

/-- Reads the four numbers between the marks. -/
def ofFields? : List (List Char) → Option FileName
  | [orderingKey, id, innerLevel, crossLevel] => do
      let orderingKey ← Text.readUInt64? orderingKey
      let id ← Text.readUInt64? id
      let innerLevel ← Text.readUInt32? innerLevel
      let crossLevel ← Text.readUInt32? crossLevel
      return ⟨orderingKey, id, innerLevel, crossLevel⟩
  | _ => none

/-- Reads the name of a sidecar or of a data file. -/
def parse? (text : String) : Option FileName := do
  let stem ← beforeEnding? sidecarEnding text.toList <|> beforeEnding? dataEnding text.toList
  ofFields? (Text.fields '-' stem)

/-- Whether a text ends like the name of a sidecar. -/
def isSidecarName (text : String) : Bool :=
  sidecarEnding.toList.isSuffixOf text.toList

theorem beforeEnding?_append (ending : String) (text : List Char) :
    beforeEnding? ending (text ++ ending.toList) = some text := by
  simp [beforeEnding?]

end FileName

end SeriesStore
