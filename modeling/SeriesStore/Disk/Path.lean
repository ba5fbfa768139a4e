import SeriesStore.Text.Fields

/-!
# Paths

A path is a text whose segments are separated by slashes.  Paths are put
together without looking at the directory tree and are not normalized; only
when a path is followed do empty segments and single dots fall away.
-/

namespace SeriesStore.Disk.Path

/-- Puts `right` below `left`.  One slash goes between them unless `left` is empty
or brings its own; a `right` that starts with a slash stands for itself. -/
def join (left right : String) : String :=
  if right.toList.head? = some '/' then
    right
  else if left.toList.getLast?.any (· != '/') then
    left ++ "/" ++ right
  else
    left ++ right

/-- The segments of a path between its slashes. -/
def segments (path : String) : List (List Char) :=
  Text.fields '/' path.toList

/-- A segment that stays where it is. -/
def isIdle (segment : List Char) : Bool :=
  segment = [] ∨ segment = ['.']

/-- The steps that are taken when a path is followed. -/
def steps (path : String) : List String :=
  ((segments path).filter fun segment => !isIdle segment).map String.ofList

/-- Whether a path can only name a directory because nothing, or a dot, comes
after its last slash. -/
def namesDirectory (path : String) : Bool :=
  (segments path).getLast?.any isIdle

/-- Whether a path ends in a single dot, not counting slashes after it. -/
def endsInDot (path : String) : Bool :=
  ((segments path).filter fun segment => segment ≠ []).getLast? = some ['.']

/-- The most bytes that a path may have. -/
def pathLimit : Nat :=
  4095

/-- Whether no tree can be asked for a path, because it is too long or holds the
character that ends a text on its way there. -/
-- Irreducible, since deciding this on a path that is not known is a long way to
-- nowhere, and every listing branches on it.
@[irreducible]
def isImpossible (path : String) : Bool :=
  path.toList.contains '\x00' || pathLimit < path.utf8ByteSize

/-- A name up to its last dot; a dot at the front does not count. -/
def stemOf (name : List Char) : List Char :=
  let front := Text.joinFields '.' (Text.fields '.' name).dropLast
  if front = [] then name else front

/-- Replaces the text after the last dot of a name. -/
def withExtension (extension name : List Char) : List Char :=
  stemOf name ++ '.' :: extension

/-- The name at which a sidecar of the given name is prepared.  The text after the
last dot is cut off before the new one is put in its place.  When a name such as
`..x` stands at the very end of a path, the cut leaves the two dots that lead back
up, and these have nothing to replace. -/
def temporaryName (atEnd : Bool) (name : List Char) : List Char :=
  if name = ['.', '.'] ∨ (atEnd ∧ stemOf name = ['.']) then
    ['.', '.']
  else
    withExtension "resource.tmp".toList name

/-- The path beside a sidecar at which it is prepared.  A path without a name stays
as it is. -/
def temporary (path : String) : String :=
  match (segments path).reverse.dropWhile isIdle with
  | [] => path
  | name :: parents =>
      String.ofList (Text.joinFields '/'
        (parents.reverse ++ [temporaryName (!namesDirectory path) name]))

end SeriesStore.Disk.Path
