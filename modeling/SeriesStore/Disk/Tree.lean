import SeriesStore.Collection.SortedMap
import SeriesStore.Disk.Path
import SeriesStore.Error
import SeriesStore.Text.Order

/-!
# Directory trees

A tree maps locations to what stands there.  A location is the list of names on
the way down from the root, and the root itself is always a directory.  Paths
are followed from the root step by step: every step but the last must end in a
directory, and two dots go back up.  A step of more than `nameLimit` bytes can be
neither followed nor made, and a path that is impossible altogether fails before
its first step.

## Steps

A change of a tree may fail after it has changed something.  Directories made
on the way to a failure stay, and so does a file that was prepared beside one
that could not be replaced.
-/

namespace SeriesStore.Disk

/-- The names on the way from the root. -/
abbrev Location := List String

/-- What stands at a location. -/
inductive Node where
  | directory
  | file (content : List UInt8)
deriving DecidableEq

/-- Compares locations name by name. -/
abbrev compareLocations : Location → Location → Ordering :=
  List.compareLex Text.compareUtf8

/-- A directory tree. -/
structure Tree where
  nodes : SortedMap Location Node compareLocations
deriving DecidableEq

namespace Tree

/-- A change of a tree that may fail on the way. -/
abbrev Step := EStateM Error Tree

/-- The tree that holds nothing below its root. -/
def empty : Tree :=
  ⟨.empty⟩

/-- What stands at a location. -/
def node? (tree : Tree) : Location → Option Node
  | [] => some .directory
  | location => tree.nodes.get? location

/-- Puts a node at a location. -/
def put (tree : Tree) (location : Location) (node : Node) : Tree :=
  ⟨tree.nodes.insert location node⟩

/-- Removes what stands at a location. -/
def erase (tree : Tree) (location : Location) : Tree :=
  ⟨tree.nodes.erase location⟩

/-- The most bytes that a name may have. -/
def nameLimit : Nat :=
  255

/-- Whether a name has more bytes than a node may have in its name. -/
def isTooLong (name : String) : Bool :=
  nameLimit < name.utf8ByteSize

/-- The names and parents of a tree are in order: below a name there is only
something if the name is that of a directory. -/
def WellFormed (tree : Tree) : Prop :=
  ∀ entry ∈ tree.nodes.entries,
    entry.1 ≠ [] ∧ tree.node? entry.1.dropLast = some .directory ∧
      ∀ name ∈ entry.1, name ≠ "" ∧ name ≠ "." ∧ name ≠ ".." ∧
        '/' ∉ name.toList ∧ '\x00' ∉ name.toList ∧ isTooLong name = false

/-- The location one step further; two dots lead back up. -/
def next (location : Location) (step : String) : Location :=
  if step = ".." then location.dropLast else location ++ [step]

/-- Follows steps through directories and returns the directory at their end. -/
def enter (tree : Tree) (location : Location) : List String → Except DiskFault Location
  | [] => .ok location
  | step :: rest =>
      if isTooLong step then
        .error .nameTooLong
      else
        match tree.node? (next location step) with
        | none => .error .missing
        | some (.file _) => .error .notDirectory
        | some .directory => tree.enter (next location step) rest

/-- The location of the directory that a path names. -/
def directoryAt (tree : Tree) (path : String) : Except DiskFault Location :=
  if Path.isImpossible path then
    .error .invalidPath
  else
    tree.enter [] (Path.steps path)

/-- The location at which a path names a file, whether there is one or not.  The
directory on the way must exist. -/
def fileAt (tree : Tree) (path : String) : Except DiskFault Location :=
  if Path.isImpossible path then
    .error .invalidPath
  else if Path.namesDirectory path then
    .error .isDirectory
  else
    match (Path.steps path).getLast? with
    | none => .error .isDirectory
    | some name =>
        if name = ".." then
          .error .isDirectory
        else
          match tree.enter [] (Path.steps path).dropLast with
          | .error fault => .error fault
          | .ok parent => if isTooLong name then .error .nameTooLong else .ok (parent ++ [name])

/-- The name of a location directly below another one. -/
def childName? : (parent location : Location) → Option String
  | [], [name] => some name
  | first :: parent, name :: location => if first = name then childName? parent location else none
  | _, _ => none

/-- What stands directly below a location, in the order of the names. -/
def children (tree : Tree) (location : Location) : List (String × Node) :=
  tree.nodes.entries.filterMap fun entry =>
    (childName? location entry.1).map fun name => (name, entry.2)

/-- What a directory holds.  A node whose path below the given one would be
impossible is not listed, so what is listed can also be asked for. -/
def list (tree : Tree) (path : String) : Except DiskFault (List (String × Node)) :=
  match tree.directoryAt path with
  | .error fault => .error fault
  | .ok location =>
      .ok ((tree.children location).filter fun entry =>
        !Path.isImpossible (Path.join path entry.1))

/-- What a directory holds; a missing one holds nothing. -/
def listIfPresent (tree : Tree) (path : String) : Except DiskFault (List (String × Node)) :=
  match tree.list path with
  | .error .missing => .ok []
  | outcome => outcome

/-- The content of a file. -/
def read (tree : Tree) (path : String) : Except DiskFault (List UInt8) :=
  match tree.fileAt path with
  | .error fault => .error fault
  | .ok location =>
      match tree.node? location with
      | none => .error .missing
      | some .directory => .error .isDirectory
      | some (.file content) => .ok content

/-- Fails without a change. -/
def fail {α : Type} (fault : DiskFault) : Step α := fun tree =>
  .error (.disk fault) tree

/-- Makes the directories along the steps that are not there yet. -/
def makeAlong (location : Location) : List String → Step Unit
  | [] => pure ()
  | step :: rest => fun tree =>
      if isTooLong step then
        fail .nameTooLong tree
      else
        match tree.node? (next location step) with
        | some .directory => makeAlong (next location step) rest tree
        | some (.file _) => fail .notDirectory tree
        | none => makeAlong (next location step) rest (tree.put (next location step) .directory)

/-- Makes a directory and its parents.  One that is already there is left; one
that is named by a final dot must be there already. -/
def makeDirectories (path : String) : Step Unit :=
  if Path.isImpossible path then
    fail .invalidPath
  else if Path.endsInDot path then do
    makeAlong [] (Path.steps path).dropLast
    fun tree =>
      match tree.enter [] (Path.steps path) with
      | .error fault => fail fault tree
      | .ok _ => .ok () tree
  else
    makeAlong [] (Path.steps path)

/-- Writes a file; its directory must exist. -/
def write (path : String) (content : List UInt8) : Step Unit := fun tree =>
  match tree.fileAt path with
  | .error fault => fail fault tree
  | .ok location =>
      match tree.node? location with
      | some .directory => fail .isDirectory tree
      | _ => .ok () (tree.put location (.file content))

/-- Moves a file to another path, over a file that may be there. -/
def rename (source target : String) : Step Unit := fun tree =>
  match tree.fileAt source, tree.fileAt target with
  | .error fault, _ => fail fault tree
  | _, .error fault => fail fault tree
  | .ok old, .ok new =>
      match tree.node? old, tree.node? new with
      | some (.file content), some (.file _) =>
          .ok () ((tree.erase old).put new (.file content))
      | some (.file content), none => .ok () ((tree.erase old).put new (.file content))
      | some (.file _), some .directory => fail .isDirectory tree
      | some .directory, _ => fail .isDirectory tree
      | none, _ => fail .missing tree

@[simp]
theorem node?_nil (tree : Tree) : tree.node? [] = some .directory := rfl

theorem node?_of_ne_nil (tree : Tree) {location : Location} (ne : location ≠ []) :
    tree.node? location = tree.nodes.get? location := by
  cases location with
  | nil => contradiction
  | cons name rest => rfl

theorem node?_put_self (tree : Tree) {location : Location} (ne : location ≠ []) (node : Node) :
    (tree.put location node).node? location = some node := by
  rw [node?_of_ne_nil _ ne]
  exact SortedMap.get?_insert_self tree.nodes location node

theorem node?_put_of_ne (tree : Tree) {location asked : Location} (ne : asked ≠ location)
    (node : Node) : (tree.put location node).node? asked = tree.node? asked := by
  cases asked with
  | nil => rfl
  | cons name rest => exact SortedMap.get?_insert_of_ne tree.nodes ne node

/-- A location is a child exactly when it is one name longer. -/
theorem childName?_eq_some_iff (parent location : Location) (name : String) :
    childName? parent location = some name ↔ location = parent ++ [name] := by
  induction parent generalizing location with
  | nil =>
      cases location with
      | nil => simp [childName?]
      | cons first rest => cases rest <;> simp [childName?]
  | cons first parent ih =>
      cases location with
      | nil => simp [childName?]
      | cons other rest =>
          by_cases same : first = other
          · simp [childName?, same, ih]
          · simp [childName?, same, Ne.symm same]

/-- The children of a location are what stands one name below it. -/
theorem mem_children (tree : Tree) (location : Location) (name : String) (node : Node) :
    (name, node) ∈ tree.children location ↔ tree.node? (location ++ [name]) = some node := by
  have ne : location ++ [name] ≠ [] := by simp
  rw [node?_of_ne_nil tree ne, SortedMap.get?_eq_some_iff]
  simp only [children, List.mem_filterMap, Option.map_eq_some_iff, Prod.mk.injEq]
  constructor
  · rintro ⟨⟨found, foundNode⟩, member, child, childIs, rfl, rfl⟩
    rw [childName?_eq_some_iff] at childIs
    exact childIs ▸ member
  · intro member
    exact ⟨_, member, name, (childName?_eq_some_iff _ _ _).mpr rfl, rfl, rfl⟩

/-- A listing holds the children whose paths can be asked for. -/
theorem mem_list {tree : Tree} {path : String} {listing : List (String × Node)}
    (listed : tree.list path = .ok listing) (name : String) (node : Node) :
    (name, node) ∈ listing ↔
      ∃ location, tree.directoryAt path = .ok location ∧
        tree.node? (location ++ [name]) = some node ∧
        Path.isImpossible (Path.join path name) = false := by
  unfold list at listed
  cases found : tree.directoryAt path with
  | error fault => simp [found] at listed
  | ok location =>
      simp only [found, Except.ok.injEq] at listed
      subst listed
      simp [mem_children]

end Tree

end SeriesStore.Disk
