import SeriesStore.Disk.Tree
import SeriesStore.Proofs.Disk.Path

/-!
# Following paths

A path with one more plain name leads from where it led before to what stands there under
that name.  So what a listing of a directory shows can be listed and read in its turn.
-/

namespace SeriesStore.Disk.Tree

open SeriesStore.Disk.Path (Plain isImpossible)

variable {tree : Tree} {path name : String} {location : Location}

theorem next_of_plain (plain : Plain name) (location : Location) :
    next location name = location ++ [name] :=
  if_neg plain.ne_dots

/-- Steps are followed one part after the other. -/
theorem enter_append (tree : Tree) (location : Location) (first rest : List String) :
    tree.enter location (first ++ rest) =
      match tree.enter location first with
      | .error fault => .error fault
      | .ok middle => tree.enter middle rest := by
  induction first generalizing location with
  | nil => rfl
  | cons step first ih =>
      simp only [List.cons_append, enter]
      split
      · rfl
      · cases tree.node? (next location step) with
        | none => rfl
        | some node =>
            cases node with
            | directory => exact ih _
            | file content => rfl

/-- Where a plain name leads is decided by what stands there. -/
theorem enter_plain (plain : Plain name) (tree : Tree) (location : Location) :
    tree.enter location [name] =
      if isTooLong name then
        .error .nameTooLong
      else
        match tree.node? (location ++ [name]) with
        | none => .error .missing
        | some (.file _) => .error .notDirectory
        | some .directory => .ok (location ++ [name]) := by
  rw [enter, next_of_plain plain]
  rfl

/-- A way through directories stays one when directories stay. -/
theorem enter_of_directories {before after : Tree}
    (kept : ∀ location, before.node? location = some .directory →
      after.node? location = some .directory)
    {location reached : Location} {steps : List String}
    (entered : before.enter location steps = .ok reached) :
    after.enter location steps = .ok reached := by
  induction steps generalizing location with
  | nil => exact entered
  | cons step rest ih =>
      rw [enter] at entered ⊢
      split at entered
      · contradiction
      · rename_i short
        rw [if_neg short]
        cases standing : before.node? (next location step) with
        | none => simp [standing] at entered
        | some node =>
            cases node with
            | file content => simp [standing] at entered
            | directory =>
                rw [standing] at entered
                rw [kept _ standing]
                exact ih entered

/-! ## Paths with one more name -/

theorem directoryAt_eq_ok_iff (tree : Tree) (path : String) (location : Location) :
    tree.directoryAt path = .ok location ↔
      isImpossible path = false ∧ tree.enter [] (Path.steps path) = .ok location := by
  rw [directoryAt]
  cases isImpossible path <;> simp

theorem fileAt_join (plain : Plain name) (short : isTooLong name = false)
    (possible : isImpossible (Path.join path name) = false)
    (found : tree.enter [] (Path.steps path) = .ok location) :
    tree.fileAt (Path.join path name) = .ok (location ++ [name]) := by
  rw [fileAt, possible, Path.namesDirectory_join _ plain, Path.steps_join _ plain,
    List.getLast?_concat, List.dropLast_concat, found]
  simp [plain.ne_dots, short]

theorem read_join (plain : Plain name) (short : isTooLong name = false)
    (possible : isImpossible (Path.join path name) = false)
    (found : tree.enter [] (Path.steps path) = .ok location) {content : List UInt8}
    (standing : tree.node? (location ++ [name]) = some (.file content)) :
    tree.read (Path.join path name) = .ok content := by
  rw [read, fileAt_join plain short possible found]
  dsimp only
  rw [standing]

/-- Names in an orderly tree are plain and not too long. -/
theorem WellFormed.plain (wellFormed : tree.WellFormed) {node : Node}
    (standing : tree.node? (location ++ [name]) = some node) :
    Plain name ∧ isTooLong name = false := by
  rw [node?_of_ne_nil _ (by simp), SortedMap.get?_eq_some_iff] at standing
  rcases wellFormed _ standing with ⟨_, _, names⟩
  rcases names name (by simp) with ⟨ne_empty, ne_dot, ne_dots, no_slash, no_end, short⟩
  exact ⟨⟨ne_empty, ne_dot, ne_dots, no_slash, no_end⟩, short⟩

/-! ## Listings -/

/-- A path at which a listing finds a directory or nothing. -/
def Listable (tree : Tree) (path : String) : Prop :=
  tree.directoryAt path = .error .missing ∨ ∃ location, tree.directoryAt path = .ok location

theorem Listable.exists_listing (listable : tree.Listable path) :
    ∃ listing, tree.listIfPresent path = .ok listing := by
  rcases listable with missing | ⟨location, found⟩
  · exact ⟨[], by simp [listIfPresent, list, missing]⟩
  · constructor
    rw [listIfPresent, list, found]

/-- A listing shows what stands in the directory, as far as its path can be asked for. -/
theorem mem_listIfPresent {listing : List (String × Node)}
    (listed : tree.listIfPresent path = .ok listing) (name : String) (node : Node) :
    (name, node) ∈ listing ↔
      ∃ location, tree.directoryAt path = .ok location ∧
        tree.node? (location ++ [name]) = some node ∧
        isImpossible (Path.join path name) = false := by
  rw [listIfPresent] at listed
  split at listed
  · rename_i missing
    cases listed
    have absent : tree.directoryAt path = .error .missing := by
      rw [list] at missing
      split at missing
      · rename_i fault found
        cases missing
        exact found
      · contradiction
    simp [absent]
  · exact mem_list listed name node

theorem nodup_children (tree : Tree) (location : Location) :
    ((tree.children location).map Prod.fst).Nodup := by
  have names : (tree.children location).map Prod.fst =
      tree.nodes.keys.filterMap (childName? location) := by
    rw [children, List.map_filterMap, SortedMap.keys, List.filterMap_map]
    apply List.filterMap_congr
    intro entry _
    rw [Option.map_map]
    exact Option.map_id'
  rw [names, List.Nodup, List.pairwise_filterMap]
  apply tree.nodes.keys_nodup.imp
  rintro first second differ name isFirst _ isSecond rfl
  rw [childName?_eq_some_iff] at isFirst isSecond
  exact differ (isFirst.trans isSecond.symm)

/-- A listing shows no name twice. -/
theorem nodup_listIfPresent {listing : List (String × Node)}
    (listed : tree.listIfPresent path = .ok listing) : (listing.map Prod.fst).Nodup := by
  rw [listIfPresent] at listed
  split at listed
  · cases listed
    exact List.nodup_nil
  · rw [list] at listed
    split at listed
    · contradiction
    · rename_i location _ _
      cases listed
      exact (List.filter_sublist.map Prod.fst).nodup (tree.nodup_children _)

/-! ## Where a path leads -/

theorem node?_of_enter {reached : Location} {steps : List String}
    (standing : tree.node? location = some .directory)
    (entered : tree.enter location steps = .ok reached) :
    tree.node? reached = some .directory := by
  induction steps generalizing location with
  | nil =>
      cases entered
      exact standing
  | cons step rest ih =>
      rw [enter] at entered
      split at entered
      · contradiction
      · split at entered
        · contradiction
        · contradiction
        · rename_i next
          exact ih next entered

/-- Whether a path leads to a location at which there is a directory or nothing. -/
def Leads (tree : Tree) (path : String) (location : Location) : Prop :=
  tree.enter [] (Path.steps path) = .ok location ∨
    tree.enter [] (Path.steps path) = .error .missing ∧ tree.node? location = none

/-- One more plain name leads one level further down. -/
theorem Leads.join (leads : tree.Leads path location) (plain : Plain name)
    (short : isTooLong name = false)
    (noFile : ∀ content, tree.node? (location ++ [name]) ≠ some (.file content))
    (below : tree.node? location = none → tree.node? (location ++ [name]) = none) :
    tree.Leads (Path.join path name) (location ++ [name]) := by
  rw [Leads, Path.steps_join path plain, enter_append]
  rcases leads with entered | ⟨missing, absent⟩
  · rw [entered]
    dsimp only
    rw [enter_plain plain, if_neg (Bool.eq_false_iff.mp short)]
    cases standing : tree.node? (location ++ [name]) with
    | none => exact .inr ⟨rfl, rfl⟩
    | some node =>
        cases node with
        | directory => exact .inl rfl
        | file content => exact absurd standing (noFile content)
  · rw [missing]
    exact .inr ⟨rfl, below absent⟩

theorem Leads.listable (leads : tree.Leads path location)
    (possible : isImpossible path = false) : tree.Listable path := by
  rw [Listable, directoryAt, possible]
  rcases leads with entered | ⟨missing, _⟩
  · exact .inr ⟨location, entered⟩
  · exact .inl missing

/-- A path that leads to a location names the directory that stands there. -/
theorem Leads.directoryAt_eq_ok_iff (leads : tree.Leads path location)
    (possible : isImpossible path = false) (found : Location) :
    tree.directoryAt path = .ok found ↔
      found = location ∧ tree.node? location = some .directory := by
  rw [Tree.directoryAt_eq_ok_iff, and_iff_right possible]
  rcases leads with entered | ⟨missing, absent⟩
  · have standing := node?_of_enter (node?_nil tree) entered
    rw [entered, Except.ok.injEq]
    constructor
    · rintro rfl
      exact ⟨rfl, standing⟩
    · rintro ⟨rfl, _⟩
      rfl
  · simp [missing, absent]

/-! ## Making directories and moving files -/

theorem makeAlong_eq (tree : Tree) (location : Location) (step : String) (rest : List String) :
    makeAlong location (step :: rest) tree =
      if isTooLong step then
        .error (.disk .nameTooLong) tree
      else
        match tree.node? (next location step) with
        | some .directory => makeAlong (next location step) rest tree
        | some (.file _) => .error (.disk .notDirectory) tree
        | none => makeAlong (next location step) rest (tree.put (next location step) .directory) :=
  rfl

/-- Directories that are there already are passed. -/
theorem makeAlong_of_entered {reached : Location} {first rest : List String}
    (entered : tree.enter location first = .ok reached) :
    makeAlong location (first ++ rest) tree = makeAlong reached rest tree := by
  induction first generalizing location with
  | nil =>
      cases entered
      rfl
  | cons step first ih =>
      rw [enter] at entered
      rw [List.cons_append, makeAlong_eq]
      split at entered
      · contradiction
      · rename_i short
        rw [if_neg short]
        split at entered
        · contradiction
        · contradiction
        · rename_i standing
          rw [standing]
          exact ih entered

/-- The tree with a directory where there was nothing. -/
def ensure (tree : Tree) (location : Location) : Tree :=
  match tree.node? location with
  | none => tree.put location .directory
  | some _ => tree

theorem makeAlong_cons (plain : Plain name) (short : isTooLong name = false)
    (noFile : ∀ content, tree.node? (location ++ [name]) ≠ some (.file content))
    (rest : List String) :
    makeAlong location (name :: rest) tree =
      makeAlong (location ++ [name]) rest (tree.ensure (location ++ [name])) := by
  rw [makeAlong_eq, next_of_plain plain, if_neg (Bool.eq_false_iff.mp short), ensure]
  cases standing : tree.node? (location ++ [name]) with
  | none => rfl
  | some node =>
      cases node with
      | directory => rfl
      | file content => exact absurd standing (noFile content)

theorem makeAlong_tooLong (long : isTooLong name = true) (rest : List String) :
    makeAlong location (name :: rest) tree = .error (.disk .nameTooLong) tree := by
  rw [makeAlong_eq, if_pos long]

theorem node?_ensure (ne : location ≠ []) (asked : Location) :
    (tree.ensure location).node? asked =
      if asked = location ∧ tree.node? location = none then some .directory
      else tree.node? asked := by
  rw [ensure]
  split
  · rename_i absent
    by_cases same : asked = location
    · rw [if_pos ⟨same, absent⟩, same, node?_put_self tree ne]
    · rw [if_neg (not_and_of_not_left _ same), node?_put_of_ne tree same]
  · rename_i standing
    rw [if_neg (by simp [standing])]

/-- A file that is written beside a place and moved there is as good as written there. -/
theorem put_erase_put {old new : Location} (absent : tree.nodes.get? old = none)
    (differ : new ≠ old) (node other : Node) :
    ((tree.put old node).erase old).put new other = tree.put new other := by
  apply congrArg Tree.mk
  apply SortedMap.ext_get?
  intro asked
  by_cases isNew : asked = new
  · subst isNew
    rw [SortedMap.get?_insert_self, SortedMap.get?_insert_self]
  · rw [SortedMap.get?_insert_of_ne _ isNew, SortedMap.get?_insert_of_ne _ isNew]
    by_cases isOld : asked = old
    · subst isOld
      change ((tree.nodes.insert asked node).erase asked).get? asked = _
      rw [SortedMap.get?_erase_self, absent]
    · change ((tree.nodes.insert old node).erase old).get? asked = _
      rw [SortedMap.get?_erase_of_ne _ isOld, SortedMap.get?_insert_of_ne _ isOld]

/-- A file that comes in where there was nothing does not change where paths lead. -/
theorem fileAt_put {old : Location} (absent : tree.node? old = none) (node : Node)
    (found : tree.fileAt path = .ok location) :
    (tree.put old node).fileAt path = .ok location := by
  have kept : ∀ asked, tree.node? asked = some .directory →
      (tree.put old node).node? asked = some .directory := by
    intro asked standing
    have differ : asked ≠ old := by
      rintro rfl
      rw [absent] at standing
      contradiction
    rw [node?_put_of_ne tree differ, standing]
  rw [fileAt] at found ⊢
  split at found
  · contradiction
  rename_i possible
  rw [if_neg possible]
  split at found
  · contradiction
  rename_i named
  rw [if_neg named]
  split at found
  · contradiction
  split at found
  · contradiction
  rename_i up
  rw [if_neg up]
  split at found
  · contradiction
  · rename_i parent entered
    rw [enter_of_directories kept entered]
    exact found

theorem write_eq (path : String) (content : List UInt8) (tree : Tree) :
    write path content tree =
      match tree.fileAt path with
      | .error fault => .error (.disk fault) tree
      | .ok location =>
          match tree.node? location with
          | some .directory => .error (.disk .isDirectory) tree
          | _ => .ok () (tree.put location (.file content)) :=
  rfl

theorem write_of_fileAt (found : tree.fileAt path = .ok location)
    (noDirectory : tree.node? location ≠ some .directory) (content : List UInt8) :
    write path content tree = .ok () (tree.put location (.file content)) := by
  rw [write_eq, found]
  dsimp only
  split
  · contradiction
  · rfl

theorem rename_of_fileAt {source target : String} {old new : Location} {content : List UInt8}
    (foundOld : tree.fileAt source = .ok old) (foundNew : tree.fileAt target = .ok new)
    (standing : tree.node? old = some (.file content))
    (noDirectory : tree.node? new ≠ some .directory) :
    rename source target tree = .ok () ((tree.erase old).put new (.file content)) := by
  unfold rename
  rw [foundOld, foundNew]
  dsimp only
  rw [standing]
  cases target : tree.node? new with
  | none => rfl
  | some node =>
      cases node with
      | directory => contradiction
      | file other => rfl

theorem bind_eq {α β : Type} (step : Step α) (next : α → Step β) (tree : Tree) :
    (step >>= next) tree =
      match step tree with
      | .error error middle => .error error middle
      | .ok value middle => next value middle := by
  change EStateM.bind step next tree = _
  rw [EStateM.bind]
  cases step tree <;> rfl

/-- A file that is prepared where there was nothing and then moved replaces what stood at its
new place. -/
theorem write_rename {source target : String} {old new : Location}
    (foundOld : tree.fileAt source = .ok old) (foundNew : tree.fileAt target = .ok new)
    (ne : old ≠ []) (absent : tree.node? old = none) (differ : new ≠ old)
    (noDirectory : tree.node? new ≠ some .directory) (content : List UInt8) :
    (write source content >>= fun _ => rename source target) tree =
      .ok () (tree.put new (.file content)) := by
  have vacant : tree.nodes.get? old = none := by
    rw [← node?_of_ne_nil tree ne, absent]
  have notThere : tree.node? old ≠ some .directory := by
    simp [absent]
  have written := node?_put_self tree ne (.file content)
  rw [bind_eq, write_of_fileAt foundOld notThere]
  dsimp only
  rw [rename_of_fileAt (fileAt_put absent _ foundOld) (fileAt_put absent _ foundNew) written
    (by rwa [node?_put_of_ne tree differ]), put_erase_put vacant differ]

theorem write_of_impossible (impossible : isImpossible path = true) (content : List UInt8) :
    write path content tree = .error (.disk .invalidPath) tree := by
  have unfound : tree.fileAt path = .error .invalidPath := if_pos impossible
  rw [write_eq, unfound]

end SeriesStore.Disk.Tree
