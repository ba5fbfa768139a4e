import SeriesStore.Disk.Interruption
import SeriesStore.Proofs.Disk.Orderly
import SeriesStore.Proofs.Disk.Persist

/-!
# Writing sidecars into any tree

In a tidy tree nothing stands below the root but what the layout puts there.  In any other
orderly tree, too, writing the sidecars of a partition is confined to the directories of
the partition and to the way there, on which directories may be made.  In these
directories the sidecars that are written stand afterwards, and all other names of sidecars
stand for what they stood for.  A write that is stopped leaves all of them alone.
-/

namespace SeriesStore.Disk

open SeriesStore.Disk.Path (Plain isImpossible)
open SeriesStore.Disk.Tree (isTooLong)
open Sidecar (content)

namespace Tree

variable {tree after : Tree} {path name : String} {location : Location}

/-- A path with one more plain name leads into the directory that the path names. -/
theorem fileAt_join_eq_ok (plain : Plain name)
    (found : tree.fileAt (Path.join path name) = .ok location) :
    isImpossible (Path.join path name) = false ∧
      ∃ parent, tree.enter [] (Path.steps path) = .ok parent ∧ location = parent ++ [name] := by
  rw [fileAt, Path.namesDirectory_join _ plain, Path.steps_join _ plain, List.getLast?_concat,
    List.dropLast_concat] at found
  simp only [Bool.false_eq_true, if_false, if_neg plain.ne_dots] at found
  split at found
  · contradiction
  · rename_i possible
    split at found
    · contradiction
    · rename_i parent entered
      split at found
      · contradiction
      · cases found
        exact ⟨Bool.eq_false_iff.mpr possible, parent, entered, rfl⟩

theorem write_eq_ok {bytes : List UInt8} (outcome : write path bytes tree = .ok () after) :
    ∃ location, tree.fileAt path = .ok location ∧ tree.node? location ≠ some .directory ∧
      after = tree.put location (.file bytes) := by
  rw [write_eq] at outcome
  split at outcome
  · contradiction
  · rename_i location found
    split at outcome
    · contradiction
    · rename_i noDirectory
      cases outcome
      exact ⟨location, found, noDirectory, rfl⟩

theorem rename_eq_ok {source target : String} (outcome : rename source target tree = .ok () after) :
    ∃ old new bytes, tree.fileAt source = .ok old ∧ tree.fileAt target = .ok new ∧
      tree.node? old = some (.file bytes) ∧ tree.node? new ≠ some .directory ∧
      after = (tree.erase old).put new (.file bytes) := by
  unfold rename at outcome
  split at outcome
  · contradiction
  · contradiction
  · rename_i old new foundOld foundNew
    split at outcome
    · rename_i bytes other standing target
      cases outcome
      exact ⟨old, new, bytes, foundOld, foundNew, standing, by simp [target], rfl⟩
    · rename_i bytes standing target
      cases outcome
      exact ⟨old, new, bytes, foundOld, foundNew, standing, by simp [target], rfl⟩
    · contradiction
    · contradiction
    · contradiction

/-- A part of a way that can be followed can be followed itself, and nothing is made on it. -/
theorem makeAlong_take {root : Location} {first rest : List String} {count : Nat}
    (entered : tree.enter location first = .ok root)
    (outcome : makeAlong location ((first ++ rest).take count) tree = .ok () after) :
    ∃ more, makeAlong root (rest.take more) tree = .ok () after := by
  rw [List.take_append] at outcome
  by_cases inside : count ≤ first.length
  · rw [Nat.sub_eq_zero_of_le inside, List.take_zero] at outcome
    have whole := entered
    rw [← List.take_append_drop count first, enter_append] at whole
    split at whole
    · contradiction
    · rename_i middle reached
      rw [makeAlong_of_entered reached] at outcome
      exact ⟨0, outcome⟩
  · rw [List.take_of_length_le (by omega), makeAlong_of_entered entered] at outcome
    exact ⟨_, outcome⟩

end Tree

/-- An orderly tree in which the root of a layout is a directory. -/
structure Rooted (layout : Layout) (root : Location) (tree : Tree) : Prop where
  wellFormed : tree.WellFormed
  entered : tree.enter [] (Path.steps layout.root) = .ok root

/-! ## Changes that are confined -/

variable {layout : Layout} {root : Location} {tree made after : Tree} {key : PartitionKey}
  {file : DataFile}

theorem plain_partitionPlace {space : Space} (plain : Plain key.group) :
    ∀ name ∈ partitionPlace space key, Plain name := by
  simp only [partitionPlace, List.forall_mem_cons]
  exact ⟨Path.plain_directoryName space, plain, Path.plain_writeInt _, by simp⟩

/-- Whether a location is that of an entry of a partition's directory. -/
def Inside (root : Location) (key : PartitionKey) (location : Location) : Prop :=
  ∃ space name, location = root ++ (partitionPlace space key ++ [name])

/-- Whether a location is on the way to a partition's directory. -/
def OnWay (root : Location) (key : PartitionKey) (location : Location) : Prop :=
  ∃ space, location <+: root ++ partitionPlace space key

/-- Orderly trees that differ in the directories of a partition only, apart from directories
that have been made on the way there. -/
structure Confined (root : Location) (key : PartitionKey) (before after : Tree) : Prop where
  wellFormed : after.WellFormed
  directories : ∀ location, before.node? location = some .directory →
    after.node? location = some .directory
  elsewhere : ∀ location, ¬ Inside root key location →
    after.node? location = before.node? location ∨
      before.node? location = none ∧ after.node? location = some .directory ∧
        OnWay root key location

theorem OnWay.length_le {location : Location} (onWay : OnWay root key location) :
    location.length ≤ root.length + 3 := by
  rcases onWay with ⟨space, front⟩
  have length := front.length_le
  rwa [List.length_append] at length

theorem not_onWay {space : Space} {name : String} :
    ¬ OnWay root key (root ++ (partitionPlace space key ++ [name])) := by
  intro onWay
  have length := onWay.length_le
  simp [partitionPlace] at length

theorem not_inside_of_length_le {location : Location}
    (length : location.length ≤ root.length + 3) : ¬ Inside root key location := by
  rintro ⟨space, name, rfl⟩
  simp [partitionPlace] at length

theorem confined_refl (wellFormed : tree.WellFormed) : Confined root key tree tree where
  wellFormed := wellFormed
  directories _ standing := standing
  elsewhere _ _ := .inl rfl

theorem Confined.trans (first : Confined root key tree made)
    (second : Confined root key made after) : Confined root key tree after where
  wellFormed := second.wellFormed
  directories location standing := second.directories location (first.directories location standing)
  elsewhere location outside := by
    rcases second.elsewhere location outside with same | ⟨absent, later⟩
    · rw [same]
      exact first.elsewhere location outside
    · rcases first.elsewhere location outside with same | ⟨_, directory, _⟩
      · rw [← same]
        exact .inr ⟨absent, later⟩
      · rw [absent] at directory
        contradiction

theorem Rooted.standing (rooted : Rooted layout root tree) : tree.node? root = some .directory :=
  Tree.node?_of_enter (Tree.node?_nil tree) rooted.entered

theorem Confined.rooted (confined : Confined root key tree after)
    (rooted : Rooted layout root tree) : Rooted layout root after where
  wellFormed := confined.wellFormed
  entered := Tree.enter_of_directories confined.directories rooted.entered

theorem confined_put (wellFormed : tree.WellFormed) {space : Space} {name : String}
    (plain : Plain name) (short : isTooLong name = false)
    (directory : tree.node? (root ++ partitionPlace space key) = some .directory)
    (noDirectory : tree.node? (root ++ (partitionPlace space key ++ [name])) ≠ some .directory)
    (bytes : List UInt8) :
    Confined root key tree
      (tree.put (root ++ (partitionPlace space key ++ [name])) (.file bytes)) where
  wellFormed := by
    rw [← List.append_assoc] at noDirectory ⊢
    exact wellFormed.put ⟨directory, plain, short⟩ fun standing => absurd standing noDirectory
  directories location standing := by
    rw [Tree.node?_put_of_ne, standing]
    rintro rfl
    exact noDirectory standing
  elsewhere location outside := by
    left
    apply Tree.node?_put_of_ne
    rintro rfl
    exact outside ⟨_, _, rfl⟩

theorem confined_erase (wellFormed : tree.WellFormed) {space : Space} {name : String}
    {bytes : List UInt8}
    (standing : tree.node? (root ++ (partitionPlace space key ++ [name])) = some (.file bytes)) :
    Confined root key tree (tree.erase (root ++ (partitionPlace space key ++ [name]))) where
  wellFormed := wellFormed.erase (by simp [standing])
  directories location directory := by
    rw [Tree.node?_erase_of_ne, directory]
    rintro rfl
    rw [standing] at directory
    cases directory
  elsewhere location outside := by
    left
    apply Tree.node?_erase_of_ne
    rintro rfl
    exact outside ⟨_, _, rfl⟩

/-! ## Sidecars that are saved -/

/-- What the writing of sidecars does: it is confined to their partition, and of the names of
sidecars only theirs stand for something else afterwards. -/
structure Saved (layout : Layout) (root : Location) (key : PartitionKey) (files : List DataFile)
    (before after : Tree) : Prop where
  confined : Confined root key before after
  encoded : ∀ file ∈ files, Sidecar.encode file = .ok (content file)
  possible : ∀ file ∈ files, isImpossible (layout.sidecarPath key file) = false
  own : ∀ file ∈ files, after.node? (root ++ sidecarPlace key file) = some (.file (content file))
  others : ∀ space name, FileName.isSidecarName name →
    (∀ file ∈ files, partitionPlace space key ++ [name] ≠ sidecarPlace key file) →
      after.node? (root ++ (partitionPlace space key ++ [name])) =
        before.node? (root ++ (partitionPlace space key ++ [name]))

/-- A confined change that leaves all names of sidecars alone. -/
theorem saved_nil (confined : Confined root key tree after)
    (same : ∀ space name, FileName.isSidecarName name →
      after.node? (root ++ (partitionPlace space key ++ [name])) =
        tree.node? (root ++ (partitionPlace space key ++ [name]))) :
    Saved layout root key [] tree after where
  confined := confined
  encoded := by simp
  possible := by simp
  own := by simp
  others space name isSidecar _ := same space name isSidecar

/-- Sidecars are saved one after the other when no two of them go to the same place. -/
theorem Saved.append {files more : List DataFile} (first : Saved layout root key files tree made)
    (second : Saved layout root key more made after)
    (apart : ∀ file ∈ files, ∀ other ∈ more, ¬ file.SamePlace other) :
    Saved layout root key (files ++ more) tree after where
  confined := first.confined.trans second.confined
  encoded := List.forall_mem_append.mpr ⟨first.encoded, second.encoded⟩
  possible := List.forall_mem_append.mpr ⟨first.possible, second.possible⟩
  own := by
    rw [List.forall_mem_append]
    refine ⟨fun file member => ?_, second.own⟩
    have kept := second.others file.space (FileName.ofFile file).sidecarName
      (FileName.isSidecarName_sidecarName _) fun other otherMember places =>
        apart file member other otherMember (sidecarPlace_eq_iff.mp places).2
    exact kept.trans (first.own file member)
  others space name isSidecar away := by
    rw [List.forall_mem_append] at away
    rw [second.others space name isSidecar away.2, first.others space name isSidecar away.1]

/-! ### The prepared file -/

/-- Where the sidecar of a file is prepared, below the root of the layout. -/
def preparedPlace (key : PartitionKey) (file : DataFile) : Location :=
  partitionPlace file.space key ++ [Path.preparedName (FileName.ofFile file)]

theorem preparedPlace_ne {space : Space} {name : String} (isSidecar : FileName.isSidecarName name) :
    root ++ (partitionPlace space key ++ [name]) ≠ root ++ preparedPlace key file := by
  intro same
  exact Path.ne_preparedName isSidecar _
    (List.append_singleton_inj.mp (List.append_cancel_left same)).2

/-- Writing into a directory of a partition under a name that is no sidecar's. -/
theorem saved_put_prepared (wellFormed : tree.WellFormed) (bytes : List UInt8)
    (directory : tree.node? (root ++ partitionPlace file.space key) = some .directory)
    (noDirectory : tree.node? (root ++ preparedPlace key file) ≠ some .directory) :
    Saved layout root key [] tree (tree.put (root ++ preparedPlace key file) (.file bytes)) := by
  apply saved_nil
  · exact confined_put wellFormed (Path.plain_preparedName _) (short_preparedName _) directory
      noDirectory bytes
  · intro space name isSidecar
    exact Tree.node?_put_of_ne tree (preparedPlace_ne isSidecar) _

/-- Moving a prepared file to the place of its sidecar. -/
theorem saved_put_sidecar (wellFormed : tree.WellFormed) {bytes : List UInt8}
    (encoded : Sidecar.encode file = .ok (content file))
    (possible : isImpossible (layout.sidecarPath key file) = false)
    (prepared : tree.node? (root ++ preparedPlace key file) = some (.file bytes))
    (noDirectory : tree.node? (root ++ sidecarPlace key file) ≠ some .directory) :
    Saved layout root key [file] tree
      ((tree.erase (root ++ preparedPlace key file)).put (root ++ sidecarPlace key file)
        (.file (content file))) := by
  have differ : root ++ sidecarPlace key file ≠ root ++ preparedPlace key file :=
    preparedPlace_ne (FileName.isSidecarName_sidecarName _)
  have directory : tree.node? (root ++ partitionPlace file.space key) = some .directory := by
    rw [preparedPlace, ← List.append_assoc] at prepared
    exact wellFormed.parent prepared
  have erased : Confined root key tree (tree.erase (root ++ preparedPlace key file)) :=
    confined_erase wellFormed prepared
  rw [← Tree.node?_erase_of_ne tree differ] at noDirectory
  constructor
  case confined =>
    exact erased.trans (confined_put erased.wellFormed (Path.plain_sidecarName _)
      (short_sidecarName _) (erased.directories _ directory) noDirectory _)
  case encoded => simpa using encoded
  case possible => simpa using possible
  case own =>
    intro other member
    cases List.mem_singleton.mp member
    exact Tree.node?_put_self _ (by simp [sidecarPlace]) _
  case others =>
    intro space name isSidecar away
    rw [Tree.node?_put_of_ne, Tree.node?_erase_of_ne _ (preparedPlace_ne isSidecar)]
    exact fun same => away file List.mem_cons_self (List.append_cancel_left same)

/-- Below the directory of a partition a path with one more name is that name's place. -/
theorem place_of_fileAt {space : Space} {name : String} {location : Location} (plain : Plain name)
    (entered : tree.enter [] (Path.steps (layout.partitionDirectory space key)) =
      .ok (root ++ partitionPlace space key))
    (found : tree.fileAt (Path.join (layout.partitionDirectory space key) name) =
      .ok location) : location = root ++ (partitionPlace space key ++ [name]) := by
  rcases (Tree.fileAt_join_eq_ok plain found).2 with ⟨parent, reached, rfl⟩
  rw [entered] at reached
  rw [← Except.ok.inj reached, List.append_assoc]

theorem saved_prepare (wellFormed : tree.WellFormed)
    (directory : tree.node? (root ++ partitionPlace file.space key) = some .directory)
    (entered : tree.enter [] (Path.steps (layout.partitionDirectory file.space key)) =
      .ok (root ++ partitionPlace file.space key)) {bytes : List UInt8}
    (outcome : Tree.write (Path.temporary (layout.sidecarPath key file)) bytes tree =
      .ok () after) :
    Saved layout root key [] tree after ∧
      after.node? (root ++ preparedPlace key file) = some (.file bytes) := by
  rw [Layout.sidecarPath, Path.temporary_join] at outcome
  rcases Tree.write_eq_ok outcome with ⟨location, found, noDirectory, rfl⟩
  have place := place_of_fileAt (Path.plain_preparedName _) entered found
  rw [← preparedPlace] at place
  subst place
  exact ⟨saved_put_prepared wellFormed bytes directory noDirectory,
    Tree.node?_put_self _ (by simp [preparedPlace]) _⟩

/-! ### The steps of a write -/

section Writing

variable (rooted : Rooted layout root tree) (plain : Plain key.group)

include rooted plain

theorem saved_makeAlong {space : Space} {way : Location}
    (isFront : way <+: partitionPlace space key)
    (outcome : Tree.makeAlong root way tree = .ok () after) :
    Saved layout root key [] tree after ∧ after.node? (root ++ way) = some .directory := by
  have plainWay : ∀ name ∈ way, Plain name :=
    fun name member => plain_partitionPlace plain name (isFront.subset member)
  rcases rooted.wellFormed.makeAlong plainWay rooted.standing outcome with
    ⟨afterWellFormed, ends, nodes⟩
  have onWay : ∀ location, location <+: root ++ way → OnWay root key location :=
    fun location front => ⟨space, front.trans ((List.prefix_append_right_inj root).mpr isFront)⟩
  refine ⟨saved_nil ?_ fun inSpace name _ => ?_, ends⟩
  · constructor
    case wellFormed => exact afterWellFormed
    case directories =>
      intro location directory
      rcases nodes location with same | ⟨absent, _⟩
      · rw [same, directory]
      · rw [directory] at absent
        contradiction
    case elsewhere =>
      intro location _
      exact (nodes location).imp_right fun ⟨absent, directory, front⟩ =>
        ⟨absent, directory, onWay location front⟩
  · rcases nodes (root ++ (partitionPlace inSpace key ++ [name])) with same | ⟨_, _, front⟩
    · exact same
    · exact absurd (onWay _ front) not_onWay

theorem saved_makeDirectories {space : Space}
    (outcome : Tree.makeDirectories (layout.partitionDirectory space key) tree = .ok () after) :
    Saved layout root key [] tree after ∧
      after.node? (root ++ partitionPlace space key) = some .directory ∧
      after.enter [] (Path.steps (layout.partitionDirectory space key)) =
        .ok (root ++ partitionPlace space key) := by
  rw [layout.makeDirectories_eq] at outcome
  split at outcome
  · contradiction
  have steps := steps_partitionDirectory layout space plain
  rw [steps, Tree.makeAlong_of_entered rooted.entered] at outcome
  rcases saved_makeAlong rooted plain List.prefix_rfl outcome with ⟨saved, standing⟩
  have afterRooted := saved.confined.rooted rooted
  refine ⟨saved, standing, ?_⟩
  rw [steps, Tree.enter_append, afterRooted.entered]
  exact afterRooted.wellFormed.enter_of_directory afterRooted.standing standing

/-- A sidecar that is written is saved. -/
theorem saved_persist (outcome : layout.persist key file tree = .ok () after) :
    Saved layout root key [file] tree after := by
  rw [layout.persist_eq] at outcome
  split at outcome
  · contradiction
  rename_i made directories
  rcases saved_makeDirectories rooted plain directories with
    ⟨madeSaved, directory, madeEntered⟩
  rw [Tree.writeSidecar] at outcome
  split at outcome
  · cases outcome
  rename_i bytes encoding
  cases ((Sidecar.encode_eq_ok_iff _ _).mp encoding).2
  rw [Tree.bind_eq] at outcome
  split at outcome
  · cases outcome
  rename_i prepared writing
  rcases saved_prepare madeSaved.confined.wellFormed directory madeEntered writing with
    ⟨preparedSaved, standing⟩
  have preparedEntered := Tree.enter_of_directories preparedSaved.confined.directories madeEntered
  rcases Tree.rename_eq_ok outcome with
    ⟨old, new, moved, foundOld, foundNew, oldStanding, noDirectory, rfl⟩
  have possible := (Tree.fileAt_join_eq_ok (Path.plain_sidecarName _) foundNew).1
  have target := place_of_fileAt (Path.plain_sidecarName _) preparedEntered foundNew
  rw [Layout.sidecarPath, Path.temporary_join] at foundOld
  have source := place_of_fileAt (Path.plain_preparedName _) preparedEntered foundOld
  rw [← preparedPlace] at source
  rw [← sidecarPlace] at target
  subst source target
  rw [standing] at oldStanding
  cases oldStanding
  -- Only the last of the three changes is seen at the name of a sidecar.
  have last := saved_put_sidecar preparedSaved.confined.wellFormed encoding possible standing
    noDirectory
  have both := (madeSaved.append preparedSaved (by simp)).append last (by simp)
  simpa using both

/-- A write that is stopped leaves all sidecars alone. -/
theorem saved_begins (begun : layout.Begins key file tree after) :
    Saved layout root key [] tree after := by
  cases begun with
  | making count outcome =>
      rw [steps_partitionDirectory layout file.space plain] at outcome
      rcases Tree.makeAlong_take rooted.entered outcome with ⟨more, outcome⟩
      exact (saved_makeAlong rooted plain (List.take_prefix _ _) outcome).1
  | preparing bytes directories prepared =>
      rcases saved_makeDirectories rooted plain directories with
        ⟨madeSaved, directory, madeEntered⟩
      have preparedSaved :=
        (saved_prepare madeSaved.confined.wellFormed directory madeEntered prepared).1
      simpa using madeSaved.append preparedSaved (by simp)

theorem saved_persistAll {files : List DataFile}
    (apart : files.Pairwise fun first second => ¬ first.SamePlace second)
    (outcome : layout.persistAll key files tree = .ok () after) :
    Saved layout root key files tree after := by
  induction files generalizing tree with
  | nil =>
      cases outcome
      exact saved_nil (confined_refl rooted.wellFormed) fun _ _ _ => rfl
  | cons file rest ih =>
      rw [List.pairwise_cons] at apart
      rw [Layout.persistAll, Tree.bind_eq] at outcome
      split at outcome
      · contradiction
      rename_i made written
      have first := saved_persist rooted plain written
      have others := ih (first.confined.rooted rooted) apart.2 outcome
      exact first.append others fun other member => by
        cases List.mem_singleton.mp member
        exact apart.1

/-- Writing that is stopped has saved a first part of the sidecars. -/
theorem saved_stops {files : List DataFile} {count : Nat}
    (apart : files.Pairwise fun first second => ¬ first.SamePlace second)
    (stops : layout.Stops key files count tree after) :
    Saved layout root key (files.take count) tree after := by
  rcases stops with ⟨written, outcome, rest⟩
  have saved := saved_persistAll rooted plain
    (apart.sublist (List.take_sublist count files)) outcome
  rcases rest with rfl | ⟨file, _, begun⟩
  · exact saved
  · have more := saved_begins (saved.confined.rooted rooted) plain begun
    simpa using saved.append more (by simp)

end Writing

end SeriesStore.Disk
