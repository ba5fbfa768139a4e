import Mathlib.Data.List.Induction
import SeriesStore.Proofs.Disk.Tree

/-!
# Orderly trees

In an orderly tree (`Tree.WellFormed`) everything stands in a directory, so below a place
at which there is no directory there is nothing at all.  Paths of plain names are decided
by this: a way is clear when no file stands on it, and then it leads to its end or stops
where nothing stands any more.

Putting something into a directory and taking a file away keep a tree orderly, and so does
making directories along a way.
-/

namespace SeriesStore.Disk.Tree

open SeriesStore.Disk.Path (Plain isImpossible)

variable {tree after : Tree} {location : Location} {name : String}

theorem node?_erase_self (tree : Tree) {location : Location} (ne : location ≠ []) :
    (tree.erase location).node? location = none := by
  rw [node?_of_ne_nil _ ne]
  exact SortedMap.get?_erase_self tree.nodes location

theorem node?_erase_of_ne (tree : Tree) {location asked : Location} (ne : asked ≠ location) :
    (tree.erase location).node? asked = tree.node? asked := by
  cases asked with
  | nil => rfl
  | cons first rest => exact SortedMap.get?_erase_of_ne tree.nodes ne

/-! ## What it means to be orderly -/

theorem WellFormed.rootless (wellFormed : tree.WellFormed) : tree.nodes.get? [] = none := by
  rw [Option.eq_none_iff_forall_ne_some]
  intro node standing
  rw [SortedMap.get?_eq_some_iff] at standing
  exact (wellFormed _ standing).1 rfl

theorem WellFormed.parent (wellFormed : tree.WellFormed) {node : Node}
    (standing : tree.node? (location ++ [name]) = some node) :
    tree.node? location = some .directory := by
  rw [node?_of_ne_nil _ (by simp), SortedMap.get?_eq_some_iff] at standing
  have parent := (wellFormed _ standing).2.1
  rwa [List.dropLast_concat] at parent

/-- Whether what stands at a location may stand there. -/
def InOrder (tree : Tree) (location : Location) (name : String) : Prop :=
  tree.node? location = some .directory ∧ Plain name ∧ isTooLong name = false

theorem WellFormed.inOrder (wellFormed : tree.WellFormed) {node : Node}
    (standing : tree.node? (location ++ [name]) = some node) : tree.InOrder location name :=
  ⟨wellFormed.parent standing, wellFormed.plain standing⟩

/-- Names higher up belong to directories, which are in order themselves. -/
theorem wellFormed_of_inOrder (rootless : tree.nodes.get? [] = none)
    (inOrder : ∀ location name node, tree.node? (location ++ [name]) = some node →
      tree.InOrder location name) : tree.WellFormed := by
  have names : ∀ location node, tree.node? location = some node →
      ∀ name ∈ location, Plain name ∧ isTooLong name = false := by
    intro location
    induction location using List.reverseRecOn with
    | nil => simp
    | append_singleton location last ih =>
        intro node standing name member
        rcases inOrder _ _ _ standing with ⟨parent, own⟩
        rw [List.mem_append, List.mem_singleton] at member
        rcases member with above | rfl
        · exact ih _ parent name above
        · exact own
  rintro ⟨location, node⟩ member
  have standing := (SortedMap.get?_eq_some_iff _ _ _).mpr member
  have ne : location ≠ [] := by
    rintro rfl
    rw [rootless] at standing
    contradiction
  rw [← node?_of_ne_nil tree ne] at standing
  refine ⟨ne, ?_, fun name inLocation => ?_⟩
  · rw [← List.dropLast_concat_getLast ne] at standing
    exact (inOrder _ _ _ standing).1
  · rcases names _ _ standing name inLocation with ⟨plain, short⟩
    exact ⟨plain.ne_empty, plain.ne_dot, plain.ne_dots, plain.no_slash, plain.no_end, short⟩

/-- All names of a location at which something stands are plain and short. -/
theorem WellFormed.names (wellFormed : tree.WellFormed) {node : Node}
    (standing : tree.node? location = some node) :
    ∀ name ∈ location, Plain name ∧ isTooLong name = false := by
  intro name member
  have ne : location ≠ [] := List.ne_nil_of_mem member
  rw [node?_of_ne_nil _ ne, SortedMap.get?_eq_some_iff] at standing
  rcases (wellFormed _ standing).2.2 name member with
    ⟨ne_empty, ne_dot, ne_dots, no_slash, no_end, short⟩
  exact ⟨⟨ne_empty, ne_dot, ne_dots, no_slash, no_end⟩, short⟩

/-- Below a place without a directory there is nothing. -/
theorem WellFormed.absent_below (wellFormed : tree.WellFormed)
    (noDirectory : tree.node? location ≠ some .directory) {more : Location} (ne : more ≠ []) :
    tree.node? (location ++ more) = none := by
  induction more using List.reverseRecOn with
  | nil => contradiction
  | append_singleton more last ih =>
      rw [Option.eq_none_iff_forall_ne_some]
      intro node standing
      rw [← List.append_assoc] at standing
      have parent := wellFormed.parent standing
      by_cases last : more = []
      · rw [last, List.append_nil] at parent
        exact noDirectory parent
      · rw [ih last] at parent
        contradiction

/-! ## Changes that keep a tree orderly -/

theorem WellFormed.put (wellFormed : tree.WellFormed) (inOrder : tree.InOrder location name)
    {node : Node} (kept : tree.node? (location ++ [name]) = some .directory → node = .directory) :
    (tree.put (location ++ [name]) node).WellFormed := by
  have ne : location ++ [name] ≠ [] := by simp
  have directories : ∀ asked, tree.node? asked = some .directory →
      (tree.put (location ++ [name]) node).node? asked = some .directory := by
    intro asked standing
    by_cases same : asked = location ++ [name]
    · subst same
      rw [node?_put_self tree ne, kept standing]
    · rw [node?_put_of_ne tree same, standing]
  apply wellFormed_of_inOrder
  · exact (SortedMap.get?_insert_of_ne _ (Ne.symm ne) _).trans wellFormed.rootless
  · intro above last other standing
    by_cases same : above ++ [last] = location ++ [name]
    · rcases List.append_singleton_inj.mp same with ⟨rfl, rfl⟩
      exact ⟨directories _ inOrder.1, inOrder.2⟩
    · rw [node?_put_of_ne tree same] at standing
      have before := wellFormed.inOrder standing
      exact ⟨directories _ before.1, before.2⟩

theorem WellFormed.erase (wellFormed : tree.WellFormed)
    (noDirectory : tree.node? location ≠ some .directory) : (tree.erase location).WellFormed := by
  have ne : location ≠ [] := by
    rintro rfl
    exact noDirectory (node?_nil tree)
  apply wellFormed_of_inOrder
  · exact (SortedMap.get?_erase_of_ne _ (Ne.symm ne)).trans wellFormed.rootless
  · intro above last node standing
    by_cases same : above ++ [last] = location
    · rw [same, node?_erase_self tree ne] at standing
      contradiction
    · rw [node?_erase_of_ne tree same] at standing
      have before := wellFormed.inOrder standing
      refine ⟨?_, before.2⟩
      rw [node?_erase_of_ne tree, before.1]
      rintro rfl
      exact noDirectory before.1

/-! ## Ways of plain names -/

/-- Whether no file stands on a way. -/
def Clear (tree : Tree) (location way : Location) : Prop :=
  ∀ front, front <+: way → ∀ content, tree.node? (location ++ front) ≠ some (.file content)

theorem clear_cons_iff {way : Location} :
    tree.Clear location (name :: way) ↔
      (∀ content, tree.node? location ≠ some (.file content)) ∧
        tree.Clear (location ++ [name]) way := by
  constructor
  · intro clear
    constructor
    · simpa using clear [] (List.nil_prefix)
    · intro front isFront content
      rw [List.append_assoc]
      exact clear (name :: front) (List.cons_prefix_cons.mpr ⟨rfl, isFront⟩) content
  · rintro ⟨own, rest⟩ front isFront content
    cases front with
    | nil => simpa using own content
    | cons first front =>
        rcases List.cons_prefix_cons.mp isFront with ⟨rfl, others⟩
        have here := rest front others content
        rwa [List.append_assoc] at here

/-- Below a place at which nothing stands every way is clear. -/
theorem WellFormed.clear_of_absent (wellFormed : tree.WellFormed)
    (absent : tree.node? location = none) (way : Location) : tree.Clear location way := by
  intro front _ content standing
  by_cases here : front = []
  · rw [here, List.append_nil, absent] at standing
    contradiction
  · rw [wellFormed.absent_below (by simp [absent]) here] at standing
    contradiction

/-- A way on which a directory stands at the end is clear. -/
theorem WellFormed.clear_of_directory (wellFormed : tree.WellFormed) {way : Location}
    (standing : tree.node? (location ++ way) = some .directory) : tree.Clear location way := by
  rintro front ⟨more, rfl⟩ content file
  rw [← List.append_assoc] at standing
  by_cases last : more = []
  · rw [last, List.append_nil, file] at standing
    cases standing
  · rw [wellFormed.absent_below (by simp [file]) last] at standing
    contradiction

/-- A clear way is followed to its end, or to where nothing stands any more. -/
theorem enter_of_clear (wellFormed : tree.WellFormed) {way : Location}
    (plain : ∀ name ∈ way, Plain name) (short : ∀ name ∈ way, isTooLong name = false)
    (standing : tree.node? location = some .directory) (clear : tree.Clear location way) :
    tree.enter location way = .ok (location ++ way) ∨
      tree.enter location way = .error .missing ∧ tree.node? (location ++ way) = none := by
  induction way generalizing location with
  | nil => exact .inl (by rw [List.append_nil]; rfl)
  | cons name rest ih =>
      rw [List.forall_mem_cons] at plain short
      rw [clear_cons_iff] at clear
      have here := clear.2 [] List.nil_prefix
      rw [List.append_nil] at here
      rw [enter, next_of_plain plain.1, if_neg (Bool.eq_false_iff.mp short.1)]
      cases next : tree.node? (location ++ [name]) with
      | none =>
          right
          refine ⟨rfl, ?_⟩
          by_cases last : rest = []
          · rw [last, next]
          · have noDirectory : tree.node? (location ++ [name]) ≠ some .directory := by
              simp [next]
            have nothing := wellFormed.absent_below noDirectory last
            rwa [List.append_assoc] at nothing
      | some node =>
          cases node with
          | file content => exact absurd next (here content)
          | directory =>
              have further := ih plain.2 short.2 next clear.2
              rwa [List.append_assoc] at further

/-- Plain names lead down and nowhere else. -/
theorem eq_of_enter {way found : Location} (plain : ∀ name ∈ way, Plain name)
    (entered : tree.enter location way = .ok found) : found = location ++ way := by
  induction way generalizing location with
  | nil =>
      cases entered
      rw [List.append_nil]
  | cons name rest ih =>
      rw [List.forall_mem_cons] at plain
      rw [enter, next_of_plain plain.1] at entered
      split at entered
      · contradiction
      · split at entered
        · contradiction
        · contradiction
        · rw [ih plain.2 entered, List.append_assoc, List.singleton_append]

/-- A directory is reached by the names that lead to it. -/
theorem WellFormed.enter_of_directory (wellFormed : tree.WellFormed) {way : Location}
    (standing : tree.node? location = some .directory)
    (ends : tree.node? (location ++ way) = some .directory) :
    tree.enter location way = .ok (location ++ way) := by
  have names := fun name member => wellFormed.names ends name (List.mem_append_right _ member)
  rcases enter_of_clear wellFormed (fun name member => (names name member).1)
    (fun name member => (names name member).2) standing (wellFormed.clear_of_directory ends) with
    entered | ⟨_, absent⟩
  · exact entered
  · rw [ends] at absent
    contradiction

/-- A way that can be followed, or ends where nothing stands any more, is clear. -/
theorem clear_of_enter (wellFormed : tree.WellFormed) {way : Location}
    (plain : ∀ name ∈ way, Plain name) (standing : tree.node? location = some .directory)
    (followed : tree.enter location way = .error .missing ∨
      ∃ found, tree.enter location way = .ok found) : tree.Clear location way := by
  induction way generalizing location with
  | nil =>
      intro front isFront content file
      rw [List.prefix_nil.mp isFront, List.append_nil, standing] at file
      cases file
  | cons name rest ih =>
      rw [List.forall_mem_cons] at plain
      rw [clear_cons_iff]
      refine ⟨by simp [standing], ?_⟩
      rw [enter, next_of_plain plain.1] at followed
      split at followed
      · simp at followed
      · cases next : tree.node? (location ++ [name]) with
        | none => exact wellFormed.clear_of_absent next rest
        | some node =>
            rw [next] at followed
            cases node with
            | file content => simp at followed
            | directory => exact ih plain.2 next followed

/-! ## Making directories -/

/-- Directories that are made stand on the way, where nothing stood before. -/
theorem WellFormed.makeAlong (wellFormed : tree.WellFormed) {way : Location}
    (plain : ∀ name ∈ way, Plain name) (standing : tree.node? location = some .directory)
    (outcome : makeAlong location way tree = .ok () after) :
    after.WellFormed ∧ after.node? (location ++ way) = some .directory ∧
      ∀ asked, after.node? asked = tree.node? asked ∨
        tree.node? asked = none ∧ after.node? asked = some .directory ∧
          asked <+: location ++ way := by
  induction way generalizing location tree with
  | nil =>
      cases outcome
      exact ⟨wellFormed, by rwa [List.append_nil], fun _ => .inl rfl⟩
  | cons name rest ih =>
      rw [List.forall_mem_cons] at plain
      rw [makeAlong_eq, next_of_plain plain.1] at outcome
      rw [← List.singleton_append, ← List.append_assoc]
      split at outcome
      · contradiction
      rename_i short
      cases here : tree.node? (location ++ [name]) with
      | some node =>
          rw [here] at outcome
          cases node with
          | file content => contradiction
          | directory => exact ih wellFormed plain.2 here outcome
      | none =>
          rw [here] at outcome
          have inOrder : tree.InOrder location name :=
            ⟨standing, plain.1, by simpa using short⟩
          have made := node?_put_self tree (by simp : location ++ [name] ≠ []) .directory
          rcases ih (wellFormed.put inOrder fun _ => rfl) plain.2 made outcome with
            ⟨afterWellFormed, ends, nodes⟩
          refine ⟨afterWellFormed, ends, fun asked => ?_⟩
          by_cases same : asked = location ++ [name]
          · subst same
            right
            refine ⟨here, ?_, List.prefix_append _ _⟩
            rcases nodes (location ++ [name]) with unchanged | ⟨_, directory, _⟩
            · rw [unchanged, made]
            · exact directory
          · have nodes := nodes asked
            rwa [node?_put_of_ne tree same] at nodes

end SeriesStore.Disk.Tree
