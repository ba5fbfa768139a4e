import SeriesStore.Disk.Path
import SeriesStore.Proofs.File.Name

/-!
# Paths of plain names

A plain name is one that a directory entry can have.  Joined to any path it adds one
step, which leads one level down, and the joined path ends in a name.  So the temporary
path of a sidecar lies beside it, and a path that can be asked for still can be when steps
are taken off its end.
-/

namespace SeriesStore.Disk.Path

/-- A name that stands for an entry of a directory and for nothing else. -/
structure Plain (name : String) : Prop where
  ne_empty : name ≠ ""
  ne_dot : name ≠ "."
  ne_dots : name ≠ ".."
  no_slash : '/' ∉ name.toList
  no_end : '\x00' ∉ name.toList

instance (name : String) : Decidable (Plain name) :=
  decidable_of_iff
    (name ≠ "" ∧ name ≠ "." ∧ name ≠ ".." ∧ '/' ∉ name.toList ∧ '\x00' ∉ name.toList)
    ⟨fun ⟨ne_empty, ne_dot, ne_dots, no_slash, no_end⟩ =>
        ⟨ne_empty, ne_dot, ne_dots, no_slash, no_end⟩,
      fun plain =>
        ⟨plain.ne_empty, plain.ne_dot, plain.ne_dots, plain.no_slash, plain.no_end⟩⟩

/-! ## Joining -/

theorem Plain.head?_ne {name : String} (plain : Plain name) : name.toList.head? ≠ some '/' :=
  fun slash => plain.no_slash (List.mem_of_mem_head? slash)

/-- What stands before a plain name in a joined path. -/
def lead (left : String) : String :=
  if left.toList.getLast?.any (· != '/') then left ++ "/" else left

theorem join_eq_lead_append {left name : String} (head : name.toList.head? ≠ some '/') :
    join left name = lead left ++ name := by
  rw [join, if_neg head, lead]
  split <;> rfl

/-- Below one path different names give different paths. -/
theorem join_inj {left first second : String} (firstHead : first.toList.head? ≠ some '/')
    (secondHead : second.toList.head? ≠ some '/') (same : join left first = join left second) :
    first = second := by
  rw [join_eq_lead_append firstHead, join_eq_lead_append secondHead, ← String.toList_inj,
    String.toList_append, String.toList_append] at same
  exact String.toList_inj.mp (List.append_cancel_left same)

/-- The lead is empty or ends in a slash, and the slash adds no step. -/
theorem lead_cases (left : String) :
    (lead left).toList = [] ∧ left.toList = [] ∨
      ∃ front, (lead left).toList = front ++ ['/'] ∧
        (left.toList = front ∨ left.toList = front ++ ['/']) := by
  rw [lead]
  cases last : left.toList.getLast? with
  | none =>
      rw [List.getLast?_eq_none_iff] at last
      exact .inl ⟨last, last⟩
  | some char =>
      rcases List.getLast?_eq_some_iff.mp last with ⟨front, text⟩
      right
      by_cases slash : char = '/'
      · subst slash
        exact ⟨front, text, .inr text⟩
      · rw [if_pos (by simpa using slash), String.toList_append]
        exact ⟨left.toList, rfl, .inl rfl⟩

/-- The segments of a path that take a step. -/
abbrev moving (path : List (List Char)) : List (List Char) :=
  path.filter fun segment => !isIdle segment

/-- The segments of a joined path: in front those of the left side, apart from ones that
take no step, then the name. -/
theorem segments_join (left : String) {name : String} (slashless : '/' ∉ name.toList) :
    ∃ front, segments (join left name) = front ++ [name.toList] ∧
      moving front = moving (segments left) := by
  have head : name.toList.head? ≠ some '/' := fun slash =>
    slashless (List.mem_of_mem_head? slash)
  have own : Text.fields '/' name.toList = [name.toList] := Text.fields_of_not_mem slashless
  rw [join_eq_lead_append head, segments, segments, String.toList_append]
  rcases lead_cases left with ⟨leadEmpty, leftEmpty⟩ | ⟨front, leadIs, leftIs⟩
  · rw [leadEmpty, leftEmpty]
    exact ⟨[], own, rfl⟩
  · rw [leadIs, List.append_assoc, List.singleton_append, Text.fields_append, own]
    refine ⟨_, rfl, ?_⟩
    rcases leftIs with leftIs | leftIs
    · rw [leftIs]
    · rw [leftIs, Text.fields_append, moving, moving, List.filter_append]
      exact (List.append_nil _).symm

theorem Plain.not_idle {name : String} (plain : Plain name) : isIdle name.toList = false := by
  have dot : ".".toList = ['.'] := rfl
  rw [isIdle, decide_eq_false_iff_not, not_or, ← dot, String.toList_inj,
    String.toList_eq_nil_iff]
  exact ⟨plain.ne_empty, plain.ne_dot⟩

/-- A plain name takes one more step. -/
theorem steps_join (left : String) {name : String} (plain : Plain name) :
    steps (join left name) = steps left ++ [name] := by
  rcases segments_join left plain.no_slash with ⟨front, segmented, moves⟩
  have own : moving [name.toList] = [name.toList] := by
    simp [moving, plain.not_idle]
  rw [steps, steps, segmented, List.filter_append, List.map_append]
  change (moving front).map _ ++ (moving [name.toList]).map _ = _
  rw [moves, own]
  simp

theorem namesDirectory_join (left : String) {name : String} (plain : Plain name) :
    namesDirectory (join left name) = false := by
  rcases segments_join left plain.no_slash with ⟨front, segmented, _⟩
  simp [namesDirectory, segmented, plain.not_idle]

theorem endsInDot_join (left : String) {name : String} (plain : Plain name) :
    endsInDot (join left name) = false := by
  rcases segments_join left plain.no_slash with ⟨front, segmented, _⟩
  have idle := plain.not_idle
  rw [isIdle, decide_eq_false_iff_not, not_or] at idle
  rw [endsInDot, segmented, List.filter_append, decide_eq_false_iff_not]
  simpa [idle.1] using idle.2

/-! ## Paths that cannot be asked for -/

theorem isImpossible_eq_false_iff (path : String) :
    isImpossible path = false ↔ '\x00' ∉ path.toList ∧ path.utf8ByteSize ≤ pathLimit := by
  simp [isImpossible]

/-- A path that can be asked for can also be asked for without what follows it. -/
theorem isImpossible_append {front more : String}
    (possible : isImpossible (front ++ more) = false) : isImpossible front = false := by
  rw [isImpossible_eq_false_iff, String.toList_append, String.utf8ByteSize_append] at possible
  rw [isImpossible_eq_false_iff]
  constructor
  · exact fun inFront => possible.1 (List.mem_append_left _ inFront)
  · omega

theorem exists_lead_eq (left : String) : ∃ more, lead left = left ++ more := by
  rw [lead]
  split
  · exact ⟨"/", rfl⟩
  · exact ⟨"", (String.append_empty).symm⟩

theorem isImpossible_of_join {left name : String} (head : name.toList.head? ≠ some '/')
    (possible : isImpossible (join left name) = false) : isImpossible left = false := by
  rcases exists_lead_eq left with ⟨more, leadIs⟩
  rw [join_eq_lead_append head, leadIs, String.append_assoc] at possible
  exact isImpossible_append possible

/-- A join adds the name and at most one slash. -/
theorem utf8ByteSize_join_le (left : String) {name : String}
    (head : name.toList.head? ≠ some '/') :
    (join left name).utf8ByteSize ≤ left.utf8ByteSize + 1 + name.utf8ByteSize := by
  have slash : "/".utf8ByteSize = 1 := by decide
  rw [join_eq_lead_append head, lead]
  split
  · rw [String.utf8ByteSize_append, String.utf8ByteSize_append, slash]
  · rw [String.utf8ByteSize_append]
    omega

theorem isImpossible_join {left name : String} (plain : Plain name)
    (possible : isImpossible left = false)
    (short : left.utf8ByteSize + 1 + name.utf8ByteSize ≤ pathLimit) :
    isImpossible (join left name) = false := by
  rw [isImpossible_eq_false_iff] at possible ⊢
  have size := utf8ByteSize_join_le left plain.head?_ne
  refine ⟨?_, by omega⟩
  rw [join_eq_lead_append plain.head?_ne, lead, String.toList_append, List.mem_append, not_or]
  refine ⟨?_, plain.no_end⟩
  split
  · rw [String.toList_append, List.mem_append, not_or]
    exact ⟨possible.1, by decide⟩
  · exact possible.1

/-! ## Names that the store gives -/

/-- A name that holds another character than a dot is neither empty nor made of dots. -/
theorem plain_of_mem {name : String} {char : Char} (member : char ∈ name.toList)
    (noDot : char ≠ '.') (no_slash : '/' ∉ name.toList) (no_end : '\x00' ∉ name.toList) :
    Plain name := by
  have ne_of {other : String} (outside : char ∉ other.toList) : name ≠ other := by
    rintro rfl
    exact outside member
  constructor
  case ne_empty => exact ne_of List.not_mem_nil
  case ne_dot => exact ne_of fun dot => noDot (List.mem_singleton.mp dot)
  case ne_dots => exact ne_of fun dots => noDot (by simpa using dots)
  case no_slash => exact no_slash
  case no_end => exact no_end

theorem plain_writeInt (value : Int) : Plain (Text.writeInt value) := by
  have foreign {char : Char} (isForeign : ¬ char.isDigit ∧ char ≠ '-') :
      char ∉ (Text.writeInt value).toList :=
    fun member => (Text.isNumeric_of_mem_writeInt member).ne isForeign rfl
  have ne_nil : (Text.writeInt value).toList ≠ [] := fun nil =>
    Text.writeInt_ne_empty value (String.toList_eq_nil_iff.mp nil)
  rcases List.exists_mem_of_ne_nil _ ne_nil with ⟨char, member⟩
  exact plain_of_mem member ((Text.isNumeric_of_mem_writeInt member).ne (by decide))
    (foreign (by decide)) (foreign (by decide))

theorem plain_directoryName (space : Space) : Plain space.directoryName := by
  cases space <;> decide

theorem directoryName_inj {first second : Space}
    (same : first.directoryName = second.directoryName) : first = second := by
  cases first <;> cases second <;> first | rfl | exact absurd same (by decide)

theorem writeInt_inj {first second : Int64}
    (same : Text.writeInt first.toInt = Text.writeInt second.toInt) : first = second := by
  have read := Text.readInt64?_writeInt first
  rw [same, Text.readInt64?_writeInt] at read
  exact (Option.some.inj read).symm

/-- A name that is prepared for a sidecar. -/
def preparedName (name : FileName) : String :=
  name.sidecarName ++ ".tmp"

theorem foreign_not_mem_sidecarName (name : FileName) {char : Char}
    (foreign : ¬ char.isDigit ∧ char ≠ '-') (outside : char ∉ FileName.sidecarEnding.toList) :
    char ∉ name.sidecarName.toList := by
  rw [FileName.sidecarName, String.toList_append, List.mem_append, not_or]
  exact ⟨fun member => (name.isNumeric_of_mem_stem member).ne foreign rfl, outside⟩

/-- A text that goes on after the ending of a data file is no dots. -/
theorem plain_of_sidecarName_append (name : FileName) (more : String)
    (slashless : '/' ∉ more.toList) (endless : '\x00' ∉ more.toList) :
    Plain (name.sidecarName ++ more) := by
  have long : 't' ∈ (name.sidecarName ++ more).toList := by
    rw [String.toList_append, FileName.sidecarName, String.toList_append]
    exact List.mem_append_left _ (List.mem_append_right _ (by decide))
  have outside {char : Char} (foreign : ¬ char.isDigit ∧ char ≠ '-')
      (notInEnding : char ∉ FileName.sidecarEnding.toList) (notInMore : char ∉ more.toList) :
      char ∉ (name.sidecarName ++ more).toList := by
    rw [String.toList_append, List.mem_append, not_or]
    exact ⟨foreign_not_mem_sidecarName name foreign notInEnding, notInMore⟩
  exact plain_of_mem long (by decide) (outside (by decide) (by decide) slashless)
    (outside (by decide) (by decide) endless)

theorem plain_sidecarName (name : FileName) : Plain name.sidecarName := by
  have plain := plain_of_sidecarName_append name "" (by decide) (by decide)
  rwa [String.append_empty] at plain

theorem plain_preparedName (name : FileName) : Plain (preparedName name) :=
  plain_of_sidecarName_append name ".tmp" (by decide) (by decide)

/-- A prepared file is not taken for a sidecar. -/
theorem isSidecarName_preparedName (name : FileName) :
    FileName.isSidecarName (preparedName name) = false := by
  rw [FileName.isSidecarName, preparedName, String.toList_append, Bool.eq_false_iff, ne_eq,
    List.isSuffixOf_iff_suffix]
  rintro ⟨front, same⟩
  have last := congrArg List.getLast? same
  rw [List.getLast?_append_of_ne_nil _ (by decide), List.getLast?_append_of_ne_nil _ (by decide)]
    at last
  exact absurd last (by decide)

theorem ne_preparedName {name : String} (isSidecar : FileName.isSidecarName name)
    (prepared : FileName) : name ≠ preparedName prepared := by
  rintro rfl
  rw [isSidecarName_preparedName] at isSidecar
  contradiction

theorem stemOf_sidecarName (name : FileName) :
    stemOf name.sidecarName.toList = name.stem.toList ++ ".tsfile".toList := by
  have ending : FileName.sidecarEnding.toList = '.' :: "tsfile.resource".toList := rfl
  have others : Text.fields '.' "tsfile.resource".toList =
      ["tsfile".toList, "resource".toList] := rfl
  have free : '.' ∉ name.stem.toList := fun member =>
    (name.isNumeric_of_mem_stem member).ne (by decide) rfl
  rw [stemOf, FileName.sidecarName, String.toList_append, ending, Text.fields_append_mark free,
    others]
  exact if_neg (List.append_ne_nil_of_right_ne_nil _ (List.cons_ne_nil _ _))

/-- The extension of a sidecar is cut off before the new one is put in its place. -/
theorem temporaryName_sidecarName (name : FileName) :
    temporaryName true name.sidecarName.toList = (preparedName name).toList := by
  have notDots : name.sidecarName.toList ≠ ['.', '.'] := fun dots =>
    (plain_sidecarName name).ne_dots (String.toList_inj.mp dots)
  have stemNotDot : stemOf name.sidecarName.toList ≠ ['.'] := by
    rw [stemOf_sidecarName]
    intro dot
    have last := congrArg List.getLast? dot
    rw [List.getLast?_append_of_ne_nil _ (by decide)] at last
    exact absurd last (by decide)
  rw [temporaryName, if_neg (by simp [notDots, stemNotDot]), withExtension, stemOf_sidecarName,
    preparedName, FileName.sidecarName, String.toList_append, String.toList_append,
    List.append_assoc, List.append_assoc]
  rfl

theorem join_preparedName (left : String) (name : FileName) :
    join left (preparedName name) = join left name.sidecarName ++ ".tmp" := by
  rw [join_eq_lead_append (plain_preparedName name).head?_ne,
    join_eq_lead_append (plain_sidecarName name).head?_ne, preparedName, String.append_assoc]

/-- A sidecar is prepared beside its path. -/
theorem temporary_join (left : String) (name : FileName) :
    temporary (join left name.sidecarName) = join left (preparedName name) := by
  have plain := plain_sidecarName name
  rcases segments_join left plain.no_slash with ⟨front, segmented, _⟩
  have whole : Text.joinFields '/' (front ++ [name.sidecarName.toList]) =
      (join left name.sidecarName).toList := by
    rw [← segmented, segments, Text.joinFields_fields]
  have last : (segments (join left name.sidecarName)).reverse.dropWhile isIdle =
      name.sidecarName.toList :: front.reverse := by
    rw [segmented, List.reverse_append]
    exact List.dropWhile_cons_of_neg (by simp [plain.not_idle])
  rw [temporary, last]
  dsimp only
  rw [namesDirectory_join left plain, Bool.not_false, temporaryName_sidecarName, preparedName,
    String.toList_append, List.reverse_reverse, Text.joinFields_append_last, whole,
    String.ofList_append, String.ofList_toList, String.ofList_toList, ← preparedName,
    join_preparedName]

end SeriesStore.Disk.Path
