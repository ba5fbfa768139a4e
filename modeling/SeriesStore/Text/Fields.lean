/-!
# Fields between marks

A text is cut at every occurrence of a mark, so a text with `n` marks has
`n + 1` fields, some of them possibly empty.  Joining undoes cutting, and
cutting undoes joining when no field holds the mark.
-/

namespace SeriesStore.Text

/-- The fields of a text between the occurrences of `mark`. -/
def fields (mark : Char) : List Char → List (List Char)
  | [] => [[]]
  | char :: rest =>
      if char = mark then
        [] :: fields mark rest
      else
        match fields mark rest with
        | [] => [[char]]
        | first :: others => (char :: first) :: others

/-- The fields one after the other with `mark` between them. -/
def joinFields (mark : Char) : List (List Char) → List Char
  | [] => []
  | [field] => field
  | field :: others => field ++ mark :: joinFields mark others

theorem fields_ne_nil (mark : Char) (text : List Char) : fields mark text ≠ [] := by
  cases text with
  | nil => simp [fields]
  | cons char rest =>
      simp only [fields]
      split
      · simp
      · split <;> simp

theorem fields_of_not_mem {mark : Char} {field : List Char} (free : mark ∉ field) :
    fields mark field = [field] := by
  induction field with
  | nil => rfl
  | cons char rest ih =>
      simp only [List.mem_cons, not_or] at free
      simp [fields, Ne.symm free.1, ih free.2]

theorem fields_append_mark {mark : Char} {field : List Char} (free : mark ∉ field)
    (rest : List Char) : fields mark (field ++ mark :: rest) = field :: fields mark rest := by
  induction field with
  | nil => simp [fields]
  | cons char others ih =>
      simp only [List.mem_cons, not_or] at free
      simp [fields, Ne.symm free.1, ih free.2]

/-- A mark cuts a text in two, whatever stands before it. -/
theorem fields_append (mark : Char) (first second : List Char) :
    fields mark (first ++ mark :: second) = fields mark first ++ fields mark second := by
  induction first with
  | nil => simp [fields]
  | cons char rest ih =>
      simp only [List.cons_append, fields]
      split
      · rw [ih]
        rfl
      · rw [ih]
        cases parts : fields mark rest with
        | nil => exact absurd parts (fields_ne_nil mark rest)
        | cons field others => rfl

/-- Cutting undoes joining when the mark occurs in no field. -/
theorem fields_joinFields {mark : Char} {parts : List (List Char)} (ne : parts ≠ [])
    (free : ∀ field ∈ parts, mark ∉ field) : fields mark (joinFields mark parts) = parts := by
  induction parts with
  | nil => contradiction
  | cons field others ih =>
      have fieldFree := free field List.mem_cons_self
      cases others with
      | nil => exact fields_of_not_mem fieldFree
      | cons next others =>
          rw [joinFields, fields_append_mark fieldFree,
            ih (List.cons_ne_nil _ _) fun part member => free part (List.mem_cons_of_mem _ member)]
          simp

/-- Joining undoes cutting. -/
theorem joinFields_fields (mark : Char) (text : List Char) :
    joinFields mark (fields mark text) = text := by
  induction text with
  | nil => rfl
  | cons char rest ih =>
      have ne := fields_ne_nil mark rest
      simp only [fields]
      split
      · rename_i char_eq
        cases parts : fields mark rest with
        | nil => contradiction
        | cons first others =>
            rw [parts] at ih
            simp [joinFields, ih, char_eq]
      · cases parts : fields mark rest with
        | nil => contradiction
        | cons first others =>
            rw [parts] at ih
            cases others with
            | nil => simpa [joinFields] using ih
            | cons next others => simpa [joinFields] using ih

/-- What the last field has at its end the whole text has at its end. -/
theorem joinFields_append_last (mark : Char) (front : List (List Char))
    (field more : List Char) :
    joinFields mark (front ++ [field ++ more]) = joinFields mark (front ++ [field]) ++ more := by
  induction front with
  | nil => rfl
  | cons first rest ih =>
      have unfolded (last : List Char) : joinFields mark (first :: rest ++ [last]) =
          first ++ mark :: joinFields mark (rest ++ [last]) := by
        cases rest <;> rfl
      rw [unfolded, unfolded, ih]
      simp

end SeriesStore.Text
