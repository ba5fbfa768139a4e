import SeriesStore.Proofs.Sidecar.Checksum
import SeriesStore.Proofs.Sidecar.RoundTrip

/-!
# Damaged sidecars

A sidecar in which up to four bytes in a row have changed has another checksum, and one whose
footer has changed states another checksum or has another mark at its end.  Both are looked
at before anything else, so no such sidecar is read.
-/

namespace SeriesStore.Sidecar

/-- Whether bytes have been replaced by others of the same length, and only among the `count`
bytes from `start` on. -/
structure ChangedWithin (start count : Nat) (bytes changed : List UInt8) : Prop where
  length : changed.length = bytes.length
  outside : ∀ index, index < start ∨ start + count ≤ index → changed[index]? = bytes[index]?

section Changed

variable {start count : Nat} {bytes changed : List UInt8}

theorem ChangedWithin.refl (start count : Nat) (bytes : List UInt8) :
    ChangedWithin start count bytes bytes :=
  ⟨rfl, fun _ _ => rfl⟩

/-- Everything before and behind the changed bytes is what it was. -/
theorem ChangedWithin.eq_append (within : ChangedWithin start count bytes changed) :
    changed = bytes.take start ++ (changed.drop start).take count ++ bytes.drop (start + count) := by
  have front : changed.take start = bytes.take start := by
    apply List.ext_getElem?
    intro index
    rw [List.getElem?_take, List.getElem?_take]
    split
    · rename_i before
      exact within.outside index (.inl before)
    · rfl
  have back : changed.drop (start + count) = bytes.drop (start + count) := by
    apply List.ext_getElem?
    intro index
    rw [List.getElem?_drop, List.getElem?_drop]
    exact within.outside _ (.inr (Nat.le_add_right _ _))
  rw [← front, ← back, List.append_assoc, ← List.drop_drop, List.take_append_drop,
    List.take_append_drop]

/-- A change before the last bytes leaves these as they are. -/
theorem ChangedWithin.exists_front {front back : List UInt8}
    (within : ChangedWithin start count (front ++ back) changed)
    (inFront : start + count ≤ front.length) :
    ∃ other, ChangedWithin start count front other ∧ changed = other ++ back := by
  have length := within.length
  rw [List.length_append] at length
  have back_eq : changed.drop front.length = back := by
    apply List.ext_getElem?
    intro index
    have there : (front ++ back)[front.length + index]? = back[index]? := by
      rw [List.getElem?_append_right (Nat.le_add_right _ _), Nat.add_sub_cancel_left]
    rw [List.getElem?_drop, ← there]
    exact within.outside _ (.inr (Nat.le_trans inFront (Nat.le_add_right _ _)))
  refine ⟨changed.take front.length, ⟨by rw [List.length_take]; omega, ?_⟩, ?_⟩
  · intro index apart
    rw [List.getElem?_take]
    split
    · rename_i before
      rw [within.outside index apart, List.getElem?_append_left before]
    · rename_i behind
      exact (List.getElem?_eq_none (Nat.le_of_not_lt behind)).symm
  · rw [← back_eq, List.take_append_drop]

/-- A change of at most four bytes in a row shows in the checksum. -/
theorem ChangedWithin.checksum_ne (within : ChangedWithin start count bytes changed)
    (few : count ≤ 4) (differ : changed ≠ bytes) : checksum changed ≠ checksum bytes := by
  have same : bytes = bytes.take start ++ (bytes.drop start).take count ++
      bytes.drop (start + count) :=
    (ChangedWithin.refl start count bytes).eq_append
  have length : ((changed.drop start).take count).length =
      ((bytes.drop start).take count).length := by
    simp only [List.length_take, List.length_drop, within.length]
  have short : ((changed.drop start).take count).length ≤ 4 :=
    Nat.le_trans (List.length_take_le _ _) few
  have pieces : (changed.drop start).take count ≠ (bytes.drop start).take count := by
    intro unchanged
    apply differ
    rw [within.eq_append, unchanged, ← same]
  have sums := Sidecar.checksum_ne length short pieces (bytes.take start)
    (bytes.drop (start + count))
  rwa [← within.eq_append, ← same] at sums

end Changed

/-- A sidecar that is written is a body of at least a header and the footer of this body. -/
theorem exists_body_of_encode {file : DataFile} {written : List UInt8}
    (outcome : encode file = .ok written) :
    ∃ body, headerSize ≤ body.length ∧ written = withFooter body := by
  rcases (encode_eq_ok_iff file written).mp outcome with ⟨_, rfl⟩
  exact ⟨_, headerSize_le_length_bodyBytes _, rfl⟩

theorem decode_eq_error {bytes : List UInt8} {error : Error}
    (refused : checkedBody bytes = .error error) : decode bytes = .error error := by
  rw [decode, refused]
  rfl

/-- The footer of one body does not fit another one with another checksum. -/
theorem decode_of_other_body {body other : List UInt8} (long : headerSize ≤ other.length)
    (differ : checksum other ≠ checksum body) :
    decode (other ++ footerBytes body) =
      .error (.checksumMismatch (checksum body).toNat (checksum other).toNat) := by
  have mismatch : (checksum body).toNat ≠ (checksum other).toNat :=
    fun same => differ (UInt32.toNat_inj.mp same).symm
  apply decode_eq_error
  rw [checkedBody_append long (length_footerBytes body), drop_footerBytes,
    wordValue_take_footerBytes, if_neg (by simp), if_pos mismatch]

/-- Another footer of the same length does not fit a body. -/
theorem decode_of_other_footer {body footer : List UInt8} (long : headerSize ≤ body.length)
    (size : footer.length = footerSize) (differ : footer ≠ footerBytes body) :
    (∃ stored computed, decode (body ++ footer) = .error (.checksumMismatch stored computed)) ∨
      ∃ mark, decode (body ++ footer) = .error (.wrongMark mark) := by
  have checked := checkedBody_append long size
  split at checked
  · exact .inr ⟨_, decode_eq_error checked⟩
  rename_i mark
  split at checked
  · exact .inl ⟨_, _, decode_eq_error checked⟩
  rename_i stored
  -- Both parts are those of the right footer, so the footer is the right one.
  have checksumSize : (footer.take 4).length = 4 := by
    rw [List.length_take, size]
    rfl
  have word := wordBytes_wordValue (footer.take 4)
  rw [checksumSize, Decidable.not_not.mp stored] at word
  exfalso
  apply differ
  rw [footerBytes, word, ← Decidable.not_not.mp mark, List.take_append_drop]

/-- A sidecar that is damaged in up to four bytes in a row, or in its footer, is not read: its
checksum is wrong, or the mark at its end. -/
theorem damage_is_noticed {file : DataFile} {written damaged : List UInt8}
    (outcome : encode file = .ok written) (differ : damaged ≠ written) :
    (∀ start count, count ≤ 4 → start + count + 8 ≤ written.length →
      ChangedWithin start count written damaged →
        ∃ stored computed, decode damaged = .error (.checksumMismatch stored computed)) ∧
    (ChangedWithin (written.length - 8) 8 written damaged →
      (∃ stored computed, decode damaged = .error (.checksumMismatch stored computed)) ∨
        ∃ mark, decode damaged = .error (.wrongMark mark)) := by
  rcases exists_body_of_encode outcome with ⟨body, long, rfl⟩
  have size : (withFooter body).length = body.length + 8 := by
    rw [withFooter, List.length_append, length_footerBytes]
    rfl
  constructor
  · intro start count few inBody within
    rcases within.exists_front (by omega) with ⟨other, changed, rfl⟩
    have otherLong : headerSize ≤ other.length := by
      rw [changed.length]
      exact long
    have otherBody : other ≠ body := fun same => differ (by rw [same]; rfl)
    exact ⟨_, _, decode_of_other_body otherLong (changed.checksum_ne few otherBody)⟩
  · intro within
    have damaged_eq := within.eq_append
    have front : (withFooter body).take ((withFooter body).length - 8) = body := by
      rw [size, Nat.add_sub_cancel, withFooter, List.take_left]
    have back : (withFooter body).drop ((withFooter body).length - 8 + 8) = [] := by
      apply List.drop_eq_nil_of_le
      omega
    rw [front, back, List.append_nil] at damaged_eq
    rw [damaged_eq] at differ ⊢
    apply decode_of_other_footer long
    · rw [List.length_take, List.length_drop, within.length, size]
      rw [Nat.add_sub_cancel, Nat.add_sub_cancel_left]
      rfl
    · exact fun same => differ (by rw [same]; rfl)

/-! Four bytes in the number of a file are overwritten, and then the whole footer. -/

/-- Puts bytes in the place of those that stand from `start` on. -/
def overwrite (start : Nat) (new bytes : List UInt8) : List UInt8 :=
  bytes.take start ++ new ++ bytes.drop (start + new.length)

theorem changedWithin_overwrite {start : Nat} {new bytes : List UInt8}
    (inside : start + new.length ≤ bytes.length) :
    ChangedWithin start new.length bytes (overwrite start new bytes) where
  length := by
    simp only [overwrite, List.length_append, List.length_take, List.length_drop]
    omega
  outside := by
    have front : (bytes.take start).length = start := by
      rw [List.length_take]
      omega
    rintro index (before | behind)
    · rw [overwrite, List.append_assoc, List.getElem?_append_left (by omega),
        List.getElem?_take_of_lt before]
    · have size : (bytes.take start ++ new).length = start + new.length := by
        rw [List.length_append, front]
      rw [overwrite, List.getElem?_append_right (by omega), size, List.getElem?_drop,
        Nat.add_sub_cancel' behind]

theorem damage_is_noticed_sample :
    ∃ written, encode Sample.extreme = .ok written ∧
      (∃ stored computed, decode (overwrite 8 [1, 2, 3, 4] written) =
        .error (.checksumMismatch stored computed)) ∧
      ((∃ stored computed, decode (overwrite 89 (List.replicate 8 0) written) =
          .error (.checksumMismatch stored computed)) ∨
        ∃ mark, decode (overwrite 89 (List.replicate 8 0) written) = .error (.wrongMark mark)) := by
  have encoded : encode Sample.extreme = .ok (content Sample.extreme) :=
    encode_eq_ok ⟨by decide +kernel, by decide +kernel⟩
  have size : (content Sample.extreme).length = 97 := by decide +kernel
  have body : overwrite 8 [1, 2, 3, 4] (content Sample.extreme) ≠ content Sample.extreme := by
    decide +kernel
  have footer : overwrite 89 (List.replicate 8 0) (content Sample.extreme) ≠
      content Sample.extreme := by
    intro same
    have last := congrArg (fun bytes => bytes[96]?) same
    revert last
    decide +kernel
  have inBody : ChangedWithin 8 4 (content Sample.extreme)
      (overwrite 8 [1, 2, 3, 4] (content Sample.extreme)) :=
    @changedWithin_overwrite 8 [1, 2, 3, 4] _ (by rw [size]; decide)
  have inFooter : ChangedWithin 89 8 (content Sample.extreme)
      (overwrite 89 (List.replicate 8 0) (content Sample.extreme)) :=
    @changedWithin_overwrite 89 (List.replicate 8 0) _ (by rw [size]; decide)
  refine ⟨_, encoded, ?_, ?_⟩
  · exact (damage_is_noticed encoded body).1 8 4 (by decide) (by rw [size]; decide) inBody
  · apply (damage_is_noticed encoded footer).2
    rw [size]
    exact inFooter

end SeriesStore.Sidecar
