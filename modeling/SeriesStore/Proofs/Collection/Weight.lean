import Mathlib
import SeriesStore.Collection.SortedMap

/-!
# The weight of a map

A map that is filled from a list takes over some of its entries, and each of them once at
most.  So whatever an entry weighs, the map does not weigh more than the list.
-/

namespace SeriesStore.SortedMap

universe u v

variable {κ : Type u} {ν : Type v} {cmp : κ → κ → Ordering}

/-- A placed entry adds no more than its own weight. -/
theorem sum_insertEntry_le (weight : κ × ν → Nat) (key : κ) (value : ν)
    (entries : List (κ × ν)) :
    ((insertEntry cmp key value entries).map weight).sum ≤
      weight (key, value) + (entries.map weight).sum := by
  induction entries with
  | nil => exact Nat.le_refl _
  | cons first rest ih =>
      rcases first with ⟨other, old⟩
      rw [insertEntry]
      split <;> simp only [List.map_cons, List.sum_cons] <;> omega

/-- Filling a map from a list takes each entry once at most. -/
theorem sum_entries_ofList_le [Std.TransCmp cmp] (weight : κ × ν → Nat)
    (entries : List (κ × ν)) :
    ((ofList cmp entries).entries.map weight).sum ≤ (entries.map weight).sum := by
  have fill : ∀ (rest : List (κ × ν)) (filled : SortedMap κ ν cmp),
      ((rest.foldl (fun map new => map.insert new.1 new.2) filled).entries.map weight).sum ≤
        (filled.entries.map weight).sum + (rest.map weight).sum := by
    intro rest
    induction rest with
    | nil => exact fun filled => Nat.le_refl _
    | cons new rest ih =>
        intro filled
        have others := ih (filled.insert new.1 new.2)
        have one : ((filled.insert new.1 new.2).entries.map weight).sum ≤
            weight new + (filled.entries.map weight).sum :=
          sum_insertEntry_le weight new.1 new.2 filled.entries
        rw [List.foldl_cons, List.map_cons, List.sum_cons]
        omega
  have bound := fill entries empty
  rwa [show ((empty : SortedMap κ ν cmp).entries.map weight).sum = 0 from rfl,
    Nat.zero_add] at bound

theorem length_entries_ofList_le [Std.TransCmp cmp] (entries : List (κ × ν)) :
    (ofList cmp entries).entries.length ≤ entries.length := by
  simpa [List.map_const'] using @sum_entries_ofList_le _ _ cmp _ (fun _ => 1) entries

end SeriesStore.SortedMap
