/-!
# Sorted maps

A sorted map is the list of its entries in strictly increasing key order, under
a comparison that is part of the type.  Two maps that answer every lookup alike
are therefore equal (`ext_get?`), and the order in which a map is read never
depends on the order in which it was filled.
-/

namespace SeriesStore

universe u v

/-- A map whose entries are listed in strictly increasing order of their keys. -/
structure SortedMap (κ : Type u) (ν : Type v) (cmp : κ → κ → Ordering) where
  entries : List (κ × ν)
  sorted : entries.Pairwise fun first second => cmp first.1 second.1 = .lt

namespace SortedMap

variable {κ : Type u} {ν : Type v} {cmp : κ → κ → Ordering}

theorem ext_entries {first second : SortedMap κ ν cmp}
    (entries_eq : first.entries = second.entries) : first = second := by
  cases first
  cases second
  cases entries_eq
  rfl

instance [DecidableEq κ] [DecidableEq ν] : DecidableEq (SortedMap κ ν cmp) :=
  fun first second =>
    decidable_of_iff (first.entries = second.entries)
      ⟨ext_entries, congrArg SortedMap.entries⟩

/-- The map without entries. -/
def empty : SortedMap κ ν cmp :=
  ⟨[], .nil⟩

instance : Inhabited (SortedMap κ ν cmp) :=
  ⟨empty⟩

/-- The first value stored under a key. -/
def lookup (cmp : κ → κ → Ordering) (key : κ) : List (κ × ν) → Option ν
  | [] => none
  | (other, value) :: rest =>
      match cmp key other with
      | .eq => some value
      | _ => lookup cmp key rest

/-- The value stored under `key`. -/
def get? (map : SortedMap κ ν cmp) (key : κ) : Option ν :=
  lookup cmp key map.entries

/-- Whether some value is stored under `key`. -/
def contains (map : SortedMap κ ν cmp) (key : κ) : Bool :=
  (map.get? key).isSome

/-- The keys in increasing order. -/
def keys (map : SortedMap κ ν cmp) : List κ :=
  map.entries.map Prod.fst

/-- The number of entries. -/
def size (map : SortedMap κ ν cmp) : Nat :=
  map.entries.length

/-- Places an entry before the first larger key, in the place of an equal one. -/
def insertEntry (cmp : κ → κ → Ordering) (key : κ) (value : ν) : List (κ × ν) → List (κ × ν)
  | [] => [(key, value)]
  | (other, old) :: rest =>
      match cmp key other with
      | .lt => (key, value) :: (other, old) :: rest
      | .eq => (key, value) :: rest
      | .gt => (other, old) :: insertEntry cmp key value rest

theorem mem_insertEntry {key : κ} {value : ν} {entry : κ × ν} {entries : List (κ × ν)}
    (member : entry ∈ insertEntry cmp key value entries) :
    entry = (key, value) ∨ entry ∈ entries := by
  induction entries with
  | nil => simpa [insertEntry] using member
  | cons first rest ih =>
      obtain ⟨other, old⟩ := first
      simp only [insertEntry] at member
      split at member <;> simp only [List.mem_cons] at member ⊢
      · exact member
      · exact member.imp_right .inr
      · rcases member with rfl | member
        · exact .inr (.inl rfl)
        · exact (ih member).imp_right .inr

theorem insertEntry_sorted [Std.TransCmp cmp] (key : κ) (value : ν) {entries : List (κ × ν)}
    (sorted : entries.Pairwise fun first second => cmp first.1 second.1 = .lt) :
    (insertEntry cmp key value entries).Pairwise
      fun first second => cmp first.1 second.1 = .lt := by
  induction entries with
  | nil => simp [insertEntry]
  | cons first rest ih =>
      obtain ⟨other, old⟩ := first
      obtain ⟨larger, restSorted⟩ := List.pairwise_cons.mp sorted
      simp only [insertEntry]
      split
      · rename_i less
        refine List.pairwise_cons.mpr ⟨fun entry member => ?_, sorted⟩
        rcases List.mem_cons.mp member with rfl | member
        · exact less
        · exact Std.TransCmp.lt_trans less (larger entry member)
      · rename_i equal
        refine List.pairwise_cons.mpr ⟨fun entry member => ?_, restSorted⟩
        exact Std.TransCmp.lt_of_eq_of_lt equal (larger entry member)
      · rename_i greater
        refine List.pairwise_cons.mpr ⟨fun entry member => ?_, ih restSorted⟩
        rcases mem_insertEntry member with rfl | member
        · exact Std.OrientedCmp.gt_iff_lt.mp greater
        · exact larger entry member

/-- Stores `value` under `key`, in the place of an earlier value. -/
def insert [Std.TransCmp cmp] (map : SortedMap κ ν cmp) (key : κ) (value : ν) :
    SortedMap κ ν cmp :=
  ⟨insertEntry cmp key value map.entries, insertEntry_sorted key value map.sorted⟩

/-- Removes what is stored under `key`. -/
def erase (map : SortedMap κ ν cmp) (key : κ) : SortedMap κ ν cmp :=
  ⟨map.entries.filter fun entry => cmp key entry.1 != .eq, map.sorted.filter _⟩

/-- Inserts the listed entries from left to right, so the last entry of a
repeated key stays. -/
def ofList (cmp : κ → κ → Ordering) [Std.TransCmp cmp] (entries : List (κ × ν)) :
    SortedMap κ ν cmp :=
  entries.foldl (fun map entry => map.insert entry.1 entry.2) empty

@[simp]
theorem get?_empty (key : κ) : (empty : SortedMap κ ν cmp).get? key = none := rfl

/-- Filling a map from a list brings in no other entries. -/
theorem mem_of_mem_entries_ofList [Std.TransCmp cmp] {entry : κ × ν} {entries : List (κ × ν)}
    (member : entry ∈ (ofList cmp entries).entries) : entry ∈ entries := by
  have fill : ∀ (rest : List (κ × ν)) (filled : SortedMap κ ν cmp),
      entry ∈ (rest.foldl (fun map new => map.insert new.1 new.2) filled).entries →
        entry ∈ rest ∨ entry ∈ filled.entries := by
    intro rest
    induction rest with
    | nil =>
        intro filled member
        exact .inr member
    | cons new rest ih =>
        intro filled member
        rcases ih (filled.insert new.1 new.2) member with member | member
        · exact .inl (List.mem_cons_of_mem new member)
        · rcases mem_insertEntry member with rfl | member
          · exact .inl List.mem_cons_self
          · exact .inr member
  rcases fill entries empty member with member | member
  · exact member
  · contradiction

theorem keys_increasing (map : SortedMap κ ν cmp) :
    map.keys.Pairwise fun first second => cmp first second = .lt :=
  List.pairwise_map.mpr map.sorted

section Lookup

variable [Std.LawfulEqCmp cmp]

theorem lookup_eq_some_iff {key : κ} {value : ν} {entries : List (κ × ν)}
    (sorted : entries.Pairwise fun first second => cmp first.1 second.1 = .lt) :
    lookup cmp key entries = some value ↔ (key, value) ∈ entries := by
  induction entries with
  | nil => simp [lookup]
  | cons first rest ih =>
      obtain ⟨other, old⟩ := first
      obtain ⟨larger, restSorted⟩ := List.pairwise_cons.mp sorted
      simp only [lookup]
      split
      · rename_i equal
        have key_eq : key = other := Std.LawfulEqCmp.eq_of_compare equal
        subst key_eq
        have absent : (key, value) ∉ rest := fun member => by
          have less : cmp key key = .lt := larger _ member
          have equal : cmp key key = .eq := Std.ReflCmp.compare_self
          rw [equal] at less
          contradiction
        simp [absent, eq_comm]
      · rename_i different
        have key_ne : key ≠ other := fun key_eq =>
          different (key_eq ▸ Std.ReflCmp.compare_self)
        rw [ih restSorted]
        simp [key_ne]

/-- A lookup finds exactly what the entries hold. -/
theorem get?_eq_some_iff (map : SortedMap κ ν cmp) (key : κ) (value : ν) :
    map.get? key = some value ↔ (key, value) ∈ map.entries :=
  lookup_eq_some_iff map.sorted

theorem mem_keys_iff (map : SortedMap κ ν cmp) (key : κ) :
    key ∈ map.keys ↔ ∃ value, map.get? key = some value := by
  simp [keys, get?_eq_some_iff]

theorem get?_eq_none_iff (map : SortedMap κ ν cmp) (key : κ) :
    map.get? key = none ↔ key ∉ map.keys := by
  rw [mem_keys_iff, Option.eq_none_iff_forall_ne_some, not_exists]

theorem keys_nodup (map : SortedMap κ ν cmp) : map.keys.Nodup := by
  apply map.keys_increasing.imp
  rintro key _ less rfl
  have equal : cmp key key = .eq := Std.ReflCmp.compare_self
  rw [equal] at less
  contradiction

theorem get?_erase_self (map : SortedMap κ ν cmp) (key : κ) : (map.erase key).get? key = none := by
  rw [Option.eq_none_iff_forall_ne_some]
  intro value stored
  rw [get?_eq_some_iff, erase, List.mem_filter] at stored
  have equal : cmp key key = .eq := Std.ReflCmp.compare_self
  simp [equal] at stored

theorem get?_erase_of_ne (map : SortedMap κ ν cmp) {key asked : κ} (ne : asked ≠ key) :
    (map.erase key).get? asked = map.get? asked := by
  have differ : cmp key asked ≠ .eq := fun equal => ne (Std.LawfulEqCmp.eq_of_compare equal).symm
  apply Option.ext
  intro value
  rw [get?_eq_some_iff, get?_eq_some_iff, erase, List.mem_filter]
  simp [differ]

theorem lookup_insertEntry_self (key : κ) (value : ν) (entries : List (κ × ν)) :
    lookup cmp key (insertEntry cmp key value entries) = some value := by
  induction entries with
  | nil => simp [insertEntry, lookup, Std.ReflCmp.compare_self]
  | cons first rest ih =>
      obtain ⟨other, old⟩ := first
      simp only [insertEntry]
      split
      · simp [lookup, Std.ReflCmp.compare_self]
      · simp [lookup, Std.ReflCmp.compare_self]
      · rename_i greater
        simp [lookup, greater, ih]

theorem lookup_insertEntry_of_ne {key asked : κ} (ne : asked ≠ key) (value : ν)
    (entries : List (κ × ν)) :
    lookup cmp asked (insertEntry cmp key value entries) = lookup cmp asked entries := by
  have asked_ne : cmp asked key ≠ .eq := fun equal => ne (Std.LawfulEqCmp.eq_of_compare equal)
  have skip (rest : List (κ × ν)) :
      lookup cmp asked ((key, value) :: rest) = lookup cmp asked rest := by
    simp only [lookup]
  induction entries with
  | nil => exact skip []
  | cons first rest ih =>
      obtain ⟨other, old⟩ := first
      simp only [insertEntry]
      split
      · exact skip _
      · rename_i equal
        have key_eq : key = other := Std.LawfulEqCmp.eq_of_compare equal
        subst key_eq
        rw [skip]
        simp only [lookup]
      · simp only [lookup, ih]

variable [Std.TransCmp cmp]

@[simp]
theorem get?_insert_self (map : SortedMap κ ν cmp) (key : κ) (value : ν) :
    (map.insert key value).get? key = some value :=
  lookup_insertEntry_self key value map.entries

theorem get?_insert_of_ne (map : SortedMap κ ν cmp) {key asked : κ} (ne : asked ≠ key)
    (value : ν) : (map.insert key value).get? asked = map.get? asked :=
  lookup_insertEntry_of_ne ne value map.entries

/-- The keys of a map that is filled from a list are those of the list. -/
theorem mem_keys_ofList (entries : List (κ × ν)) (key : κ) :
    key ∈ (ofList cmp entries).keys ↔ key ∈ entries.map Prod.fst := by
  have fill : ∀ (rest : List (κ × ν)) (filled : SortedMap κ ν cmp),
      key ∈ (rest.foldl (fun map new => map.insert new.1 new.2) filled).keys ↔
        key ∈ filled.keys ∨ key ∈ rest.map Prod.fst := by
    intro rest
    induction rest with
    | nil => simp
    | cons new rest ih =>
        intro filled
        rw [List.foldl_cons, ih, List.map_cons, List.mem_cons, ← or_assoc]
        apply or_congr_left
        by_cases same : key = new.1
        · simp [mem_keys_iff, same]
        · simp [mem_keys_iff, get?_insert_of_ne filled same, same]
  have filled := fill entries empty
  have absent : key ∉ (empty : SortedMap κ ν cmp).keys := List.not_mem_nil
  rw [iff_false_intro absent, false_or] at filled
  exact filled

/-- Maps that know the same keys list them alike. -/
theorem keys_ext {ω : Type v} {first : SortedMap κ ν cmp} {second : SortedMap κ ω cmp}
    (same : ∀ key, key ∈ first.keys ↔ key ∈ second.keys) : first.keys = second.keys := by
  have perm := (List.perm_ext_iff_of_nodup first.keys_nodup second.keys_nodup).mpr same
  refine perm.eq_of_pairwise (fun low high _ _ lowHigh highLow => ?_) first.keys_increasing
    second.keys_increasing
  have loop := Std.TransCmp.lt_trans lowHigh highLow
  have equal : cmp low low = .eq := Std.ReflCmp.compare_self
  rw [equal] at loop
  contradiction

/-- Maps that answer every lookup alike are equal. -/
theorem ext_get? {first second : SortedMap κ ν cmp}
    (same : ∀ key, first.get? key = second.get? key) : first = second := by
  apply ext_entries
  have mem_iff : ∀ entry, entry ∈ first.entries ↔ entry ∈ second.entries := fun entry => by
    rw [← get?_eq_some_iff, ← get?_eq_some_iff, same]
  have irrefl : ∀ entry : κ × ν, cmp entry.1 entry.1 ≠ .lt := fun entry => by
    simp [Std.ReflCmp.compare_self]
  have nodup (map : SortedMap κ ν cmp) : map.entries.Nodup :=
    map.sorted.imp (by rintro entry _ less rfl; exact irrefl entry less)
  refine List.Perm.eq_of_pairwise (fun a b _ _ ab ba => ?_) first.sorted second.sorted
    ((List.perm_ext_iff_of_nodup (nodup first) (nodup second)).mpr mem_iff)
  have loop := Std.TransCmp.lt_trans ab ba
  exact absurd loop (irrefl a)

/-- Storing again what is stored already changes nothing. -/
theorem insert_of_get?_eq_some {map : SortedMap κ ν cmp} {key : κ} {value : ν}
    (stored : map.get? key = some value) : map.insert key value = map := by
  refine ext_get? fun asked => ?_
  by_cases asked_eq : asked = key
  · rw [asked_eq, get?_insert_self, stored]
  · exact get?_insert_of_ne map asked_eq value

/-- A later value under the same key replaces the earlier one. -/
theorem insert_insert (map : SortedMap κ ν cmp) (key : κ) (old value : ν) :
    (map.insert key old).insert key value = map.insert key value := by
  refine ext_get? fun asked => ?_
  by_cases asked_eq : asked = key
  · simp [asked_eq]
  · simp only [get?_insert_of_ne _ asked_eq]

/-- A new value under a key that is there leaves the keys as they are. -/
theorem keys_insert {map : SortedMap κ ν cmp} {key : κ} {old : ν}
    (stored : map.get? key = some old) (value : ν) :
    (map.insert key value).keys = map.keys := by
  obtain ⟨entries, sorted⟩ := map
  have member : (key, old) ∈ entries := (lookup_eq_some_iff sorted).mp stored
  clear stored
  change (insertEntry cmp key value entries).map Prod.fst = entries.map Prod.fst
  induction entries with
  | nil => contradiction
  | cons first rest ih =>
      obtain ⟨other, present⟩ := first
      obtain ⟨larger, restSorted⟩ := List.pairwise_cons.mp sorted
      rw [insertEntry]
      rcases List.mem_cons.mp member with same | member
      · cases same
        have equal : cmp key key = .eq := Std.ReflCmp.compare_self
        rw [equal]
        rfl
      · have less : cmp other key = .lt := larger _ member
        rw [Std.OrientedCmp.gt_iff_lt.mpr less]
        change other :: (insertEntry cmp key value rest).map Prod.fst = _
        rw [ih restSorted member]
        rfl

/-- The first key with a property is the smallest one. -/
theorem find?_keys_eq_some_iff (map : SortedMap κ ν cmp) (holds : κ → Bool) (key : κ) :
    map.keys.find? holds = some key ↔
      key ∈ map.keys ∧ holds key ∧ ∀ other ∈ map.keys, cmp other key = .lt → ¬ holds other := by
  have apart : ∀ low high : κ, cmp low high = .lt → cmp high low ≠ .lt := by
    intro low high less back
    have equal : cmp low low = .eq := Std.ReflCmp.compare_self
    rw [Std.TransCmp.lt_trans less back] at equal
    contradiction
  have increasing := map.keys_increasing
  generalize map.keys = keys at increasing ⊢
  induction keys with
  | nil => simp
  | cons first rest ih =>
      rcases List.pairwise_cons.mp increasing with ⟨larger, restIncreasing⟩
      by_cases first_holds : holds first
      · rw [List.find?_cons_of_pos first_holds, Option.some.injEq]
        constructor
        · rintro rfl
          refine ⟨List.mem_cons_self, first_holds, ?_⟩
          intro other member less
          rcases List.mem_cons.mp member with rfl | later
          · exact absurd less (apart _ _ less)
          · exact absurd less (apart _ _ (larger other later))
        · rintro ⟨member, _, least⟩
          rcases List.mem_cons.mp member with same | later
          · exact same.symm
          · exact absurd first_holds (least first List.mem_cons_self (larger key later))
      · rw [List.find?_cons_of_neg first_holds]
        apply (ih restIncreasing).trans
        constructor
        · rintro ⟨member, key_holds, least⟩
          refine ⟨List.mem_cons_of_mem first member, key_holds, ?_⟩
          exact List.forall_mem_cons.mpr ⟨fun _ => first_holds, least⟩
        · rintro ⟨member, key_holds, least⟩
          have ne : key ≠ first := fun same => first_holds (same ▸ key_holds)
          exact ⟨List.mem_of_ne_of_mem ne member, key_holds, (List.forall_mem_cons.mp least).2⟩

/-- The last entry of a key gives its value. -/
theorem get?_ofList [DecidableEq κ] (entries : List (κ × ν)) (key : κ) :
    (ofList cmp entries).get? key =
      (entries.reverse.find? fun entry => entry.1 = key).map Prod.snd := by
  have fill : ∀ (rest : List (κ × ν)) (filled : SortedMap κ ν cmp),
      (rest.foldl (fun map entry => map.insert entry.1 entry.2) filled).get? key =
        ((rest.reverse.find? fun entry => entry.1 = key).map Prod.snd).or (filled.get? key) := by
    intro rest
    induction rest with
    | nil => intro filled; rfl
    | cons entry rest ih =>
        intro filled
        rw [List.foldl_cons, ih, List.reverse_cons, List.find?_append]
        by_cases same : entry.1 = key
        · subst same
          rw [get?_insert_self]
          cases rest.reverse.find? fun other => other.1 = entry.1 <;> simp
        · rw [get?_insert_of_ne _ (Ne.symm same)]
          cases rest.reverse.find? fun other => other.1 = key <;> simp [same]
  have filled := fill entries empty
  rw [get?_empty, Option.or_none] at filled
  exact filled

end Lookup

/-- A key above all others goes to the end. -/
theorem insertEntry_of_larger [Std.TransCmp cmp] {key : κ} {value : ν} {entries : List (κ × ν)}
    (larger : ∀ entry ∈ entries, cmp entry.1 key = .lt) :
    insertEntry cmp key value entries = entries ++ [(key, value)] := by
  induction entries with
  | nil => rfl
  | cons first rest ih =>
      obtain ⟨other, old⟩ := first
      have greater : cmp key other = .gt :=
        Std.OrientedCmp.gt_iff_lt.mpr (larger _ List.mem_cons_self)
      rw [insertEntry, greater, ih fun entry member => larger entry (List.mem_cons_of_mem _ member)]
      rfl

/-- Reading the entries of a map back in gives the map. -/
theorem ofList_entries [Std.TransCmp cmp] (map : SortedMap κ ν cmp) :
    ofList cmp map.entries = map := by
  have fill : ∀ (rest : List (κ × ν)) (filled : SortedMap κ ν cmp),
      (filled.entries ++ rest).Pairwise (fun first second => cmp first.1 second.1 = .lt) →
        (rest.foldl (fun map entry => map.insert entry.1 entry.2) filled).entries =
          filled.entries ++ rest := by
    intro rest
    induction rest with
    | nil => intro filled _; simp
    | cons entry rest ih =>
        intro filled sorted
        have larger : ∀ old ∈ filled.entries, cmp old.1 entry.1 = .lt := fun old member =>
          (List.pairwise_append.mp sorted).2.2 old member entry List.mem_cons_self
        have placed : (filled.insert entry.1 entry.2).entries = filled.entries ++ [entry] :=
          insertEntry_of_larger larger
        rw [List.foldl_cons, ih _ (by simpa [placed] using sorted), placed]
        simp
  apply ext_entries
  exact fill map.entries empty map.sorted

/-- Entries that are listed in the order of their keys are those of the map that is filled from
them, and no others are. -/
theorem entries_ofList_eq_iff [Std.TransCmp cmp] (entries : List (κ × ν)) :
    (ofList cmp entries).entries = entries ↔
      (entries.map Prod.fst).Pairwise fun first second => cmp first second = .lt := by
  rw [List.pairwise_map]
  constructor
  · intro same
    rw [← same]
    exact (ofList cmp entries).sorted
  · intro sorted
    exact congrArg SortedMap.entries (ofList_entries ⟨entries, sorted⟩)

end SortedMap

end SeriesStore
