/-
# Finite maps listed in key order

A `KeyMap` is the list of its entries in strictly ascending key order.  Two
maps with the same entries are therefore the same value, and every listing of
a map is already sorted.
-/

namespace TypeInference

open Std

/-- A finite map from keys to values, kept as its entries in ascending key order. -/
structure KeyMap (κ : Type) (β : Type) [Ord κ] where
  entries : List (κ × β)
  ascending : entries.Pairwise fun first second => compare first.1 second.1 = .lt

namespace KeyMap

variable {κ β : Type} [Ord κ]

/-- The map with no entries. -/
def empty : KeyMap κ β := ⟨[], .nil⟩

instance : Inhabited (KeyMap κ β) := ⟨empty⟩

instance [DecidableEq κ] [DecidableEq β] : DecidableEq (KeyMap κ β) := fun left right =>
  decidable_of_iff (left.entries = right.entries)
    ⟨fun h => by cases left; cases right; cases h; rfl, fun h => h ▸ rfl⟩

/-- The value stored under the first entry with the given key. -/
def lookupIn (key : κ) : List (κ × β) → Option β
  | [] => none
  | (k, value) :: rest =>
      match compare key k with
      | .eq => some value
      | _ => lookupIn key rest

/-- Put an entry into an ascending list, replacing the entry of an equal key. -/
def insertIn (key : κ) (value : β) : List (κ × β) → List (κ × β)
  | [] => [(key, value)]
  | (k, old) :: rest =>
      match compare key k with
      | .lt => (key, value) :: (k, old) :: rest
      | .eq => (key, value) :: rest
      | .gt => (k, old) :: insertIn key value rest

/-- Take the entry of a key out of a list. -/
def eraseIn (key : κ) : List (κ × β) → List (κ × β)
  | [] => []
  | (k, value) :: rest =>
      match compare key k with
      | .eq => rest
      | _ => (k, value) :: eraseIn key rest

theorem eraseIn_sublist (key : κ) (list : List (κ × β)) :
    (eraseIn key list).Sublist list := by
  induction list with
  | nil => exact .slnil
  | cons head rest ih =>
      obtain ⟨k, value⟩ := head
      rw [eraseIn]
      split
      · exact List.sublist_cons_self _ _
      · exact ih.cons_cons _

theorem mem_insertIn {key : κ} {value : β} {entry : κ × β} {list : List (κ × β)}
    (h : entry ∈ insertIn key value list) : entry = (key, value) ∨ entry ∈ list := by
  induction list with
  | nil => simpa [insertIn] using h
  | cons head rest ih =>
      obtain ⟨k, old⟩ := head
      rw [insertIn] at h
      split at h
      · simpa using h
      · rcases List.mem_cons.mp h with h | h
        · exact Or.inl h
        · exact Or.inr (List.mem_cons_of_mem _ h)
      · rcases List.mem_cons.mp h with h | h
        · exact Or.inr (h ▸ List.mem_cons_self)
        · exact (ih h).imp_right (List.mem_cons_of_mem _)

theorem ascending_insertIn [TransOrd κ] [LawfulEqOrd κ] (key : κ) (value : β)
    {list : List (κ × β)}
    (h : list.Pairwise fun first second => compare first.1 second.1 = .lt) :
    (insertIn key value list).Pairwise fun first second =>
      compare first.1 second.1 = .lt := by
  induction list with
  | nil => simp [insertIn]
  | cons head rest ih =>
      obtain ⟨k, old⟩ := head
      obtain ⟨hhead, hrest⟩ := List.pairwise_cons.mp h
      rw [insertIn]
      split
      · rename_i hlt
        refine List.pairwise_cons.mpr ⟨fun entry hentry => ?_, h⟩
        rcases List.mem_cons.mp hentry with rfl | hentry
        · exact hlt
        · exact TransCmp.lt_trans hlt (hhead entry hentry)
      · rename_i heq
        have hkey : key = k := LawfulEqCmp.eq_of_compare heq
        exact List.pairwise_cons.mpr ⟨fun entry hentry => hkey ▸ hhead entry hentry, hrest⟩
      · rename_i hgt
        refine List.pairwise_cons.mpr ⟨fun entry hentry => ?_, ih hrest⟩
        rcases mem_insertIn hentry with rfl | hentry
        · exact OrientedCmp.lt_of_gt hgt
        · exact hhead entry hentry

/-- The value stored under a key. -/
def find? (map : KeyMap κ β) (key : κ) : Option β := lookupIn key map.entries

/-- Whether a key has a value. -/
def contains (map : KeyMap κ β) (key : κ) : Bool := (map.find? key).isSome

/-- Store a value under a key, replacing the value it had. -/
def insert [TransOrd κ] [LawfulEqOrd κ] (map : KeyMap κ β) (key : κ) (value : β) :
    KeyMap κ β :=
  ⟨insertIn key value map.entries, ascending_insertIn key value map.ascending⟩

/-- Forget the value of a key. -/
def erase (map : KeyMap κ β) (key : κ) : KeyMap κ β :=
  ⟨eraseIn key map.entries, map.ascending.sublist (eraseIn_sublist key map.entries)⟩

/-- The number of keys. -/
def size (map : KeyMap κ β) : Nat := map.entries.length

/-- The keys in ascending order. -/
def keys (map : KeyMap κ β) : List κ := map.entries.map (·.1)

/-- The values in ascending order of their keys. -/
def values (map : KeyMap κ β) : List β := map.entries.map (·.2)

theorem lookupIn_insertIn_self [ReflOrd κ] (key : κ) (value : β) (list : List (κ × β)) :
    lookupIn key (insertIn key value list) = some value := by
  induction list with
  | nil => simp [insertIn, lookupIn, ReflCmp.compare_self]
  | cons head rest ih =>
      obtain ⟨k, old⟩ := head
      rw [insertIn]
      split
      · simp [lookupIn, ReflCmp.compare_self]
      · simp [lookupIn, ReflCmp.compare_self]
      · rename_i hgt
        simp [lookupIn, hgt, ih]

theorem lookupIn_insertIn_of_ne [LawfulEqOrd κ] {key other : κ} (hne : other ≠ key)
    (value : β) (list : List (κ × β)) :
    lookupIn other (insertIn key value list) = lookupIn other list := by
  have hcmp : compare other key ≠ .eq := fun h => hne (LawfulEqCmp.eq_of_compare h)
  induction list with
  | nil =>
      simp only [insertIn, lookupIn]
  | cons head rest ih =>
      obtain ⟨k, old⟩ := head
      rw [insertIn]
      split
      · rw [lookupIn]
        split <;> simp_all
      · rename_i heq
        have hkey : key = k := LawfulEqCmp.eq_of_compare heq
        subst hkey
        simp only [lookupIn]
      · simp only [lookupIn, ih]

theorem eraseIn_insertIn_of_lookupIn_eq_none [ReflOrd κ] {key : κ} (value : β)
    {list : List (κ × β)} (h : lookupIn key list = none) :
    eraseIn key (insertIn key value list) = list := by
  induction list with
  | nil => simp [insertIn, eraseIn, ReflCmp.compare_self]
  | cons head rest ih =>
      obtain ⟨k, old⟩ := head
      rw [lookupIn] at h
      rw [insertIn]
      split
      · simp [eraseIn, ReflCmp.compare_self]
      · rename_i heq
        simp [heq] at h
      · rename_i hgt
        rw [hgt] at h
        simp [eraseIn, hgt, ih h]

@[simp] theorem find?_empty (key : κ) : (empty : KeyMap κ β).find? key = none := rfl

/-- A stored value is found again. -/
@[simp] theorem find?_insert_self [TransOrd κ] [LawfulEqOrd κ] (map : KeyMap κ β)
    (key : κ) (value : β) : (map.insert key value).find? key = some value :=
  lookupIn_insertIn_self key value map.entries

/-- Storing a value leaves the other keys alone. -/
theorem find?_insert_of_ne [TransOrd κ] [LawfulEqOrd κ] (map : KeyMap κ β)
    {key other : κ} (hne : other ≠ key) (value : β) :
    (map.insert key value).find? other = map.find? other :=
  lookupIn_insertIn_of_ne hne value map.entries

theorem lookupIn_eq_some_iff [LawfulEqOrd κ] {key : κ} {value : β}
    {list : List (κ × β)}
    (h : list.Pairwise fun first second => compare first.1 second.1 = .lt) :
    lookupIn key list = some value ↔ (key, value) ∈ list := by
  induction list with
  | nil => simp [lookupIn]
  | cons head rest ih =>
      obtain ⟨k, old⟩ := head
      obtain ⟨hhead, hrest⟩ := List.pairwise_cons.mp h
      rw [lookupIn, List.mem_cons, Prod.mk.injEq]
      split
      · rename_i heq
        have hkey : key = k := LawfulEqCmp.eq_of_compare heq
        subst hkey
        have hlater : (key, value) ∉ rest := fun hmem => by
          simpa [heq] using hhead (key, value) hmem
        simp [hlater, eq_comm]
      · rename_i hcmp
        have hkey : key ≠ k := fun hkey => hcmp (hkey ▸ ReflCmp.compare_self)
        simp [hkey, ih hrest]

/-- The values that are found are those of the entries. -/
theorem find?_eq_some_iff [LawfulEqOrd κ] {map : KeyMap κ β} {key : κ} {value : β} :
    map.find? key = some value ↔ (key, value) ∈ map.entries :=
  lookupIn_eq_some_iff map.ascending

/-- The keys are those that have a value. -/
theorem mem_keys_iff [LawfulEqOrd κ] {map : KeyMap κ β} {key : κ} :
    key ∈ map.keys ↔ ∃ value, map.find? key = some value := by
  simp only [keys, List.mem_map, find?_eq_some_iff, Prod.exists, exists_and_right,
    exists_eq_right]

/-- The values are those that some key has. -/
theorem mem_values_iff [LawfulEqOrd κ] {map : KeyMap κ β} {value : β} :
    value ∈ map.values ↔ ∃ key, map.find? key = some value := by
  simp only [values, List.mem_map, find?_eq_some_iff, Prod.exists, exists_eq_right]

/-- The keys of a map after an entry was put in. -/
theorem mem_keys_insert [TransOrd κ] [LawfulEqOrd κ] {map : KeyMap κ β} {key other : κ}
    {value : β} : other ∈ (map.insert key value).keys ↔ other = key ∨ other ∈ map.keys := by
  rw [mem_keys_iff, mem_keys_iff]
  by_cases heq : other = key
  · rw [heq]
    simp
  · rw [find?_insert_of_ne map heq]
    simp [heq]

/-- No key has two entries. -/
theorem nodup_keys [ReflOrd κ] (map : KeyMap κ β) : map.keys.Nodup := by
  refine List.pairwise_map.mpr (map.ascending.imp fun {first second} hlt heq => ?_)
  have hsame : compare first.1 second.1 = .eq := heq ▸ ReflCmp.compare_self
  rw [hsame] at hlt
  cases hlt

/-- Forgetting the value of a new key gives back the map. -/
theorem erase_insert_of_find?_eq_none [TransOrd κ] [LawfulEqOrd κ] {map : KeyMap κ β}
    {key : κ} (h : map.find? key = none) (value : β) :
    (map.insert key value).erase key = map := by
  cases map
  simp only [insert, erase, mk.injEq]
  exact eraseIn_insertIn_of_lookupIn_eq_none value h

theorem exists_insertIn_eq {key : κ} {list : List (κ × β)} (h : lookupIn key list = none)
    (value : β) :
    ∃ before after, list = before ++ after ∧
      insertIn key value list = before ++ (key, value) :: after := by
  induction list with
  | nil => exact ⟨[], [], rfl, rfl⟩
  | cons entry rest ih =>
      obtain ⟨k, old⟩ := entry
      rw [lookupIn] at h
      rw [insertIn]
      cases hcompare : compare key k with
      | lt => exact ⟨[], (k, old) :: rest, rfl, rfl⟩
      | eq =>
          rw [hcompare] at h
          cases h
      | gt =>
          rw [hcompare] at h
          obtain ⟨before, after, hrest, hinsert⟩ := ih h
          refine ⟨(k, old) :: before, after, ?_, ?_⟩
          · rw [hrest, List.cons_append]
          · rw [hinsert, List.cons_append]

/-- Storing a value under a new key puts one entry between the others. -/
theorem exists_entries_insert [TransOrd κ] [LawfulEqOrd κ] {map : KeyMap κ β} {key : κ}
    (h : map.find? key = none) (value : β) :
    ∃ before after, map.entries = before ++ after ∧
      (map.insert key value).entries = before ++ (key, value) :: after :=
  exists_insertIn_eq h value

end KeyMap

end TypeInference
