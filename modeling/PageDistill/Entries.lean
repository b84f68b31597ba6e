/-!
# Entries by Key

Lists of pairs that are read as tables from keys to values.

The order of a table is part of what it says: members of an object, attributes
of a tag, entries of metadata and references all come out in the order in which
their keys came up. `put` is the one way to set a key, and it keeps every key at
most once: a key that comes again keeps its place and takes the new value.

## Main definitions

* `put`: Setting the value of a key.
* `lookup?`: Finding it.

## Theorems

* `lookup?_put_self`: A value that was just put is found.
* `lookup?_put_of_ne`: Other keys are not touched.
* `lookup?_append`: Entries in front hide entries of the same key behind them.
* `mem_of_lookup?`: An entry that is found is there.
* `not_mem_of_lookup?_eq_none`, `lookup?_eq_none_of_not_mem`: A key without a value is none of the
  keys.
* `put_of_not_mem`: A new key goes to the end.
* `map_fst_put`: A new key goes to the end, and a known one stays where it is.
-/

namespace PageDistill

namespace Entries

variable {α : Type}

/-- Sets the value of a key. A key that is there keeps its place, and a new key
    goes to the end. -/
def put (entries : List (String × α)) (key : String) (value : α) : List (String × α) :=
  match entries with
  | [] => [(key, value)]
  | (k, v) :: rest => if k = key then (k, value) :: rest else (k, v) :: put rest key value

/-- The value of a key. -/
def lookup? (entries : List (String × α)) (key : String) : Option α :=
  match entries with
  | [] => none
  | (k, v) :: rest => if k = key then some v else lookup? rest key

/-- A value that was just put is found. -/
theorem lookup?_put_self (entries : List (String × α)) (key : String) (value : α) :
    lookup? (put entries key value) key = some value := by
  induction entries with
  | nil => simp [put, lookup?]
  | cons entry rest ih =>
      obtain ⟨k, v⟩ := entry
      rw [put]
      by_cases hk : k = key
      · rw [if_pos hk, lookup?, if_pos hk]
      · rw [if_neg hk, lookup?, if_neg hk, ih]

/-- Putting a value does not touch other keys. -/
theorem lookup?_put_of_ne (entries : List (String × α)) (key other : String) (value : α)
    (h : other ≠ key) : lookup? (put entries key value) other = lookup? entries other := by
  induction entries with
  | nil => simp [put, lookup?, Ne.symm h]
  | cons entry rest ih =>
      obtain ⟨k, v⟩ := entry
      rw [put]
      by_cases hk : k = key
      · rw [if_pos hk, lookup?, lookup?, if_neg (hk ▸ Ne.symm h), if_neg (hk ▸ Ne.symm h)]
      · rw [if_neg hk, lookup?, lookup?, ih]

/-- Entries in front hide entries of the same key behind them. -/
theorem lookup?_append (front back : List (String × α)) (key : String) :
    lookup? (front ++ back) key = (lookup? front key).or (lookup? back key) := by
  induction front with
  | nil => simp [lookup?]
  | cons entry rest ih =>
      obtain ⟨k, v⟩ := entry
      rw [List.cons_append, lookup?, lookup?]
      by_cases hk : k = key
      · rw [if_pos hk, if_pos hk, Option.some_or]
      · rw [if_neg hk, if_neg hk, ih]

/-- An entry that is found is there. -/
theorem mem_of_lookup? (entries : List (String × α)) (key : String) (value : α)
    (h : lookup? entries key = some value) : (key, value) ∈ entries := by
  induction entries with
  | nil => simp [lookup?] at h
  | cons entry rest ih =>
      obtain ⟨k, v⟩ := entry
      rw [lookup?] at h
      by_cases hk : k = key
      · rw [if_pos hk, Option.some.injEq] at h
        rw [hk, h]
        exact List.mem_cons_self
      · rw [if_neg hk] at h
        exact List.mem_cons_of_mem _ (ih h)

/-- A key without a value is none of the keys. -/
theorem not_mem_of_lookup?_eq_none (entries : List (String × α)) (key : String)
    (h : lookup? entries key = none) : key ∉ entries.map Prod.fst := by
  induction entries with
  | nil => simp
  | cons entry rest ih =>
      obtain ⟨k, v⟩ := entry
      rw [lookup?] at h
      by_cases hk : k = key
      · rw [if_pos hk] at h
        exact absurd h (by simp)
      · rw [if_neg hk] at h
        rw [List.map_cons, List.mem_cons, not_or]
        exact ⟨Ne.symm hk, ih h⟩

/-- What is none of the keys has no value. -/
theorem lookup?_eq_none_of_not_mem (entries : List (String × α)) (key : String)
    (h : key ∉ entries.map Prod.fst) : lookup? entries key = none := by
  induction entries with
  | nil => rfl
  | cons entry rest ih =>
      obtain ⟨k, v⟩ := entry
      rw [List.map_cons, List.mem_cons, not_or] at h
      rw [lookup?, if_neg (Ne.symm h.1), ih h.2]

/-- A new key goes to the end. -/
theorem put_of_not_mem (entries : List (String × α)) (key : String) (value : α)
    (h : key ∉ entries.map Prod.fst) : put entries key value = entries ++ [(key, value)] := by
  induction entries with
  | nil => rfl
  | cons entry rest ih =>
      obtain ⟨k, v⟩ := entry
      rw [List.map_cons, List.mem_cons, not_or] at h
      rw [put, if_neg (Ne.symm h.1), ih h.2, List.cons_append]

/-- A new key goes to the end, and a known one stays where it is. -/
theorem map_fst_put (entries : List (String × α)) (key : String) (value : α) :
    (put entries key value).map Prod.fst =
      if key ∈ entries.map Prod.fst then entries.map Prod.fst
      else entries.map Prod.fst ++ [key] := by
  induction entries with
  | nil => simp [put]
  | cons entry rest ih =>
      obtain ⟨k, v⟩ := entry
      rw [put]
      by_cases hk : k = key
      · simp [hk]
      · rw [if_neg hk, List.map_cons, ih]
        by_cases hm : key ∈ rest.map Prod.fst
        · simp [hm]
        · simp [hm, Ne.symm hk]

end Entries

end PageDistill
