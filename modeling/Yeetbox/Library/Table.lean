import Mathlib.Data.Nat.Digits.Lemmas

/-!
# Ordered tables

A table is a finite map whose keys are kept in order, as in an ordered key-value store. Two
tables are equal when every key has the same value in both. The lemmas say what a lookup
gives after a single insertion or removal, at the key that changed and at every other key.
-/

set_option autoImplicit false

namespace Yeetbox.Library

open Std

/-- A finite map from ordered keys to values. -/
abbrev Table (Key Value : Type) [Ord Key] := ExtTreeMap Key Value compare

namespace Table

variable {Key Value : Type} [Ord Key] [TransOrd Key]

theorem get_empty_ne_some (key : Key) (value : Value) :
    (∅ : Table Key Value)[key]? ≠ some value := by
  rw [ExtTreeMap.getElem?_empty]
  exact (Option.some_ne_none value).symm

theorem get_insert_self (table : Table Key Value) (key : Key) (value : Value) :
    (table.insert key value)[key]? = some value :=
  ExtTreeMap.getElem?_insert_self

theorem get_erase_self (table : Table Key Value) (key : Key) : (table.erase key)[key]? = none :=
  ExtTreeMap.getElem?_erase_self

variable [LawfulEqOrd Key]

theorem get_insert_ne (table : Table Key Value) {key other : Key} (value : Value)
    (different : other ≠ key) : (table.insert key value)[other]? = table[other]? := by
  have notEq : ¬ compare key other = .eq := fun same =>
    different (LawfulEqOrd.eq_of_compare same).symm
  rw [ExtTreeMap.getElem?_insert, if_neg notEq]

theorem get_erase_ne (table : Table Key Value) {key other : Key} (different : other ≠ key) :
    (table.erase key)[other]? = table[other]? := by
  have notEq : ¬ compare key other = .eq := fun same =>
    different (LawfulEqOrd.eq_of_compare same).symm
  rw [ExtTreeMap.getElem?_erase, if_neg notEq]

theorem get_insert [DecidableEq Key] (table : Table Key Value) (key other : Key) (value : Value) :
    (table.insert key value)[other]? = if other = key then some value else table[other]? := by
  by_cases same : other = key
  · rw [if_pos same, same, get_insert_self]
  · rw [if_neg same, get_insert_ne table value same]

theorem get_erase [DecidableEq Key] (table : Table Key Value) (key other : Key) :
    (table.erase key)[other]? = if other = key then none else table[other]? := by
  by_cases same : other = key
  · rw [if_pos same, same, get_erase_self]
  · rw [if_neg same, get_erase_ne table same]

/-- A key with a value after an insertion is the inserted one, or had the value before. -/
theorem of_get_insert {table : Table Key Value} {added key : Key} {content value : Value}
    (found : (table.insert added content)[key]? = some value) :
    key = added ∧ value = content ∨ table[key]? = some value := by
  by_cases same : key = added
  · rw [same, get_insert_self, Option.some_inj] at found
    exact .inl ⟨same, found.symm⟩
  · rw [get_insert_ne table content same] at found
    exact .inr found

/-- A key with a value after a removal had it before. -/
theorem of_get_erase {table : Table Key Value} {removed key : Key} {value : Value}
    (found : (table.erase removed)[key]? = some value) : table[key]? = some value := by
  by_cases same : key = removed
  · rw [same, get_erase_self] at found
    cases found
  · rwa [get_erase_ne table same] at found

/-- **Tables with the same lookups are the same table.** -/
theorem ext {first second : Table Key Value} (same : ∀ key : Key, first[key]? = second[key]?) :
    first = second :=
  ExtTreeMap.ext_getElem? fun {key} => same key

/-- Inserting a value that is there already changes nothing. -/
theorem insert_of_get {table : Table Key Value} {key : Key} {value : Value}
    (found : table[key]? = some value) : table.insert key value = table := by
  refine ext fun other => ?_
  by_cases same : other = key
  · rw [same, get_insert_self, found]
  · rw [get_insert_ne table value same]

/-- Inserting a value changes nothing exactly when it is there already. -/
theorem insert_eq_self_iff {table : Table Key Value} {key : Key} {value : Value} :
    table.insert key value = table ↔ table[key]? = some value := by
  constructor
  · intro same
    have here := get_insert_self table key value
    rwa [same] at here
  · exact insert_of_get

/-- Removing a key that is not there changes nothing. -/
theorem erase_of_missing {table : Table Key Value} {key : Key} (missing : table[key]? = none) :
    table.erase key = table := by
  refine ext fun other => ?_
  by_cases same : other = key
  · rw [same, get_erase_self, missing]
  · rw [get_erase_ne table same]

/-- A table with one value under some keys. -/
def ofKeys (keys : List Key) (value : Value) : Table Key Value :=
  keys.foldr (fun key table => table.insert key value) ∅

theorem get_ofKeys_of_mem {keys : List Key} {key : Key} (member : key ∈ keys) (value : Value) :
    (ofKeys keys value)[key]? = some value := by
  induction keys with
  | nil => cases member
  | cons first rest ih =>
      rw [ofKeys, List.foldr_cons]
      by_cases same : key = first
      · rw [same, get_insert_self]
      · rw [get_insert_ne _ value same]
        exact ih ((List.mem_cons.mp member).resolve_left same)

theorem get_ofKeys_of_not_mem {keys : List Key} {key : Key} (outside : key ∉ keys)
    (value : Value) : (ofKeys keys value)[key]? = none := by
  induction keys with
  | nil => exact ExtTreeMap.getElem?_empty
  | cons first rest ih =>
      rw [List.mem_cons, not_or] at outside
      rw [ofKeys, List.foldr_cons, get_insert_ne _ value outside.1]
      exact ih outside.2

/-- A table without some keys. -/
def eraseAll (table : Table Key Value) (keys : List Key) : Table Key Value :=
  keys.foldl (fun rest key => rest.erase key) table

omit [LawfulEqOrd Key] in
theorem eraseAll_cons (table : Table Key Value) (key : Key) (keys : List Key) :
    eraseAll table (key :: keys) = eraseAll (table.erase key) keys := rfl

theorem get_eraseAll_of_mem {table : Table Key Value} {keys : List Key} {key : Key}
    (member : key ∈ keys) : (eraseAll table keys)[key]? = none := by
  have gone : ∀ (rest : Table Key Value) (keys : List Key), rest[key]? = none →
      (eraseAll rest keys)[key]? = none := by
    intro rest keys missing
    induction keys generalizing rest with
    | nil => exact missing
    | cons other later ih =>
        refine ih _ ?_
        by_cases same : key = other
        · rw [same, get_erase_self]
        · rw [get_erase_ne rest same, missing]
  induction keys generalizing table with
  | nil => cases member
  | cons other later ih =>
      rw [eraseAll_cons]
      rcases List.mem_cons.mp member with rfl | inside
      · exact gone _ _ (get_erase_self table key)
      · exact ih inside

theorem get_eraseAll_of_not_mem {table : Table Key Value} {keys : List Key} {key : Key}
    (outside : key ∉ keys) : (eraseAll table keys)[key]? = table[key]? := by
  induction keys generalizing table with
  | nil => rfl
  | cons other later ih =>
      rw [List.mem_cons, not_or] at outside
      rw [eraseAll_cons, ih outside.2, get_erase_ne table outside.1]

end Table

end Yeetbox.Library
