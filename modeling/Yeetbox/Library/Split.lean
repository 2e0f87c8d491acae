import Mathlib.Logic.Basic

/-!
# Splitting a list at a separator

Splitting gives pieces without the separator, and joined by it they are the list again. This
determines the pieces (`splitOn_eq_iff`), so a reader that splits its input and looks at the pieces
accepts exactly the inputs that are put together from such pieces.
-/

set_option autoImplicit false

namespace Yeetbox.Library

variable {α : Type} [DecidableEq α] {separator : α}

/-- No piece contains the separator. -/
theorem not_mem_of_mem_splitOn {list piece : List α} (member : piece ∈ list.splitOn separator) :
    separator ∉ piece := by
  induction list generalizing piece with
  | nil =>
      rw [List.splitOn_nil, List.mem_singleton] at member
      rw [member]
      exact List.not_mem_nil
  | cons head rest ih =>
      obtain ⟨first, others, pieces⟩ := List.exists_cons_of_ne_nil
        (List.splitOn_ne_nil separator rest)
      rw [List.splitOn_cons_eq_if_modifyHead, pieces] at member
      rw [pieces] at ih
      split at member
      · rcases List.mem_cons.mp member with rfl | later
        · exact List.not_mem_nil
        · exact ih later
      · rename_i other
        rw [List.modifyHead_cons] at member
        rcases List.mem_cons.mp member with rfl | later
        · rw [List.mem_cons, not_or]
          exact ⟨fun same => other (beq_iff_eq.mpr same.symm), ih List.mem_cons_self⟩
        · exact ih (List.mem_cons_of_mem _ later)

/-- **The pieces are the list of lists without the separator that it joins to the list.** -/
theorem splitOn_eq_iff {list : List α} {pieces : List (List α)} :
    list.splitOn separator = pieces ↔
      pieces ≠ [] ∧ (∀ piece ∈ pieces, separator ∉ piece) ∧
        list = [separator].intercalate pieces := by
  constructor
  · rintro rfl
    exact ⟨List.splitOn_ne_nil _ _, fun piece member => not_mem_of_mem_splitOn member,
      (List.intercalate_splitOn separator).symm⟩
  · rintro ⟨nonempty, free, rfl⟩
    exact List.splitOn_intercalate separator free nonempty

/-- Three pieces. -/
theorem splitOn_eq_three_iff {list first second third : List α} :
    list.splitOn separator = [first, second, third] ↔
      separator ∉ first ∧ separator ∉ second ∧ separator ∉ third ∧
        list = first ++ [separator] ++ second ++ [separator] ++ third := by
  rw [splitOn_eq_iff]
  simp [List.intercalate, and_assoc]

end Yeetbox.Library
