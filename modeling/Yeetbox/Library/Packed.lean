import Mathlib.Data.Nat.Bitwise
import Mathlib.Order.Lex
import Mathlib.Data.Prod.Lex

/-!
# Two numbers packed into one word

A word holds one number above `width` bits for another, put together by shift and or. Read back,
the upper part is what was put there when the lower number fits its bits, and otherwise the or of
it and the bits that did not fit (`pack_div`, `pack_mod`). Words are ordered as their two parts,
the upper one first (`pack_lt_pack_iff`).
-/

set_option autoImplicit false

namespace Yeetbox.Library

/-- A number above the lowest `width` bits, and a number in them. -/
def pack (width high low : ℕ) : ℕ := (high <<< width) ||| low

variable {width high low high' low' : ℕ}

/-- The upper part of a word. -/
theorem pack_div (width high low : ℕ) :
    pack width high low / 2 ^ width = high ||| low / 2 ^ width := by
  rw [pack, Nat.or_div_two_pow, Nat.shiftLeft_eq, Nat.mul_div_cancel _ (Nat.two_pow_pos width)]

/-- The lower part of a word. -/
theorem pack_mod (width high low : ℕ) : pack width high low % 2 ^ width = low % 2 ^ width := by
  rw [pack, Nat.or_mod_two_pow, Nat.shiftLeft_eq, Nat.mul_mod_left, Nat.zero_or]

/-- A word is determined by its parts. -/
theorem pack_eq (width high low : ℕ) :
    pack width high low = (high ||| low / 2 ^ width) * 2 ^ width + low % 2 ^ width := by
  have parts := Nat.div_add_mod' (pack width high low) (2 ^ width)
  rw [pack_div, pack_mod] at parts
  exact parts.symm

/-- A lower number that fits its bits leaves the upper part as it was put. -/
theorem pack_of_lt (fits : low < 2 ^ width) : pack width high low = high * 2 ^ width + low := by
  rw [pack_eq, Nat.div_eq_of_lt fits, Nat.or_zero, Nat.mod_eq_of_lt fits]

/-- Both numbers can be read back exactly when the lower one fits its bits. -/
theorem pack_kept_iff : pack width high low / 2 ^ width = high ∧
    pack width high low % 2 ^ width = low ↔ low < 2 ^ width := by
  constructor
  · rintro ⟨-, kept⟩
    rw [← kept]
    exact Nat.mod_lt _ (Nat.two_pow_pos width)
  · intro fits
    rw [pack_div, pack_mod, Nat.div_eq_of_lt fits, Nat.or_zero, Nat.mod_eq_of_lt fits]
    exact ⟨rfl, rfl⟩

/-- Numbers in mixed radix are ordered by their upper parts first. -/
theorem mul_add_lt_iff {base : ℕ} (below : low < base) (below' : low' < base) :
    high * base + low < high' * base + low' ↔ high < high' ∨ high = high' ∧ low < low' := by
  rcases Nat.lt_trichotomy high high' with less | rfl | greater
  · have next : (high + 1) * base ≤ high' * base := Nat.mul_le_mul_right base less
    rw [Nat.add_mul] at next
    exact iff_of_true (by omega) (.inl less)
  · omega
  · have next : (high' + 1) * base ≤ high * base := Nat.mul_le_mul_right base greater
    rw [Nat.add_mul] at next
    exact iff_of_false (by omega) (by omega)

/-- **Words are ordered by their upper parts, and for equal ones by their lower parts.** -/
theorem pack_lt_pack_iff : pack width high low < pack width high' low' ↔
    high ||| low / 2 ^ width < high' ||| low' / 2 ^ width ∨
      high ||| low / 2 ^ width = high' ||| low' / 2 ^ width ∧
        low % 2 ^ width < low' % 2 ^ width := by
  rw [pack_eq width high low, pack_eq width high' low']
  exact mul_add_lt_iff (Nat.mod_lt _ (Nat.two_pow_pos width)) (Nat.mod_lt _ (Nat.two_pow_pos width))

/-- Words whose lower numbers fit are ordered as the pairs of their numbers. -/
theorem pack_lt_pack_iff_of_lt (fits : low < 2 ^ width) (fits' : low' < 2 ^ width) :
    pack width high low < pack width high' low' ↔ high < high' ∨ high = high' ∧ low < low' := by
  rw [pack_of_lt fits, pack_of_lt fits']
  exact mul_add_lt_iff fits fits'

end Yeetbox.Library
