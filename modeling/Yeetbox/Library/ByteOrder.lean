import Yeetbox.Library.FixedWidth
import Yeetbox.Library.Packed

/-!
# Byte strings in dictionary order

Byte strings are ordered as in a dictionary. For two strings of one length this is the order of the
numbers that they are in big-endian order (`compare_eq_compare_ofBeBytes`), and against a string
of `width` bytes only the first `width` bytes of a longer one count. So the strings from the bytes
of a number to those of the next one are those that start with the number (`mem_range_iff`).
-/

set_option autoImplicit false

namespace Yeetbox.Library

theorem ofBeBytes_cons (byte : UInt8) (rest : Bytes) :
    ofBeBytes (byte :: rest) = byte.toNat * 256 ^ rest.length + ofBeBytes rest := by
  rw [ofBeBytes, ofLeBytes, List.reverse_cons, List.map_append, Nat.ofDigits_append,
    List.length_map, List.length_reverse, ofBeBytes, ofLeBytes, List.map_singleton,
    Nat.ofDigits_singleton]
  ring

/-- Numbers are ordered as they are above a common lower bound. -/
theorem compare_add_left (base first second : ℕ) :
    compare (base + first) (base + second) = compare first second := by
  rcases Nat.lt_trichotomy first second with less | rfl | greater
  · rw [compare_lt_iff_lt.mpr less, compare_lt_iff_lt.mpr (Nat.add_lt_add_left less base)]
  · rw [Std.compare_self, Std.compare_self]
  · rw [compare_gt_iff_gt.mpr greater, compare_gt_iff_gt.mpr (Nat.add_lt_add_left greater base)]

/-- **Strings of one length are ordered as their numbers.** -/
theorem compare_eq_compare_ofBeBytes {first second : Bytes}
    (length : first.length = second.length) :
    compare first second = compare (ofBeBytes first) (ofBeBytes second) := by
  induction first generalizing second with
  | nil =>
      rw [List.length_nil] at length
      rw [List.eq_nil_of_length_eq_zero length.symm]
      rfl
  | cons byte rest ih =>
      obtain ⟨other, later, rfl⟩ := List.exists_cons_of_length_eq_add_one length.symm
      rw [List.length_cons, List.length_cons, Nat.add_left_inj] at length
      rw [List.compare_cons_cons, ih length, ofBeBytes_cons, ofBeBytes_cons, length]
      have small := ofBeBytes_lt rest
      have small' := ofBeBytes_lt later
      rw [length] at small
      rcases Nat.lt_trichotomy byte.toNat other.toNat with less | same | greater
      · rw [Std.compare_eq_lt.mpr (UInt8.lt_iff_toNat_lt.mpr less),
          compare_lt_iff_lt.mpr ((mul_add_lt_iff small small').mpr (.inl less))]
        rfl
      · rw [UInt8.toNat_inj.mp same, Std.compare_self]
        exact (compare_add_left _ _ _).symm
      · rw [Std.compare_eq_gt.mpr (UInt8.lt_iff_toNat_lt.mpr greater),
          compare_gt_iff_gt.mpr ((mul_add_lt_iff small' small).mpr (.inl greater))]
        rfl

/-- Strings with beginnings of one length are ordered by these first. -/
theorem compare_append {first second : Bytes} (length : first.length = second.length)
    (firstRest secondRest : Bytes) :
    compare (first ++ firstRest) (second ++ secondRest) =
      (compare first second).then (compare firstRest secondRest) := by
  induction first generalizing second with
  | nil =>
      rw [List.length_nil] at length
      rw [List.eq_nil_of_length_eq_zero length.symm]
      rfl
  | cons byte rest ih =>
      obtain ⟨other, later, rfl⟩ := List.exists_cons_of_length_eq_add_one length.symm
      rw [List.length_cons, List.length_cons, Nat.add_left_inj] at length
      rw [List.cons_append, List.cons_append, List.compare_cons_cons, List.compare_cons_cons,
        ih length, Ordering.then_assoc]

section Beginning

variable {bound bytes : Bytes}

/-- A string is not after another of at least its length exactly when it is not after the beginning
of that. -/
theorem isLE_compare_take (long : bound.length ≤ bytes.length) :
    (compare bound bytes).isLE = (compare bound (bytes.take bound.length)).isLE := by
  have length : bound.length = (bytes.take bound.length).length := by
    rw [List.length_take, Nat.min_eq_left long]
  have parts := compare_append length [] (bytes.drop bound.length)
  rw [List.append_nil, List.take_append_drop] at parts
  rw [parts, Bool.eq_iff_iff, Ordering.isLE_then_iff_and]
  exact and_iff_left (.inr List.isLE_compare_nil_left)

/-- A string is before another of at most its length exactly when its beginning is. -/
theorem isLT_compare_take (long : bound.length ≤ bytes.length) :
    (compare bytes bound).isLT = (compare (bytes.take bound.length) bound).isLT := by
  have length : (bytes.take bound.length).length = bound.length := by
    rw [List.length_take, Nat.min_eq_left long]
  have parts := compare_append length (bytes.drop bound.length) []
  rw [List.append_nil, List.take_append_drop] at parts
  rw [parts, Ordering.isLT_then]
  cases bytes.drop bound.length with
  | nil => simp
  | cons byte rest => simp

end Beginning

/-- **The strings between the bytes of a number and those of the next are those that start with
the bytes of the number.** -/
theorem mem_range_iff {width n : ℕ} (bound : n + 1 < 256 ^ width) {bytes : Bytes}
    (long : width ≤ bytes.length) :
    ((compare (beBytes width n) bytes).isLE ∧ (compare bytes (beBytes width (n + 1))).isLT) ↔
      bytes.take width = beBytes width n := by
  have first : (beBytes width n).length = width := length_beBytes width n
  have last : (beBytes width (n + 1)).length = width := length_beBytes width (n + 1)
  have taken : (bytes.take width).length = width := by rw [List.length_take, Nat.min_eq_left long]
  rw [isLE_compare_take (first.trans_le long), isLT_compare_take (last.trans_le long), first, last,
    compare_eq_compare_ofBeBytes (first.trans taken.symm),
    compare_eq_compare_ofBeBytes (taken.trans last.symm), ofBeBytes_beBytes (by omega),
    ofBeBytes_beBytes bound]
  have number : ofBeBytes (bytes.take width) = n ↔ bytes.take width = beBytes width n := by
    constructor
    · intro same
      exact eq_of_ofBeBytes_eq (taken.trans first.symm)
        (same.trans (ofBeBytes_beBytes (by omega)).symm)
    · intro same
      rw [same, ofBeBytes_beBytes (by omega)]
  rw [← number, Std.isLE_compare, Ordering.isLT_iff_eq_lt, compare_lt_iff_lt]
  omega

/-- No string of at least the width is before the bytes of zero. -/
theorem not_isLT_zero {width : ℕ} {bytes : Bytes} (long : width ≤ bytes.length) :
    ¬ (compare bytes (beBytes width 0)).isLT := by
  have zero : (beBytes width 0).length = width := length_beBytes width 0
  have taken : (bytes.take width).length = width := by rw [List.length_take, Nat.min_eq_left long]
  rw [isLT_compare_take (zero.trans_le long), zero,
    compare_eq_compare_ofBeBytes (taken.trans zero.symm), ofBeBytes_beBytes (by positivity),
    Ordering.isLT_iff_eq_lt, compare_lt_iff_lt]
  exact Nat.not_lt_zero _

end Yeetbox.Library
