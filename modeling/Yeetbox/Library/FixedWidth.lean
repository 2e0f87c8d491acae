import Mathlib.Data.Nat.Digits.Lemmas

/-!
# Fixed-width positional codes

A number below `base ^ width` is written with exactly `width` digits, least
significant first. Reading the digits back gives the number (`ofDigits_fixedDigits`),
and every list of `width` digits is the code of the number it reads as
(`fixedDigits_ofDigits`), so the code is a bijection on its range.

The byte orders of machine words are the instance at base 256: `leBytes` and
`beBytes` write a number in little-endian and big-endian order, and `ofLeBytes`
and `ofBeBytes` read it. Reading the bytes of one order in the other order is
injective on words of a fixed width (`ofBeBytes_leBytes_inj`).
-/

set_option autoImplicit false

namespace Yeetbox.Library

/-! ## Digits -/

/-- The `width` lowest digits of a number, least significant first. -/
def fixedDigits (base : ℕ) : ℕ → ℕ → List ℕ
  | 0, _ => []
  | width + 1, n => n % base :: fixedDigits base width (n / base)

@[simp] theorem length_fixedDigits (base width n : ℕ) :
    (fixedDigits base width n).length = width := by
  induction width generalizing n with
  | zero => rfl
  | succ width ih => simp [fixedDigits, ih]

theorem fixedDigits_lt {base : ℕ} (positive : 0 < base) {width n digit : ℕ}
    (member : digit ∈ fixedDigits base width n) : digit < base := by
  induction width generalizing n with
  | zero => simp [fixedDigits] at member
  | succ width ih =>
      rcases List.mem_cons.mp member with rfl | later
      · exact Nat.mod_lt _ positive
      · exact ih later

/-- **The digits of a number within the width read back as the number.** -/
theorem ofDigits_fixedDigits {base width n : ℕ} (bound : n < base ^ width) :
    Nat.ofDigits base (fixedDigits base width n) = n := by
  induction width generalizing n with
  | zero =>
      have zero : n = 0 := by simpa using bound
      simp [fixedDigits, zero]
  | succ width ih =>
      have quotient : n / base < base ^ width :=
        Nat.div_lt_of_lt_mul (by rwa [pow_succ'] at bound)
      rw [fixedDigits, Nat.ofDigits_cons, ih quotient]
      exact Nat.mod_add_div n base

/-- **A list of digits is the code of the number it reads as.** -/
theorem fixedDigits_ofDigits {base : ℕ} (digits : List ℕ) (small : ∀ digit ∈ digits, digit < base) :
    fixedDigits base digits.length (Nat.ofDigits base digits) = digits := by
  induction digits with
  | nil => rfl
  | cons digit rest ih =>
      have here : digit < base := small digit List.mem_cons_self
      have positive : 0 < base := Nat.zero_lt_of_lt here
      have later := ih fun other member => small other (List.mem_cons_of_mem _ member)
      rw [List.length_cons, fixedDigits, Nat.ofDigits_cons,
        Nat.add_mul_mod_self_left, Nat.mod_eq_of_lt here,
        Nat.add_mul_div_left _ _ positive, Nat.div_eq_of_lt here, Nat.zero_add, later]

theorem fixedDigits_inj {base width m n : ℕ} (mBound : m < base ^ width) (nBound : n < base ^ width)
    (same : fixedDigits base width m = fixedDigits base width n) : m = n := by
  rw [← ofDigits_fixedDigits mBound, same, ofDigits_fixedDigits nBound]

/-! ## Bytes -/

/-- A byte string. -/
abbrev Bytes := List UInt8

/-- The `width` bytes of a number in little-endian order. -/
def leBytes (width n : ℕ) : Bytes := (fixedDigits 256 width n).map UInt8.ofNat

/-- The number that bytes in little-endian order read as. -/
def ofLeBytes (bytes : Bytes) : ℕ := Nat.ofDigits 256 (bytes.map UInt8.toNat)

/-- The `width` bytes of a number in big-endian order. -/
def beBytes (width n : ℕ) : Bytes := (leBytes width n).reverse

/-- The number that bytes in big-endian order read as. -/
def ofBeBytes (bytes : Bytes) : ℕ := ofLeBytes bytes.reverse

@[simp] theorem length_leBytes (width n : ℕ) : (leBytes width n).length = width := by
  simp [leBytes]

@[simp] theorem length_beBytes (width n : ℕ) : (beBytes width n).length = width := by
  simp [beBytes]

theorem map_toNat_leBytes (width n : ℕ) :
    (leBytes width n).map UInt8.toNat = fixedDigits 256 width n := by
  rw [leBytes, List.map_map]
  refine (List.map_congr_left fun digit member => ?_).trans (List.map_id _)
  have small : digit < 256 := fixedDigits_lt (by decide) member
  simp [Nat.mod_eq_of_lt small]

theorem ofLeBytes_leBytes {width n : ℕ} (bound : n < 256 ^ width) :
    ofLeBytes (leBytes width n) = n := by
  rw [ofLeBytes, map_toNat_leBytes, ofDigits_fixedDigits bound]

theorem ofBeBytes_beBytes {width n : ℕ} (bound : n < 256 ^ width) :
    ofBeBytes (beBytes width n) = n := by
  rw [ofBeBytes, beBytes, List.reverse_reverse, ofLeBytes_leBytes bound]

theorem ofLeBytes_lt (bytes : Bytes) : ofLeBytes bytes < 256 ^ bytes.length := by
  have small : ∀ digit ∈ bytes.map UInt8.toNat, digit < 256 := by
    intro digit member
    obtain ⟨byte, _, rfl⟩ := List.mem_map.mp member
    exact byte.toNat_lt
  simpa [ofLeBytes] using Nat.ofDigits_lt_base_pow_length (by decide) small

theorem leBytes_ofLeBytes (bytes : Bytes) : leBytes bytes.length (ofLeBytes bytes) = bytes := by
  have small : ∀ digit ∈ bytes.map UInt8.toNat, digit < 256 := by
    intro digit member
    obtain ⟨byte, _, rfl⟩ := List.mem_map.mp member
    exact byte.toNat_lt
  have code := fixedDigits_ofDigits _ small
  rw [List.length_map] at code
  rw [leBytes, ofLeBytes, code, List.map_map]
  exact (List.map_congr_left fun byte _ => UInt8.ofNat_toNat).trans (List.map_id _)

theorem ofBeBytes_lt (bytes : Bytes) : ofBeBytes bytes < 256 ^ bytes.length := by
  simpa [ofBeBytes] using ofLeBytes_lt bytes.reverse

theorem beBytes_inj {width m n : ℕ} (mBound : m < 256 ^ width) (nBound : n < 256 ^ width)
    (same : beBytes width m = beBytes width n) : m = n := by
  rw [← ofBeBytes_beBytes mBound, same, ofBeBytes_beBytes nBound]

theorem leBytes_inj {width m n : ℕ} (mBound : m < 256 ^ width) (nBound : n < 256 ^ width)
    (same : leBytes width m = leBytes width n) : m = n := by
  rw [← ofLeBytes_leBytes mBound, same, ofLeBytes_leBytes nBound]

/-- Byte strings of one length are equal when they read as one number. -/
theorem eq_of_ofBeBytes_eq {first second : Bytes} (length : first.length = second.length)
    (same : ofBeBytes first = ofBeBytes second) : first = second := by
  have reversed : first.reverse = second.reverse := by
    rw [← leBytes_ofLeBytes first.reverse, ← leBytes_ofLeBytes second.reverse]
    simp only [ofBeBytes] at same
    rw [same, List.length_reverse, List.length_reverse, length]
  exact List.reverse_injective reversed

/-- **Reading little-endian words in big-endian order is injective.** -/
theorem ofBeBytes_leBytes_inj {width m n : ℕ} (mBound : m < 256 ^ width) (nBound : n < 256 ^ width)
    (same : ofBeBytes (leBytes width m) = ofBeBytes (leBytes width n)) : m = n :=
  leBytes_inj mBound nBound (eq_of_ofBeBytes_eq (by simp) same)

/-! ## Taking words off the front of a byte string -/

/-- The little-endian word in the first `width` bytes. -/
def takeLe (width : ℕ) (bytes : Bytes) : ℕ := ofLeBytes (bytes.take width)

theorem takeLe_append {width n : ℕ} (bound : n < 256 ^ width) (rest : Bytes) :
    takeLe width (leBytes width n ++ rest) = n := by
  rw [takeLe, List.take_left' (length_leBytes width n), ofLeBytes_leBytes bound]

/-- Writing the word in the first bytes gives these bytes back. -/
theorem leBytes_takeLe {width : ℕ} {bytes : Bytes} (long : width ≤ bytes.length) :
    leBytes width (takeLe width bytes) = bytes.take width := by
  have code := leBytes_ofLeBytes (bytes.take width)
  rwa [List.length_take, Nat.min_eq_left long] at code

theorem takeLe_lt (width : ℕ) (bytes : Bytes) : takeLe width bytes < 256 ^ width :=
  lt_of_lt_of_le (ofLeBytes_lt _)
    (Nat.pow_le_pow_right (by decide) (List.length_take_le width bytes))

theorem drop_leBytes_append (width n : ℕ) (rest : Bytes) :
    (leBytes width n ++ rest).drop width = rest :=
  List.drop_left' (length_leBytes width n)

end Yeetbox.Library
