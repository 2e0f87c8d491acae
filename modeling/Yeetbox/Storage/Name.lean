import Yeetbox.Library.FixedWidth
import Mathlib.Data.List.DropRight

/-!
# Names: text, UTF-8, white space and normalization

A path component is a Rust `String`: a sequence of Unicode scalar values. Its bytes are
its UTF-8 encoding, which determines it (`utf8_injective`).

The normal forms NFKD and NFKC come from the `unicode-normalization` crate, so they are a
parameter here. A `Normalization` carries the functions together with what Unicode
documents about them: NFKD replaces each character by its full compatibility
decomposition, which is never empty, and reorders the result; both forms are idempotent;
and composing does not change what a name decomposes to.

The one fact the storage needs beyond these is `nfkd_trim_eq_iff`: white space removed from
the ends of a name always changes its NFKD form.
-/

set_option autoImplicit false

namespace Yeetbox.Storage

open Library

/-- A Rust `String`. -/
abbrev Name := List Char

/-! ## UTF-8 -/

/-- The bytes of a string. -/
def utf8 (name : Name) : Bytes := name.flatMap String.utf8EncodeChar

@[simp] theorem utf8_nil : utf8 [] = [] := rfl

theorem utf8_append (first second : Name) : utf8 (first ++ second) = utf8 first ++ utf8 second :=
  List.flatMap_append

/-- **UTF-8 determines the string.** -/
theorem utf8_injective : Function.Injective utf8 := by
  intro first second same
  have encoded : first.utf8Encode = second.utf8Encode := by
    rw [List.utf8Encode, List.utf8Encode]
    exact congrArg List.toByteArray same
  have decoded := congrArg ByteArray.utf8Decode? encoded
  rw [List.utf8Decode?_utf8Encode, List.utf8Decode?_utf8Encode, Option.some_inj] at decoded
  simpa using congrArg Array.toList decoded

/-- The string that bytes encode, when they are valid UTF-8. -/
def ofUtf8 (bytes : Bytes) : Option Name :=
  (ByteArray.mk bytes.toArray).utf8Decode?.map Array.toList

@[simp] theorem ofUtf8_utf8 (name : Name) : ofUtf8 (utf8 name) = some name := by
  have bytes : ByteArray.mk (utf8 name).toArray = name.utf8Encode := by
    rw [List.utf8Encode, utf8, ← List.data_toByteArray]
  simp [ofUtf8, bytes]

/-! ## White space -/

/-- `char::is_whitespace`: the Unicode property `White_Space`. -/
def isWhitespace (c : Char) : Bool :=
  let code := c.toNat
  (0x09 ≤ code && code ≤ 0x0D) || code == 0x20 || code == 0x85 || code == 0xA0 ||
  code == 0x1680 || (0x2000 ≤ code && code ≤ 0x200A) || code == 0x2028 || code == 0x2029 ||
  code == 0x202F || code == 0x205F || code == 0x3000

/-- `str::trim`. -/
def trim (name : Name) : Name := (name.dropWhile isWhitespace).rdropWhile isWhitespace

theorem trim_infix (name : Name) : trim name <:+: name := by
  have front := List.rdropWhile_prefix isWhitespace (name.dropWhile isWhitespace)
  exact front.isInfix.trans (List.dropWhile_suffix isWhitespace).isInfix

/-! ## Normal forms -/

/-- The normal forms NFKD and NFKC, with what is documented about them. -/
structure Normalization where
  /-- The full compatibility decomposition of a character. -/
  decompose : Char → Name
  nfkd : Name → Name
  nfkc : Name → Name
  decompose_ne_nil : ∀ c, decompose c ≠ []
  nfkd_perm : ∀ name, (nfkd name).Perm (name.flatMap decompose)
  nfkd_nfkd : ∀ name, nfkd (nfkd name) = nfkd name
  nfkc_nfkc : ∀ name, nfkc (nfkc name) = nfkc name
  nfkd_nfkc : ∀ name, nfkd (nfkc name) = nfkd name

namespace Normalization

/-- Normal forms that replace single characters by single characters. -/
def ofChars (replace : Char → Char) (idempotent : ∀ c, replace (replace c) = replace c) :
    Normalization where
  decompose c := [replace c]
  nfkd name := name.map replace
  nfkc name := name.map replace
  decompose_ne_nil _ := List.cons_ne_nil _ _
  nfkd_perm name := by
    rw [List.map_eq_flatMap]
  nfkd_nfkd name := by
    rw [List.map_map]
    exact List.map_congr_left fun c _ => idempotent c
  nfkc_nfkc name := by
    rw [List.map_map]
    exact List.map_congr_left fun c _ => idempotent c
  nfkd_nfkc name := by
    rw [List.map_map]
    exact List.map_congr_left fun c _ => idempotent c

/-- The normal forms on text whose characters are all their own normal form, such as ASCII. -/
def unchanged : Normalization := ofChars id fun _ => rfl

variable (normalization : Normalization)

theorem decompose_nil_of_length_eq {before rest after : Name}
    (same : ((before ++ rest ++ after).flatMap normalization.decompose).length =
      (rest.flatMap normalization.decompose).length) : before = [] ∧ after = [] := by
  have none : ∀ name : Name, (name.flatMap normalization.decompose).length = 0 → name = [] := by
    intro name zero
    rcases name with _ | ⟨c, name⟩
    · rfl
    · have empty : normalization.decompose c = [] := by
        rw [List.length_eq_zero_iff, List.flatMap_cons, List.append_eq_nil_iff] at zero
        exact zero.1
      exact absurd empty (normalization.decompose_ne_nil c)
  rw [List.flatMap_append, List.flatMap_append, List.length_append, List.length_append] at same
  exact ⟨none before (by omega), none after (by omega)⟩

/-- **Trimming keeps the NFKD form of a name only when there is nothing to trim.** -/
theorem nfkd_trim_eq_iff (name : Name) :
    normalization.nfkd (trim name) = normalization.nfkd name ↔ trim name = name := by
  constructor
  · intro same
    obtain ⟨before, after, split⟩ := trim_infix name
    have lengths : (name.flatMap normalization.decompose).length =
        ((trim name).flatMap normalization.decompose).length := by
      rw [← (normalization.nfkd_perm name).length_eq, ← same,
        (normalization.nfkd_perm (trim name)).length_eq]
    rw [← split] at lengths
    obtain ⟨rfl, rfl⟩ := normalization.decompose_nil_of_length_eq (by
      rw [split] at lengths ⊢
      exact lengths)
    simpa using split
  · intro same
    rw [same]

end Normalization

end Yeetbox.Storage
