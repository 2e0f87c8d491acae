import Yeetbox.Storage.Name
import Yeetbox.Storage.Record

/-!
# ULIDs, blob file names and paths

A blob is a file in the blob directory named by a ULID: 26 Crockford base-32 digits and the
suffix `.blob`. Different ULIDs give different files (`blobPath_injective`). A continuation
token is the 16 bytes of a ULID in big-endian order, and reading a token gives back the ULID
it was made from (`ulidOfBytes_toBytes`).

`PathBuf::push` replaces the path by an absolute one. The version rows hold the full path of
a blob, so pushing what a row holds onto the blob directory is that path again
(`inBlobs_blobPath`).
-/

set_option autoImplicit false

namespace Yeetbox.Storage

open Library

/-! ## ULIDs -/

/-- The digits of Crockford's base 32. -/
def ulidAlphabet : List Char :=
  ['0', '1', '2', '3', '4', '5', '6', '7', '8', '9', 'A', 'B', 'C', 'D', 'E', 'F', 'G', 'H', 'J',
    'K', 'M', 'N', 'P', 'Q', 'R', 'S', 'T', 'V', 'W', 'X', 'Y', 'Z']

def ulidDigit (digit : ℕ) : Char := ulidAlphabet.getD digit '0'

/-- `Display` of a `Ulid`. -/
def Ulid.toName (ulid : Ulid) : Name := ((fixedDigits 32 26 ulid.toNat).map ulidDigit).reverse

/-- `Ulid::to_bytes`. -/
def Ulid.toBytes (ulid : Ulid) : Bytes := beBytes 16 ulid.toNat

/-- The ULID of 16 bytes; other lengths are no ULID. -/
def ulidOfBytes (bytes : Bytes) : Option Ulid :=
  if bytes.length = 16 then some (.ofNat 128 (ofBeBytes bytes)) else none

theorem ulidDigit_inj {first second : ℕ} (firstSmall : first < 32) (secondSmall : second < 32)
    (same : ulidDigit first = ulidDigit second) : first = second := by
  have read : ∀ digit < 32, ulidAlphabet.idxOf (ulidDigit digit) = digit := by decide
  rw [← read first firstSmall, same, read second secondSmall]

theorem map_ulidDigit_inj {first second : List ℕ} (firstSmall : ∀ digit ∈ first, digit < 32)
    (secondSmall : ∀ digit ∈ second, digit < 32)
    (same : first.map ulidDigit = second.map ulidDigit) : first = second := by
  induction first generalizing second with
  | nil => simpa using same.symm
  | cons digit first ih =>
      cases second with
      | nil => simp at same
      | cons other second =>
          rw [List.map_cons, List.map_cons, List.cons.injEq] at same
          have here := ulidDigit_inj (firstSmall _ List.mem_cons_self)
            (secondSmall _ List.mem_cons_self) same.1
          have later := ih (fun d member => firstSmall d (List.mem_cons_of_mem _ member))
            (fun d member => secondSmall d (List.mem_cons_of_mem _ member)) same.2
          rw [here, later]

/-- **The text of a ULID determines it.** -/
theorem Ulid.toName_injective : Function.Injective Ulid.toName := by
  intro first second same
  have bound : ∀ ulid : Ulid, ulid.toNat < 32 ^ 26 := fun ulid =>
    Nat.lt_of_lt_of_le ulid.isLt (by decide)
  have small : ∀ (ulid : Ulid), ∀ digit ∈ fixedDigits 32 26 ulid.toNat, digit < 32 :=
    fun ulid digit member => fixedDigits_lt (by decide) member
  have digits := map_ulidDigit_inj (small first) (small second) (List.reverse_injective same)
  exact BitVec.eq_of_toNat_eq (fixedDigits_inj (bound first) (bound second) digits)

@[simp] theorem ulidOfBytes_toBytes (ulid : Ulid) : ulidOfBytes ulid.toBytes = some ulid := by
  rw [Ulid.toBytes, ulidOfBytes, if_pos (length_beBytes 16 _), ofBeBytes_beBytes ulid.isLt,
    BitVec.ofNat_toNat, BitVec.setWidth_eq]

/-- **Different ULIDs have different tokens.** -/
theorem Ulid.toBytes_injective : Function.Injective Ulid.toBytes := by
  intro first second same
  have read := congrArg ulidOfBytes same
  rwa [ulidOfBytes_toBytes, ulidOfBytes_toBytes, Option.some_inj] at read

theorem Ulid.toBytes_ne_nil (ulid : Ulid) : ulid.toBytes ≠ [] := by
  intro empty
  have length := length_beBytes 16 ulid.toNat
  rw [Ulid.toBytes] at empty
  rw [empty] at length
  exact absurd length (by decide)

/-- **A token names one ULID and is its only token.** -/
theorem ulidOfBytes_eq_some_iff {bytes : Bytes} {ulid : Ulid} :
    ulidOfBytes bytes = some ulid ↔ bytes = ulid.toBytes := by
  constructor
  · intro read
    rw [ulidOfBytes] at read
    split at read
    · rename_i length
      have word : ulid.toNat = ofBeBytes bytes := by
        rw [← Option.some.inj read, BitVec.toNat_ofNat]
        have bound := ofBeBytes_lt bytes
        rw [length] at bound
        exact Nat.mod_eq_of_lt bound
      refine eq_of_ofBeBytes_eq ?_ ?_
      · rw [length, Ulid.toBytes, length_beBytes]
      · rw [Ulid.toBytes, ofBeBytes_beBytes ulid.isLt, word]
    · cases read
  · rintro rfl
    exact ulidOfBytes_toBytes ulid

/-! ## Paths -/

/-- The byte of `/`. -/
def slash : UInt8 := 0x2F

/-- `PathBuf::push`. -/
def push (base path : Bytes) : Bytes :=
  if path.head? = some slash then path
  else if base.getLast?.any (· ≠ slash) then base ++ slash :: path
  else base ++ path

/-- The blob directory, as `DatabaseStorage::new` sets it. -/
def blobsPath : Name :=
  ['/', 't', 'm', 'p', '/', 'y', 'e', 'e', 't', 'b', 'o', 'x', '/', 'b', 'l', 'o', 'b', 's']

def blobSuffix : Name := ['.', 'b', 'l', 'o', 'b']

/-- `format!("{}.blob", ulid)`. -/
def blobFileName (ulid : Ulid) : Name := ulid.toName ++ blobSuffix

/-- `format!("{}.blob", ulid.0)`: the number behind a ULID is printed in decimal. -/
def decimalFileName (ulid : Ulid) : Name := Nat.toDigits 10 ulid.toNat ++ blobSuffix

/-- A file name in the blob directory. -/
def inBlobs (fileName : Bytes) : Bytes := push (utf8 blobsPath) fileName

/-- The path of the blob of a ULID. -/
def blobPath (ulid : Ulid) : Bytes := inBlobs (utf8 (blobFileName ulid))

theorem utf8_ulidDigit_head : ∀ digit < 32,
    (String.utf8EncodeChar (ulidDigit digit)).head? ≠ some slash ∧
      String.utf8EncodeChar (ulidDigit digit) ≠ [] := by
  decide

/-- A name that begins with a digit of a ULID is a relative path. -/
theorem head_ulidDigit {digit : ℕ} (small : digit < 32) (rest : Name) :
    (utf8 (ulidDigit digit :: rest)).head? ≠ some slash := by
  obtain ⟨notSlash, nonempty⟩ := utf8_ulidDigit_head digit small
  rw [utf8, List.flatMap_cons, List.head?_append_of_ne_nil _ nonempty]
  exact notSlash

theorem inBlobs_of_head {fileName : Name} (relative : (utf8 fileName).head? ≠ some slash) :
    inBlobs (utf8 fileName) = utf8 blobsPath ++ slash :: utf8 fileName := by
  rw [inBlobs, push, if_neg relative]
  rfl

theorem length_toName (ulid : Ulid) : ulid.toName.length = 26 := by simp [Ulid.toName]

/-- A blob file name is a relative path. -/
theorem head_blobFileName (ulid : Ulid) : (utf8 (blobFileName ulid)).head? ≠ some slash := by
  cases name : ulid.toName with
  | nil =>
      have length := length_toName ulid
      rw [name] at length
      exact absurd length (by decide)
  | cons c rest =>
      have member : c ∈ ulid.toName := by rw [name]; exact List.mem_cons_self
      rw [Ulid.toName, List.mem_reverse, List.mem_map] at member
      obtain ⟨digit, digitMember, rfl⟩ := member
      rw [blobFileName, name, List.cons_append]
      exact head_ulidDigit (fixedDigits_lt (by decide) digitMember) _

theorem blobPath_eq (ulid : Ulid) :
    blobPath ulid = utf8 blobsPath ++ slash :: utf8 (blobFileName ulid) :=
  inBlobs_of_head (head_blobFileName ulid)

/-- A blob path is a string. -/
theorem blobPath_eq_utf8 (ulid : Ulid) :
    blobPath ulid = utf8 (blobsPath ++ '/' :: blobFileName ulid) := by
  rw [blobPath_eq, utf8_append]
  rfl

/-- **Different ULIDs name different blobs.** -/
theorem blobPath_injective : Function.Injective blobPath := by
  intro first second same
  rw [blobPath_eq, blobPath_eq, List.append_cancel_left_eq, List.cons.injEq] at same
  have names := utf8_injective same.2
  rw [blobFileName, blobFileName, List.append_cancel_right_eq] at names
  exact Ulid.toName_injective names

/-- **A full blob path pushed onto the blob directory is that path.** -/
@[simp] theorem inBlobs_blobPath (ulid : Ulid) : inBlobs (blobPath ulid) = blobPath ulid := by
  have absolute : (blobPath ulid).head? = some slash := by
    rw [blobPath_eq]
    rfl
  rw [inBlobs, push, if_pos absolute]

/-! ## File names in decimal -/

/-- The digits of a number are digits of a ULID too. -/
theorem digit_eq_ulidDigit {c : Char} (digit : c.isDigit = true) :
    ∃ value < 10, c = ulidDigit value := by
  have digits : ∀ value < 10, Char.ofNat (48 + value) = ulidDigit value := by decide
  have bounds : 48 ≤ c.toNat ∧ c.toNat ≤ 57 := by
    simpa [Char.isDigit, UInt32.le_iff_toNat_le] using digit
  refine ⟨c.toNat - 48, by omega, ?_⟩
  rw [← digits _ (by omega), Nat.add_sub_cancel' bounds.1, Char.ofNat_toNat]

/-- A file name in decimal is a relative path. -/
theorem head_decimalFileName (ulid : Ulid) :
    (utf8 (decimalFileName ulid)).head? ≠ some slash := by
  cases name : Nat.toDigits 10 ulid.toNat with
  | nil =>
      have length : 0 < (Nat.toDigits 10 ulid.toNat).length := Nat.length_toDigits_pos
      rw [name] at length
      exact absurd length (by decide)
  | cons c rest =>
      have member : c ∈ Nat.toDigits 10 ulid.toNat := by rw [name]; exact List.mem_cons_self
      obtain ⟨value, small, rfl⟩ :=
        digit_eq_ulidDigit (Nat.isDigit_of_mem_toDigits (by decide) (by decide) member)
      rw [decimalFileName, name, List.cons_append]
      exact head_ulidDigit (by omega) _

/-- **No blob has a file name in decimal**, for a number of more than 26 digits. -/
theorem decimal_ne_blobPath {ulid : Ulid} (large : 10 ^ 26 ≤ ulid.toNat) (other : Ulid) :
    inBlobs (utf8 (decimalFileName ulid)) ≠ blobPath other := by
  intro same
  rw [inBlobs_of_head (head_decimalFileName ulid), blobPath_eq, List.append_cancel_left_eq,
    List.cons.injEq] at same
  have names := utf8_injective same.2
  rw [decimalFileName, blobFileName, List.append_cancel_right_eq] at names
  have short : (Nat.toDigits 10 ulid.toNat).length ≤ 26 := by
    rw [names, length_toName]
  rw [Nat.length_toDigits_le_iff (by decide) (by decide)] at short
  omega

end Yeetbox.Storage
