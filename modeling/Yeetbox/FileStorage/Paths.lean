import Yeetbox.Library.Split
import Yeetbox.Storage.World

/-!
# Paths and version names

The file driver keeps a file in a directory of its own. A version is a file in there, named by two
numbers that are padded with zeros: the directory of its major version and its minor version in it.
The link to the latest version is read back through its components, and the number that was printed
is the number that is parsed (`parseU64_versionName`). So different versions have different names
(`versionName_injective`).
-/

set_option autoImplicit false

namespace Yeetbox.FileStorage

open Library Storage

/-! ## Names -/

def headFileName : Name := ['_', 'h', 'e', 'a', 'd']

def blobsDirName : Name := ['_', 'b', 'l', 'o', 'b', 's']

def majorVersion1 : Name := ['0', '0', '0', '0', '0', '0', '0', '0', '0', '0', '0', '1']

def minorVersion0 : Name := ['0', '0', '0', '0', '0', '0', '0', '0', '0', '0', '0', '0']

/-- The directory that `FileStorage::new` sets. -/
def storagePath : Name := ['/', 't', 'm', 'p', '/', 'y', 'e', 'e', 't', 'b', 'o', 'x']

/-- `format!("{:012}", number)`. -/
def versionName (number : UInt64) : Name := (Nat.toDigits 10 number.toNat).leftpad 12 '0'

/-- `str::parse::<u64>`: digits after an optional plus sign. -/
def parseU64 (text : Name) : Option UInt64 :=
  let digits := if text.head? = some '+' then text.tail else text
  if digits ≠ [] ∧ digits.all Char.isDigit ∧ Nat.ofDigitChars 10 digits 0 < 2 ^ 64 then
    some (.ofNat (Nat.ofDigitChars 10 digits 0))
  else none

theorem majorVersion1_eq : majorVersion1 = versionName 1 := by decide

theorem minorVersion0_eq : minorVersion0 = versionName 0 := by decide

/-- A version name is made of digits. -/
theorem isDigit_of_mem_versionName {number : UInt64} {c : Char} (member : c ∈ versionName number) :
    c.isDigit = true := by
  rw [versionName, List.leftpad, List.mem_append, List.mem_replicate] at member
  rcases member with ⟨_, rfl⟩ | digit
  · decide
  · exact Nat.isDigit_of_mem_toDigits (by decide) (by decide) digit

theorem versionName_ne_nil (number : UInt64) : versionName number ≠ [] := by
  have positive : 0 < (Nat.toDigits 10 number.toNat).length := Nat.length_toDigits_pos
  rw [versionName, List.leftpad, ne_eq, List.append_eq_nil_iff, ← List.length_eq_zero_iff,
    ← List.length_eq_zero_iff]
  omega

/-- **What was printed is parsed again.** -/
@[simp] theorem parseU64_versionName (number : UInt64) :
    parseU64 (versionName number) = some number := by
  have unsigned : (versionName number).head? ≠ some '+' := by
    intro plus
    have digit := isDigit_of_mem_versionName (List.mem_of_mem_head? plus)
    exact absurd digit (by decide)
  have digits : (versionName number).all Char.isDigit = true :=
    List.all_eq_true.mpr fun c member => isDigit_of_mem_versionName member
  have value : Nat.ofDigitChars 10 (versionName number) 0 = number.toNat := by
    rw [versionName, List.leftpad, Nat.ofDigitChars_append, Nat.ofDigitChars_replicate_zero,
      Nat.mul_zero, Nat.ofDigitChars_ten_toDigits]
  rw [parseU64, if_neg unsigned, value,
    if_pos ⟨versionName_ne_nil number, digits, number.toNat_lt⟩, UInt64.ofNat_toNat]

/-- **Different numbers have different names.** -/
theorem versionName_injective : Function.Injective versionName := by
  intro first second same
  have parsed := congrArg parseU64 same
  rwa [parseU64_versionName, parseU64_versionName, Option.some_inj] at parsed

/-! ## Paths -/

/-- The byte of `.`. -/
def dot : UInt8 := 0x2E

/-- `strs_to_path`; there is no path when a name is not UTF-8. -/
def strsToPath (strs : List Bytes) : Option Bytes :=
  strs.foldlM (fun path s => if (ofUtf8 s).isSome then some (push path s) else none) []

/-- A piece of a path that `Path::components` passes over. -/
def passedOver (piece : Bytes) : Bool := piece = [] ∨ piece = [dot]

/-- `PathBuf::pop` of an absolute path. -/
def pop (path : Bytes) : Bytes :=
  let kept := (((path.splitOn slash).rdropWhile passedOver).dropLast).rdropWhile passedOver
  if kept = [] then [slash] else [slash].intercalate kept

/-- `std::path::Component`. -/
inductive Component where
  | rootDir
  | curDir
  | parentDir
  | normal (name : Bytes)
  deriving DecidableEq

/-- `Component::as_os_str`. -/
def Component.asOsStr : Component → Bytes
  | rootDir => [slash]
  | curDir => [dot]
  | parentDir => [dot, dot]
  | normal name => name

/-- The component of a piece that is not the first one of a relative path. -/
def componentOf (piece : Bytes) : Option Component :=
  if passedOver piece then none
  else if piece = [dot, dot] then some .parentDir
  else some (.normal piece)

/-- `Path::components`. -/
def components (path : Bytes) : List Component :=
  if path.head? = some slash then .rootDir :: (path.splitOn slash).filterMap componentOf
  else if (path.splitOn slash).head? = some [dot] then
    .curDir :: (path.splitOn slash).filterMap componentOf
  else (path.splitOn slash).filterMap componentOf

/-- The major version that a link to the latest version names. -/
def latestMajor (latestRealPath : Bytes) : Except Status UInt64 :=
  match (components latestRealPath).reverse[1]? with
  | none => .error (.internal ".head symlink is invalid")
  | some major =>
      match (ofUtf8 major.asOsStr).bind parseU64 with
      | none => .error (.internal "major file name invalid")
      | some number => .ok number

/-! ## The link to a version -/

/-- A digit is one byte. -/
theorem utf8_digit :
    ∀ value < 10, String.utf8EncodeChar (ulidDigit value) = [.ofNat (48 + value)] := by
  decide

theorem digit_ne : ∀ value < 10,
    UInt8.ofNat (48 + value) ≠ slash ∧ UInt8.ofNat (48 + value) ≠ dot := by
  decide

/-- A version name has no separator and no dot. -/
theorem ne_of_mem_utf8_versionName {number : UInt64} {byte : UInt8}
    (member : byte ∈ utf8 (versionName number)) : byte ≠ slash ∧ byte ≠ dot := by
  rw [utf8, List.mem_flatMap] at member
  obtain ⟨c, inside, encoded⟩ := member
  obtain ⟨value, small, rfl⟩ := digit_eq_ulidDigit (isDigit_of_mem_versionName inside)
  rw [utf8_digit value small, List.mem_singleton] at encoded
  rw [encoded]
  exact digit_ne value small

theorem utf8_versionName_ne_nil (number : UInt64) : utf8 (versionName number) ≠ [] :=
  fun empty => versionName_ne_nil number (utf8_injective (empty.trans utf8_nil.symm))

/-- A version name is a component. -/
theorem componentOf_versionName (number : UInt64) :
    componentOf (utf8 (versionName number)) = some (.normal (utf8 (versionName number))) := by
  have noDot : ∀ rest, utf8 (versionName number) ≠ dot :: rest := by
    intro rest same
    have member : dot ∈ utf8 (versionName number) := same ▸ List.mem_cons_self
    exact (ne_of_mem_utf8_versionName member).2 rfl
  have kept : passedOver (utf8 (versionName number)) = false := by
    rw [passedOver, decide_eq_false_iff_not]
    rintro (empty | single)
    · exact utf8_versionName_ne_nil number empty
    · exact noDot [] single
  rw [componentOf, kept, if_neg Bool.false_ne_true, if_neg (noDot [dot])]

/-- The components after a separator are those of the rest. -/
theorem components_append (path rest : Bytes) :
    ∃ front, components (path ++ slash :: rest) =
      front ++ (rest.splitOn slash).filterMap componentOf := by
  rw [components, List.splitOn_append_cons_self, List.filterMap_append]
  split
  · exact ⟨_ :: _, rfl⟩
  · split
    · exact ⟨_ :: _, rfl⟩
    · exact ⟨_, rfl⟩

/-- Pushing a relative path puts it behind a separator. -/
theorem push_eq_append {base path : Bytes} (nonempty : base ≠ [])
    (relative : path.head? ≠ some slash) : ∃ front, push base path = front ++ slash :: path := by
  rw [push, if_neg relative]
  rcases last : base.getLast? with _ | byte
  · exact absurd (List.getLast?_eq_none_iff.mp last) nonempty
  · by_cases separated : byte = slash
    · obtain ⟨front, rfl⟩ := List.getLast?_eq_some_iff.mp last
      rw [separated]
      exact ⟨front, List.append_assoc _ _ _⟩
    · rw [Option.any_some, decide_eq_true separated]
      exact ⟨base, rfl⟩

/-- **The link to a version names its major version.** -/
theorem latestMajor_link {dir : Bytes} (nonempty : dir ≠ []) (major minor : UInt64) :
    latestMajor (push (push dir (utf8 (versionName major))) (utf8 (versionName minor))) =
      .ok major := by
  have noSlash : ∀ number, slash ∉ utf8 (versionName number) :=
    fun number member => (ne_of_mem_utf8_versionName member).1 rfl
  have relative : ∀ number, (utf8 (versionName number)).head? ≠ some slash :=
    fun number head => noSlash number (List.mem_of_mem_head? head)
  obtain ⟨front, majorPath⟩ := push_eq_append nonempty (relative major)
  have ends : push (push dir (utf8 (versionName major))) (utf8 (versionName minor)) =
      front ++ slash :: (utf8 (versionName major) ++ slash :: utf8 (versionName minor)) := by
    have last := List.getLast?_eq_some_getLast (utf8_versionName_ne_nil major)
    have other : (utf8 (versionName major)).getLast (utf8_versionName_ne_nil major) ≠ slash :=
      (ne_of_mem_utf8_versionName (List.getLast_mem _)).1
    have separate :
        (front ++ slash :: utf8 (versionName major)).getLast?.any (· ≠ slash) = true := by
      simp [List.getLast?_append, List.getLast?_cons, last, other]
    rw [majorPath, push, if_neg (relative minor), if_pos separate, List.append_assoc]
    rfl
  obtain ⟨earlier, pieces⟩ := components_append front
    (utf8 (versionName major) ++ slash :: utf8 (versionName minor))
  rw [List.splitOn_append_cons_self, List.splitOn_eq_singleton (noSlash major),
    List.splitOn_eq_singleton (noSlash minor)] at pieces
  have named : (components (push (push dir (utf8 (versionName major)))
      (utf8 (versionName minor)))).reverse[1]? = some (.normal (utf8 (versionName major))) := by
    rw [ends, pieces]
    simp [componentOf_versionName]
  rw [latestMajor, named]
  simp [Component.asOsStr]

end Yeetbox.FileStorage
