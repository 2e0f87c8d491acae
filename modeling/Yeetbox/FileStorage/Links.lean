import Yeetbox.FileStorage.Disk

/-!
# Where the link leads

The link to the latest version is an absolute path, put together by pushing and popping components.
Pushing a name adds a component (`components_push`), and popping takes it away again
(`components_pop_pop`), however the path was spelled. So the path of a version leads to its
directory and file (`versionAt_push`).
-/

set_option autoImplicit false

namespace Yeetbox.FileStorage

open Library Storage

/-- An absolute path. -/
def Absolute (path : Bytes) : Prop := path.head? = some slash

/-- A name that is a component. -/
structure IsName (name : Bytes) : Prop where
  noSlash : slash ∉ name
  component : componentOf name = some (.normal name)

variable {path name : Bytes}

theorem IsName.relative (isName : IsName name) : name.head? ≠ some slash :=
  fun head => isName.noSlash (List.mem_of_mem_head? head)

/-- The components of an absolute path after the root. -/
def piecesOf (path : Bytes) : List Component := (path.splitOn slash).filterMap componentOf

theorem Absolute.components (absolute : Absolute path) :
    components path = .rootDir :: piecesOf path := if_pos absolute

/-! ## Pushing -/

theorem Absolute.push (absolute : Absolute path) (name : Bytes) : Absolute (push path name) := by
  rw [Storage.push]
  split
  · assumption
  · obtain ⟨rest, rfl⟩ := List.head?_eq_some_iff.mp absolute
    split <;> rfl

theorem piecesOf_append (first rest : Bytes) :
    piecesOf (first ++ slash :: rest) = piecesOf first ++ piecesOf rest := by
  rw [piecesOf, List.splitOn_append_cons_self, List.filterMap_append]
  rfl

theorem piecesOf_name (isName : IsName name) : piecesOf name = [.normal name] := by
  rw [piecesOf, List.splitOn_eq_singleton isName.noSlash, List.filterMap_cons, isName.component]
  rfl

theorem piecesOf_push (absolute : Absolute path) (isName : IsName name) :
    piecesOf (push path name) = piecesOf path ++ [.normal name] := by
  rw [push, if_neg isName.relative]
  split
  · rw [piecesOf_append, piecesOf_name isName]
  · rename_i separated
    rcases last : path.getLast? with _ | byte
    · obtain rfl := List.getLast?_eq_none_iff.mp last
      cases absolute
    · obtain ⟨front, rfl⟩ := List.getLast?_eq_some_iff.mp last
      rw [last, Option.any_some, decide_eq_true_eq, not_not] at separated
      have none : piecesOf [] = [] := by decide
      rw [separated, List.append_assoc, List.singleton_append, piecesOf_append, piecesOf_append,
        piecesOf_name isName, none, List.append_nil]

/-- **Pushing a name adds a component.** -/
theorem components_push (absolute : Absolute path) (isName : IsName name) :
    components (push path name) = components path ++ [.normal name] := by
  rw [(absolute.push name).components, absolute.components, piecesOf_push absolute isName]
  rfl

/-! ## Popping -/

/-- The pieces of a path that `pop` leaves. -/
def keptPieces (path : Bytes) : List Bytes :=
  (((path.splitOn slash).rdropWhile passedOver).dropLast).rdropWhile passedOver

/-- What is passed over at the end adds no component. -/
theorem filterMap_rdropWhile (pieces : List Bytes) :
    (pieces.rdropWhile passedOver).filterMap componentOf = pieces.filterMap componentOf := by
  induction pieces using List.reverseRecOn with
  | nil => rfl
  | append_singleton front last ih =>
      cases passed : passedOver last with
      | true =>
          rw [List.rdropWhile_concat_pos _ _ _ passed, ih, List.filterMap_append,
            List.filterMap_cons, componentOf, if_pos passed]
          exact (List.append_nil _).symm
      | false =>
          rw [List.rdropWhile_concat_neg _ _ _ (passed ▸ Bool.false_ne_true)]

/-- What is left at the end is a component. -/
theorem exists_component {pieces front : List Bytes} {last : Bytes}
    (kept : pieces.rdropWhile passedOver = front ++ [last]) :
    ∃ component, componentOf last = some component := by
  have nonempty : pieces.rdropWhile passedOver ≠ [] := kept ▸ List.concat_ne_nil last front
  have stays := List.rdropWhile_last_not passedOver pieces nonempty
  simp only [kept, List.getLast_append_singleton] at stays
  rw [componentOf, if_neg stays]
  split
  · exact ⟨_, rfl⟩
  · exact ⟨_, rfl⟩

theorem filterMap_keptPieces (path : Bytes) :
    (keptPieces path).filterMap componentOf = (piecesOf path).dropLast := by
  rw [keptPieces, filterMap_rdropWhile, piecesOf, ← filterMap_rdropWhile (path.splitOn slash)]
  rcases List.eq_nil_or_concat' ((path.splitOn slash).rdropWhile passedOver) with
    none | ⟨front, last, kept⟩
  · rw [none]
    rfl
  · obtain ⟨component, isComponent⟩ := exists_component kept
    rw [kept, List.dropLast_concat, List.filterMap_append, List.filterMap_cons, isComponent,
      List.filterMap_nil, List.dropLast_concat]

theorem keptPieces_begin (path : Bytes) : keptPieces path <+: path.splitOn slash :=
  (List.rdropWhile_prefix _ _).trans
    ((List.dropLast_prefix _).trans (List.rdropWhile_prefix _ _))

/-- The first piece of an absolute path is empty, and is kept unless nothing is. -/
theorem Absolute.keptPieces_eq (absolute : Absolute path) :
    keptPieces path = [] ∨ ∃ second rest, keptPieces path = [] :: second :: rest := by
  obtain ⟨relative, rfl⟩ := List.head?_eq_some_iff.mp absolute
  have pieces : (slash :: relative).splitOn slash = [] :: relative.splitOn slash :=
    List.splitOn_append_cons_self [] relative
  have front := keptPieces_begin (slash :: relative)
  rw [pieces] at front
  rcases kept : keptPieces (slash :: relative) with _ | ⟨first, _ | ⟨second, rest⟩⟩
  · exact .inl rfl
  · rw [kept] at front
    obtain ⟨rfl, _⟩ := List.cons_prefix_cons.mp front
    obtain ⟨component, isComponent⟩ := @exists_component _ [] [] kept
    cases isComponent
  · rw [kept] at front
    obtain ⟨rfl, _⟩ := List.cons_prefix_cons.mp front
    exact .inr ⟨second, rest, rfl⟩

theorem slash_notMem_of_kept {piece : Bytes} (member : piece ∈ keptPieces path) :
    slash ∉ piece := by
  apply not_mem_of_mem_splitOn
  exact (keptPieces_begin path).subset member

theorem pop_eq (path : Bytes) : pop path =
    if keptPieces path = [] then [slash] else [slash].intercalate (keptPieces path) := rfl

theorem Absolute.pop (absolute : Absolute path) : Absolute (pop path) := by
  rw [pop_eq]
  rcases absolute.keptPieces_eq with none | ⟨second, rest, kept⟩
  · rw [if_pos none]
    rfl
  · rw [kept, if_neg (List.cons_ne_nil _ _)]
    rfl

/-- **Popping takes away the last component.** -/
theorem piecesOf_pop (path : Bytes) : piecesOf (pop path) = (piecesOf path).dropLast := by
  rw [← filterMap_keptPieces, pop_eq]
  split
  · rename_i none
    rw [none]
    decide
  · rename_i some
    rw [piecesOf, List.splitOn_intercalate slash (fun piece => slash_notMem_of_kept) some]

/-- **Names that were pushed are popped again.** -/
theorem components_pop_pop (absolute : Absolute path) {first second : Bytes}
    (isFirst : IsName first) (isSecond : IsName second) :
    components (pop (pop (push (push path first) second))) = components path := by
  have pushed := absolute.push first
  rw [(pushed.push second).pop.pop.components, absolute.components, piecesOf_pop, piecesOf_pop,
    piecesOf_push pushed isSecond, piecesOf_push absolute isFirst, List.dropLast_concat,
    List.dropLast_concat]

/-! ## Versions -/

/-- The major and the minor version that a path leads to, when it leads into the directory of a
file. -/
def versionAt (dir target : Bytes) : Option (Bytes × Bytes) :=
  match (components target).reverse with
  | .normal minor :: .normal major :: rest =>
      if rest.reverse = components dir then some (major, minor) else none
  | _ => none

/-- **The path of a version leads to it.** -/
theorem versionAt_push {dir major minor : Bytes} (absolute : Absolute path)
    (same : components path = components dir) (isMajor : IsName major) (isMinor : IsName minor) :
    versionAt dir (push (push path major) minor) = some (major, minor) := by
  rw [versionAt, components_push (absolute.push major) isMinor, components_push absolute isMajor,
    List.reverse_concat, List.reverse_concat]
  dsimp only
  rw [List.reverse_reverse, if_pos same]

/-- A path leads to a version that is there. -/
def LeadsToVersion (dir target : Bytes) (file : StoredFile) : Prop :=
  ∃ version, versionAt dir target = some version ∧ file.versionFile version.1 version.2 ≠ none

/-! ## Names in the directory of a file -/

/-- The directory of a stored file. -/
def fileDir (relpath : Bytes) : Bytes := push (utf8 storagePath) relpath

theorem absolute_fileDir (relpath : Bytes) : Absolute (fileDir relpath) := by
  apply Absolute.push
  rw [Absolute]
  decide

/-- A name with something else than dots and separators in it is a component. -/
theorem isName_of_mem {byte : UInt8} (noSlash : slash ∉ name) (member : byte ∈ name)
    (other : byte ≠ dot) : IsName name where
  noSlash := noSlash
  component := by
    have kept : passedOver name = false := by
      rw [passedOver, decide_eq_false_iff_not]
      rintro (rfl | rfl)
      · cases member
      · exact other (List.mem_singleton.mp member)
    have notParent : name ≠ [dot, dot] := by
      rintro rfl
      exact (List.mem_pair.mp member).elim other other
    rw [componentOf, kept, if_neg Bool.false_ne_true, if_neg notParent]

theorem isName_versionName (number : UInt64) : IsName (utf8 (versionName number)) :=
  ⟨fun member => (ne_of_mem_utf8_versionName member).1 rfl, componentOf_versionName number⟩

theorem isName_majorVersion1 : IsName (utf8 majorVersion1) :=
  majorVersion1_eq ▸ isName_versionName 1

theorem isName_minorVersion0 : IsName (utf8 minorVersion0) :=
  minorVersion0_eq ▸ isName_versionName 0

theorem isName_blobsDirName : IsName (utf8 blobsDirName) :=
  isName_of_mem (by decide) (show (95 : UInt8) ∈ utf8 blobsDirName by decide) (by decide)

theorem slash_notMem_ulidDigit :
    ∀ digit < 32, slash ∉ String.utf8EncodeChar (ulidDigit digit) := by
  decide

theorem isName_blobFileName (ulid : Ulid) : IsName (utf8 (blobFileName ulid)) := by
  have suffix : (98 : UInt8) ∈ utf8 blobSuffix := by decide
  rw [blobFileName, utf8_append]
  refine isName_of_mem ?_ (List.mem_append_right _ suffix) (by decide)
  rw [List.mem_append, not_or]
  constructor
  · rw [utf8, List.mem_flatMap]
    rintro ⟨c, member, inside⟩
    rw [Ulid.toName, List.mem_reverse, List.mem_map] at member
    obtain ⟨digit, digits, rfl⟩ := member
    exact slash_notMem_ulidDigit digit (fixedDigits_lt (by decide) digits) inside
  · decide

end Yeetbox.FileStorage
