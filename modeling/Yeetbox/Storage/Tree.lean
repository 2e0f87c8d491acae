import Yeetbox.Library.Reach
import Yeetbox.Storage.Move

/-!
# The tree of entries

An entry is reached when a finite chain of folders leads from the root to the folder that it is in.
A table is a tree when folders have distinct ids and every entry is reached. Removing an entry keeps
the others reached unless it is a folder that still has entries and has no other way into it
(`allReached_erase_iff`). Moving an entry keeps the tree exactly when the folder that it is moved to
is reached without passing the entry itself (`tree_movedTo_iff`).
-/

set_option autoImplicit false

namespace Yeetbox.Storage

open Library

variable {fs : Table Bytes Bytes} {key : Bytes}

/-- A finite chain of folders leads from the root to a folder. -/
abbrev FolderReached (fs : Table Bytes Bytes) (inside : FileSystemId) : Prop :=
  Reaches (Enters fs) rootFsid inside

/-- Every entry is in a folder that is reached. -/
def AllReached (fs : Table Bytes Bytes) : Prop :=
  ∀ key value : Bytes, fs[key]? = some value → ∃ parentId spelled,
    key = entryKey parentId spelled ∧ FolderReached fs parentId

/-- Folders have distinct ids, and every entry is reached. -/
structure Tree (fs : Table Bytes Bytes) : Prop where
  distinct : ∀ {first second one other}, RecordAt fs first one → RecordAt fs second other →
    one.type = objTypeFolder → other.type = objTypeFolder → one.id = other.id → first = second
  reached : AllReached fs

/-- An entry of a table in which every entry is reached is in a folder that is reached. -/
theorem AllReached.parent (all : AllReached fs) {parentId : FileSystemId} {spelled : Name}
    {value : Bytes} (found : fs[entryKey parentId spelled]? = some value) :
    FolderReached fs parentId := by
  obtain ⟨_, _, same, reached⟩ := all _ value found
  rwa [(entryKey_inj same).1]

/-- **No folder of a tree lies inside itself**, when no folder has the id of the root. -/
theorem Tree.not_inside_itself (tree : Tree fs) (noRoot : ∀ key, ¬ FolderAt fs key rootFsid)
    {inside : FileSystemId} (reached : FolderReached fs inside) :
    ¬ Relation.TransGen (Child (Enters fs)) inside inside := by
  refine reached.not_inside_itself ?_ fun node => ?_
  · rintro first second inner ⟨one, entered⟩ ⟨other, entered'⟩
    obtain ⟨record, there, folder, id⟩ := folderAt_iff.mp entered
    obtain ⟨record', there', folder', id'⟩ := folderAt_iff.mp entered'
    have same := tree.distinct there there' folder folder'
      (parentIdOfRecord_injective (id.symm.trans id'))
    exact (entryKey_inj same).1
  · rintro ⟨label, entered⟩
    exact noRoot _ entered

/-! ## Removing an entry -/

theorem enters_erase_iff {node inner : FileSystemId} {spelled : Name} :
    Enters (fs.erase key) node spelled inner ↔
      entryKey node spelled ≠ key ∧ Enters fs node spelled inner :=
  folderAt_erase_iff

/-- **Removing an entry keeps the others reached exactly when it is no folder, nothing is left in
the folder, or there is another way into it.** -/
theorem allReached_erase_iff (all : AllReached fs) :
    AllReached (fs.erase key) ↔ ∀ inside, FolderAt fs key inside →
      (∃ (spelled : Name) (value : Bytes),
        (fs.erase key)[entryKey inside spelled]? = some value) →
      FolderReached (fs.erase key) inside := by
  constructor
  · rintro after inside _ ⟨spelled, value, found⟩
    exact after.parent found
  · intro entered other value found
    have before : fs[other]? = some value := by
      rw [Table.get_erase] at found
      split at found
      · cases found
      · exact found
    obtain ⟨parentId, spelled, rfl, reached⟩ := all other value before
    refine ⟨parentId, spelled, rfl, ?_⟩
    have kept : ∀ node label inner, Enters fs node label inner →
        Enters (fs.erase key) node label inner ∨ FolderAt fs key inner := by
      intro node label inner enters
      by_cases here : entryKey node label = key
      · exact .inr (here ▸ enters)
      · exact .inl (enters_erase_iff.mpr ⟨here, enters⟩)
    by_cases folder : ∃ inside, FolderAt fs key inside
    · obtain ⟨inside, folder⟩ := folder
      by_cases more : ∃ (spelled : Name) (value : Bytes),
          (fs.erase key)[entryKey inside spelled]? = some value
      · have around := entered inside folder more
        refine reached.reroute fun node label inner enters => ?_
        rcases kept node label inner enters with still | lost
        · exact .inl still
        · exact .inr (lost.unique folder ▸ around)
      · have empty : ∀ label inner, ¬ Enters (fs.erase key) inside label inner := by
          rintro label inner ⟨value, _, there, _⟩
          exact more ⟨label, value, there⟩
        rcases reached.cut (fun node label inner enters =>
          (kept node label inner enters).imp_right (·.unique folder)) empty with still | rfl
        · exact still
        · exact absurd ⟨spelled, value, found⟩ more
    · refine reached.mono fun node label inner enters => ?_
      exact (kept node label inner enters).resolve_right fun lost => folder ⟨inner, lost⟩

/-! ## Moving an entry -/

section Moving

variable {source destination : Bytes} {record : FsRecordValue} (name : Name)

/-- A moved record is found at its destination, and the others where they were. -/
theorem recordAt_movedTo_iff (there : RecordAt fs source record) {other : Bytes}
    {found : FsRecordValue} : RecordAt (movedTo fs source destination record name) other found ↔
      (other = destination ∧ RecordAt fs source found) ∨
        (other ≠ destination ∧ other ≠ source ∧ RecordAt fs other found) := by
  rw [movedTo, recordAt_insert_iff, recordAt_erase_iff]
  refine or_congr_left (and_congr_right fun _ => ?_)
  constructor
  · rintro rfl
    exact there
  · exact fun again => again.unique there

theorem folderAt_movedTo_iff (there : RecordAt fs source record) {other : Bytes}
    {inside : FileSystemId} : FolderAt (movedTo fs source destination record name) other inside ↔
      (other = destination ∧ FolderAt fs source inside) ∨
        (other ≠ destination ∧ other ≠ source ∧ FolderAt fs other inside) := by
  simp only [folderAt_iff, recordAt_movedTo_iff name there]
  constructor
  · rintro ⟨found, ⟨rfl, at_source⟩ | ⟨different, moved, elsewhere⟩, folder⟩
    · exact .inl ⟨rfl, found, at_source, folder⟩
    · exact .inr ⟨different, moved, found, elsewhere, folder⟩
  · rintro (⟨rfl, found, at_source, folder⟩ | ⟨different, moved, found, elsewhere, folder⟩)
    · exact ⟨found, .inl ⟨rfl, at_source⟩, folder⟩
    · exact ⟨found, .inr ⟨different, moved, elsewhere⟩, folder⟩

/-- A record elsewhere stays where it is when the destination of a move is free. -/
theorem RecordAt.movedTo (there : RecordAt fs source record)
    (free : (fs.erase source)[destination]? = none) {other : Bytes} {found : FsRecordValue}
    (elsewhere : RecordAt fs other found) (moved : other ≠ source) :
    RecordAt (movedTo fs source destination record name) other found := by
  refine (recordAt_movedTo_iff name there).mpr (.inr ⟨?_, moved, elsewhere⟩)
  rintro rfl
  rw [Table.get_erase_ne _ moved] at free
  exact elsewhere.not_free free

theorem FolderAt.movedTo (there : RecordAt fs source record)
    (free : (fs.erase source)[destination]? = none) {other : Bytes} {inside : FileSystemId}
    (folder : FolderAt fs other inside) (moved : other ≠ source) :
    FolderAt (movedTo fs source destination record name) other inside := by
  obtain ⟨found, elsewhere, rest⟩ := folderAt_iff.mp folder
  exact folderAt_iff.mpr ⟨found, there.movedTo name free elsewhere moved, rest⟩

/-- A move keeps the ids of folders distinct. -/
theorem distinct_movedTo (there : RecordAt fs source record)
    (distinct : ∀ {first second one other}, RecordAt fs first one → RecordAt fs second other →
      one.type = objTypeFolder → other.type = objTypeFolder → one.id = other.id → first = second)
    {first second : Bytes} {one other : FsRecordValue}
    (at_first : RecordAt (movedTo fs source destination record name) first one)
    (at_second : RecordAt (movedTo fs source destination record name) second other)
    (folder : one.type = objTypeFolder) (folder' : other.type = objTypeFolder)
    (same : one.id = other.id) : first = second := by
  rcases (recordAt_movedTo_iff name there).mp at_first with ⟨rfl, here⟩ | ⟨_, moved, here⟩ <;>
    rcases (recordAt_movedTo_iff name there).mp at_second with ⟨rfl, here'⟩ | ⟨_, moved', here'⟩
  · rfl
  · exact absurd (distinct here here' folder folder' same).symm moved'
  · exact absurd (distinct here here' folder folder' same) moved
  · exact distinct here here' folder folder' same

/-- **Moving an entry keeps the tree exactly when the folder that it is moved to is reached without
passing the entry.** -/
theorem tree_movedTo_iff {parentId : FileSystemId} {spelled : Name} (tree : Tree fs)
    (there : RecordAt fs source record)
    (free : (fs.erase source)[entryKey parentId spelled]? = none) :
    Tree (movedTo fs source (entryKey parentId spelled) record name) ↔
      FolderReached (fs.erase source) parentId := by
  have stays := fun {other : Bytes} {inside : FileSystemId} (folder : FolderAt fs other inside) =>
    folder.movedTo name there free
  constructor
  · intro after
    have reached : FolderReached (movedTo fs source (entryKey parentId spelled) record name)
        parentId := after.reached.parent (Table.get_insert_self _ _ _)
    have old : ∀ node label inner,
        Enters (movedTo fs source (entryKey parentId spelled) record name) node label inner →
          Enters (fs.erase source) node label inner ∨ node = parentId := by
      intro node label inner enters
      rcases (folderAt_movedTo_iff name there).mp enters with ⟨here, _⟩ | ⟨_, moved, folder⟩
      · exact .inr (entryKey_inj here).1
      · exact .inl (enters_erase_iff.mpr ⟨moved, folder⟩)
    exact (reached.without_new old).elim id id
  · intro around
    refine ⟨distinct_movedTo name there tree.distinct, ?_⟩
    have arrives : FolderReached (movedTo fs source (entryKey parentId spelled) record name)
        parentId := by
      refine around.mono fun node label inner enters => ?_
      obtain ⟨moved, folder⟩ := enters_erase_iff.mp enters
      exact stays folder moved
    have still : ∀ {inside : FileSystemId}, FolderReached fs inside →
        FolderReached (movedTo fs source (entryKey parentId spelled) record name) inside := by
      intro inside reached
      refine reached.reroute fun node label inner enters => ?_
      by_cases here : entryKey node label = source
      · -- The folder that was moved is entered from where it is now.
        refine .inr (arrives.tail ⟨spelled, ?_⟩)
        exact (folderAt_movedTo_iff name there).mpr (.inl ⟨rfl, here ▸ enters⟩)
      · exact .inl (stays enters here)
    intro key value found
    rcases Table.of_get_insert found with ⟨same, _⟩ | left
    · exact ⟨parentId, spelled, same, arrives⟩
    · obtain ⟨parent, label, rfl, reached⟩ := tree.reached key value (Table.of_get_erase left)
      exact ⟨parent, label, rfl, still reached⟩

end Moving

end Yeetbox.Storage
