import Yeetbox.Library.Descent
import Yeetbox.Storage.World

/-!
# Keys and walks

The key of an entry is the big-endian id of its parent followed by its name in NFKD. A walk
starts at the root and looks up one key per component; the value found must be a folder, and
its first eight bytes, read in big-endian order, are the parent id for the next component.

The source writes the walk four times. The copies differ in how they spell a component
before the lookup: `make_directory` and `upload` take it as it is, `descend_path` puts it in
NFKD, and `list` in NFKC. They also differ in the text of one error. `walkFolders` is the
common loop, and each copy is its instance.
-/

set_option autoImplicit false

namespace Yeetbox.Storage

open Library

/-- A key of `FS_TABLE` for a name that is already spelled as the table spells it. -/
def entryKey (parentId : FileSystemId) (spelled : Name) : Bytes :=
  beBytes 8 parentId.toNat ++ utf8 spelled

def makeKey (normalization : Normalization) (parentId : FileSystemId) (fileName : Name) : Bytes :=
  entryKey parentId (normalization.nfkd fileName)

/-- **A key determines the parent id and the spelled name.** -/
theorem entryKey_inj {firstParent secondParent : FileSystemId} {first second : Name}
    (same : entryKey firstParent first = entryKey secondParent second) :
    firstParent = secondParent ∧ first = second := by
  have halves := List.append_inj same (by simp)
  have parents := beBytes_inj firstParent.toNat_lt secondParent.toNat_lt halves.1
  exact ⟨UInt64.toNat_inj.mp parents, utf8_injective halves.2⟩

/-! ## The walks -/

/-- One step of a walk: look up a component under the parent and enter the folder found. -/
def walkStep (spell : Name → Name) (notFolder : String) (fs : Table Bytes Bytes)
    (parentId : FileSystemId) (component : Name) : Except Status FileSystemId :=
  match fs[entryKey parentId (spell component)]? with
  | none => .error (.invalidArgument "no such parent path")
  | some value =>
      match fsRecordFromBytes value with
      | none => .error (.internal "corrupted fs record")
      | some record =>
          if record.type ≠ objTypeFolder then .error (.invalidArgument notFolder)
          else .ok (parentIdOfValue value)

/-- The loop over the components of a path. -/
def walkFolders (spell : Name → Name) (notFolder : String) (fs : Table Bytes Bytes)
    (path : List Name) : Except Status FileSystemId :=
  path.foldlM (walkStep spell notFolder fs) rootFsid

/-- `descend_path`, used by `append`, `download`, `delete`, `move` and `copy`. -/
def descendPath (normalization : Normalization) (fs : Table Bytes Bytes) (path : List Name) :
    Except Status FileSystemId :=
  walkFolders normalization.nfkd "path contained a non-folder" fs path

/-- The walk in `make_directory`. -/
def makeDirectoryWalk (fs : Table Bytes Bytes) (path : List Name) : Except Status FileSystemId :=
  walkFolders id "cannot place under non-folder" fs path

/-- The walk in `upload`. -/
def uploadWalk (fs : Table Bytes Bytes) (path : List Name) : Except Status FileSystemId :=
  walkFolders id "cannot place under non-folder" fs path

/-- The walk in `list`. -/
def listWalk (normalization : Normalization) (fs : Table Bytes Bytes) (path : List Name) :
    Except Status FileSystemId :=
  walkFolders normalization.nfkc "cannot list under non-folder" fs path

/-! ## The record under a key -/

/-- The record under a key. -/
def RecordAt (fs : Table Bytes Bytes) (key : Bytes) (record : FsRecordValue) : Prop :=
  ∃ value, fs[key]? = some value ∧ fsRecordFromBytes value = some record

theorem recordAt_iff {fs : Table Bytes Bytes} {key : Bytes} {record : FsRecordValue} :
    RecordAt fs key record ↔ fs[key]?.bind fsRecordFromBytes = some record :=
  Option.bind_eq_some_iff.symm

theorem not_recordAt_empty {key : Bytes} {record : FsRecordValue} :
    ¬ RecordAt World.empty.db.fs key record := by
  rintro ⟨value, found, _⟩
  exact World.empty_entry key value found

theorem RecordAt.unique {fs : Table Bytes Bytes} {key : Bytes} {first second : FsRecordValue}
    (one : RecordAt fs key first) (other : RecordAt fs key second) : first = second := by
  obtain ⟨value, found, decoded⟩ := one
  obtain ⟨value', found', decoded'⟩ := other
  rw [found, Option.some_inj] at found'
  rw [← found', decoded, Option.some_inj] at decoded'
  exact decoded'

theorem recordAt_insert_iff {fs : Table Bytes Bytes} {key other rest : Bytes}
    {record found : FsRecordValue} :
    RecordAt (fs.insert key (record.bytesOf ++ rest)) other found ↔
      (other = key ∧ found = record) ∨ (other ≠ key ∧ RecordAt fs other found) := by
  by_cases same : other = key
  · subst same
    simp only [RecordAt, Table.get_insert_self, Option.some_inj, true_and, ne_eq, not_true,
      false_and, or_false]
    constructor
    · rintro ⟨_, rfl, decoded⟩
      rw [fsRecordFromBytes_append, Option.some_inj] at decoded
      exact decoded.symm
    · rintro rfl
      exact ⟨_, rfl, fsRecordFromBytes_append _ _⟩
  · simp only [RecordAt, Table.get_insert_ne _ _ same, same, false_and, false_or, ne_eq,
      not_false_eq_true, true_and]

theorem recordAt_erase_iff {fs : Table Bytes Bytes} {key other : Bytes} {found : FsRecordValue} :
    RecordAt (fs.erase key) other found ↔ other ≠ key ∧ RecordAt fs other found := by
  by_cases same : other = key
  · subst same
    simp [RecordAt]
  · simp only [RecordAt, Table.get_erase_ne _ same, ne_eq, same, not_false_eq_true, true_and]

theorem RecordAt.not_free {fs : Table Bytes Bytes} {key : Bytes} {record : FsRecordValue}
    (there : RecordAt fs key record) : fs[key]? ≠ none := by
  obtain ⟨value, found, _⟩ := there
  rw [found]
  exact Option.some_ne_none value

/-- An entry at a key that was free is the one that was added. -/
theorem recordAt_added {fs : Table Bytes Bytes} {key added rest : Bytes}
    {record new : FsRecordValue} (free : fs[key]? = none)
    (there : RecordAt (fs.insert added (new.bytesOf ++ rest)) key record) : record = new := by
  rcases recordAt_insert_iff.mp there with ⟨_, same⟩ | ⟨_, before⟩
  · exact same
  · exact absurd free before.not_free

/-! ## What a step of a walk says about the table -/

/-- A folder under a key, as the walks decode it, with the parent id it stands for. -/
structure FolderAt (fs : Table Bytes Bytes) (key : Bytes) (inside : FileSystemId) : Prop where
  intro ::
  found : ∃ value record, fs[key]? = some value ∧ fsRecordFromBytes value = some record ∧
    record.type = objTypeFolder ∧ inside = parentIdOfValue value

/-- **A step succeeds exactly when there is a folder under the key it looks up.** -/
theorem walkStep_eq_ok_iff {spell : Name → Name} {notFolder : String} {fs : Table Bytes Bytes}
    {parentId inside : FileSystemId} {component : Name} :
    walkStep spell notFolder fs parentId component = .ok inside ↔
      FolderAt fs (entryKey parentId (spell component)) inside := by
  constructor
  · intro ok
    rw [walkStep] at ok
    cases found : fs[entryKey parentId (spell component)]? with
    | none => rw [found] at ok; cases ok
    | some value =>
        rw [found] at ok
        cases decoded : fsRecordFromBytes value with
        | none => simp only [decoded] at ok; cases ok
        | some record =>
            simp only [decoded] at ok
            split at ok
            · cases ok
            · rename_i folder
              cases ok
              exact ⟨value, record, found, decoded, not_not.mp folder, rfl⟩
  · rintro ⟨value, record, found, decoded, folder, rfl⟩
    simp [walkStep, found, decoded, folder]

theorem FolderAt.unique {fs : Table Bytes Bytes} {key : Bytes} {first second : FileSystemId}
    (one : FolderAt fs key first) (other : FolderAt fs key second) : first = second := by
  obtain ⟨value, _, found, _, _, rfl⟩ := one
  obtain ⟨value', _, found', _, _, rfl⟩ := other
  rw [found, Option.some_inj] at found'
  rw [found']

/-- **A folder stands for the id of its record.** -/
theorem folderAt_iff {fs : Table Bytes Bytes} {key : Bytes} {inside : FileSystemId} :
    FolderAt fs key inside ↔ ∃ record, RecordAt fs key record ∧ record.type = objTypeFolder ∧
      inside = parentIdOfRecord record.id := by
  constructor
  · rintro ⟨value, record, found, decoded, folder, rfl⟩
    exact ⟨record, ⟨value, found, decoded⟩, folder, parentIdOfValue_eq decoded⟩
  · rintro ⟨record, ⟨value, found, decoded⟩, folder, rfl⟩
    exact ⟨value, record, found, decoded, folder, (parentIdOfValue_eq decoded).symm⟩

theorem folderAt_erase_iff {fs : Table Bytes Bytes} {key other : Bytes} {inside : FileSystemId} :
    FolderAt (fs.erase key) other inside ↔ other ≠ key ∧ FolderAt fs other inside := by
  simp only [folderAt_iff, recordAt_erase_iff, and_assoc, exists_and_left]

/-- The errors of a walk. -/
def walkErrors (notFolder : String) : List Status :=
  [.invalidArgument "no such parent path", .internal "corrupted fs record",
    .invalidArgument notFolder]

theorem walkStep_error {spell : Name → Name} {notFolder : String} {fs : Table Bytes Bytes}
    {parentId : FileSystemId} {component : Name} {err : Status}
    (failed : walkStep spell notFolder fs parentId component = .error err) :
    err ∈ walkErrors notFolder := by
  rw [walkStep] at failed
  split at failed
  · cases failed
    simp [walkErrors]
  · split at failed
    · cases failed
      simp [walkErrors]
    · split at failed
      · cases failed
        simp [walkErrors]
      · cases failed

theorem walkFolders_error {spell : Name → Name} {notFolder : String} {fs : Table Bytes Bytes}
    {path : List Name} {err : Status}
    (failed : walkFolders spell notFolder fs path = .error err) : err ∈ walkErrors notFolder := by
  rw [walkFolders] at failed
  generalize rootFsid = start at failed
  induction path generalizing start with
  | nil => cases failed
  | cons component rest ih =>
      rw [List.foldlM_cons] at failed
      cases stepped : walkStep spell notFolder fs start component with
      | ok inside =>
          rw [stepped] at failed
          exact ih inside failed
      | error stepErr =>
          rw [stepped] at failed
          cases failed
          exact walkStep_error stepped

/-- From a folder one may enter the folder that stands under a spelled name. -/
def Enters (fs : Table Bytes Bytes) (parentId : FileSystemId) (spelled : Name)
    (inside : FileSystemId) : Prop :=
  FolderAt fs (entryKey parentId spelled) inside

/-- Spelled names lead from the root to a folder. -/
abbrev LeadsTo (fs : Table Bytes Bytes) (spelled : List Name) (inside : FileSystemId) : Prop :=
  Descends (Enters fs) rootFsid spelled inside

/-- **A walk succeeds exactly when its spelled components lead from the root to a folder.** -/
theorem walkFolders_eq_ok_iff {spell : Name → Name} {notFolder : String} {fs : Table Bytes Bytes}
    {path : List Name} {inside : FileSystemId} :
    walkFolders spell notFolder fs path = .ok inside ↔ LeadsTo fs (path.map spell) inside :=
  foldlM_eq_ok_iff fun _ _ _ => walkStep_eq_ok_iff

theorem descendPath_concat (normalization : Normalization) (fs : Table Bytes Bytes)
    (front : List Name) (component : Name) :
    descendPath normalization fs (front ++ [component]) =
      (descendPath normalization fs front >>= fun parentId =>
        walkStep normalization.nfkd "path contained a non-folder" fs parentId component) := by
  simp only [descendPath, walkFolders, List.foldlM_append, List.foldlM_cons, List.foldlM_nil,
    bind_pure]

theorem enters_deterministic (fs : Table Bytes Bytes) : Deterministic (Enters fs) :=
  fun _ _ _ _ one other => FolderAt.unique one other

theorem LeadsTo.unique {fs : Table Bytes Bytes} {path : List Name} {first second : FileSystemId}
    (one : LeadsTo fs path first) (other : LeadsTo fs path second) : first = second :=
  Descends.unique (enters_deterministic fs) one other

/-- **A path still leads to its folder after an insertion under a free key.** -/
theorem LeadsTo.insert {fs : Table Bytes Bytes} {path : List Name} {inside : FileSystemId}
    (leads : LeadsTo fs path inside) {key : Bytes} (free : fs[key]? = none) (value : Bytes) :
    LeadsTo (fs.insert key value) path inside := by
  refine leads.mono fun node label inner entered => ?_
  obtain ⟨folder, record, found, rest⟩ := entered
  have other : entryKey node label ≠ key := by
    rintro rfl
    rw [free] at found
    cases found
  exact ⟨folder, record, (Table.get_insert_ne fs value other).trans found, rest⟩

/-! ## The key of a path -/

/-- The key that `append`, `download`, `delete`, `move` and `copy` look up for a path: descend to
the parent, then make the key of the last component. -/
def keyOfPath (normalization : Normalization) (fs : Table Bytes Bytes) (path : List Name) :
    Option Bytes :=
  match path.getLast?, descendPath normalization fs path.dropLast with
  | some lastName, .ok parentId => some (makeKey normalization parentId lastName)
  | _, _ => none

theorem keyOfPath_eq_some_iff {normalization : Normalization} {fs : Table Bytes Bytes}
    {path : List Name} {key : Bytes} :
    keyOfPath normalization fs path = some key ↔
      ∃ lastName parentId, path.getLast? = some lastName ∧
        descendPath normalization fs path.dropLast = .ok parentId ∧
        key = makeKey normalization parentId lastName := by
  rw [keyOfPath]
  constructor
  · intro resolved
    split at resolved
    · rename_i lastName parentId named walked
      exact ⟨lastName, parentId, named, walked, (Option.some.inj resolved).symm⟩
    · cases resolved
  · rintro ⟨lastName, parentId, named, walked, rfl⟩
    rw [named, walked]

theorem keyOfPath_of_walk {normalization : Normalization} {fs : Table Bytes Bytes}
    {path : List Name} {lastName : Name} {parentId : FileSystemId}
    (named : path.getLast? = some lastName)
    (walked : descendPath normalization fs path.dropLast = .ok parentId) :
    keyOfPath normalization fs path = some (makeKey normalization parentId lastName) :=
  keyOfPath_eq_some_iff.mpr ⟨lastName, parentId, named, walked, rfl⟩

/-- A path resolves to the record of a file with versions. -/
structure FileAt (normalization : Normalization) (fs : Table Bytes Bytes) (path : List Name)
    (key : Bytes) (record : FsRecordValue) : Prop where
  resolved : keyOfPath normalization fs path = some key
  there : RecordAt fs key record
  versioned : record.type = objTypeVersionBlob

end Yeetbox.Storage
