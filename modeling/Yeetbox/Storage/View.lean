import Yeetbox.Storage.Drive
import Yeetbox.Storage.Kinds
import Yeetbox.Storage.Owners
import Yeetbox.Storage.Representation
import Yeetbox.Storage.Tokens

/-!
# A server read as a drive

The entries, rows and blobs of a server are read as the entries, files and unfinished uploads of a
drive (`Server.drive`). A server can be read when its tables are represented as they should be,
every record is that of a first version, and files and rows belong together (`Legible`). Then every
walk of the server goes as the walk of the drive (`Legible.walk_iff`), and inserting, removing or
changing one key, row or blob of the server changes one entry, file or upload of the drive.
-/

set_option autoImplicit false

namespace Yeetbox.Storage

open Library

/-! ## The reading -/

def Place.key (place : Place) : Bytes := entryKey place.folder place.name

theorem Place.key_injective : Function.Injective Place.key := by
  intro first second same
  obtain ⟨folder, name⟩ := entryKey_inj same
  cases first
  cases second
  cases folder
  cases name
  rfl

/-- What a record stands for. -/
def nodeOf (record : FsRecordValue) : Node :=
  if record.type = objTypeFolder then .folder (parentIdOfRecord record.id)
  else if record.type = objTypeVersionBlob then .file record.id
  else .copied

theorem nodeOf_eq_folder_iff {record : FsRecordValue} {inside : FileSystemId} :
    nodeOf record = .folder inside ↔
      record.type = objTypeFolder ∧ parentIdOfRecord record.id = inside := by
  rw [nodeOf]
  split
  · rename_i type
    rw [Node.folder.injEq]
    exact (and_iff_right type).symm
  · rename_i other
    split
    · exact ⟨fun same => (Node.noConfusion same), fun folder => absurd folder.1 other⟩
    · exact ⟨fun same => (Node.noConfusion same), fun folder => absurd folder.1 other⟩

theorem nodeOf_eq_file_iff {record : FsRecordValue} {id : FileSystemId} :
    nodeOf record = .file id ↔ record.type = objTypeVersionBlob ∧ record.id = id := by
  rw [nodeOf]
  split
  · rename_i type
    rw [type]
    exact ⟨fun same => (Node.noConfusion same), fun file => absurd file.1 (by decide)⟩
  · split
    · rename_i type
      rw [Node.file.injEq]
      exact (and_iff_right type).symm
    · rename_i other
      exact ⟨fun same => (Node.noConfusion same), fun file => absurd file.1 other⟩

/-- The entry in a value of `FS_TABLE`. -/
def entryOf (value : Bytes) : Option Entry := do
  let record ← fsRecordFromBytes value
  let shown ← ofUtf8 (value.drop fsRecordSize)
  pure ⟨shown, nodeOf record⟩

/-- The recorded length, when it is known. -/
def recordedOf (length : UInt64) : Option ℕ :=
  if length = unknownSize then none else some length.toNat

/-- The file of a row. -/
def fileOf (blobs : Table Bytes Bytes) (row : Bytes) : Option File :=
  (versionValueFromBytes row).map fun version =>
    ⟨recordedOf version.length, blobs[inBlobs (row.drop versionValueSize)]?⟩

def entriesOf (fs : Table Bytes Bytes) (place : Place) : Option Entry :=
  fs[place.key]?.bind entryOf

def filesOf (ver blobs : Table Bytes Bytes) (id : FileSystemId) : Option File :=
  ver[rowKey id 1]?.bind (fileOf blobs)

def pendingOf (issued : List Bytes) (blobs : Table Bytes Bytes) (ulid : Ulid) : Option Bytes :=
  if ulid.toBytes ∈ issued then blobs[blobPath ulid]? else none

/-- **A server read as a drive.** -/
def Server.drive (server : Server) : Drive where
  entry := entriesOf server.world.db.fs
  file := filesOf server.world.db.ver server.world.blobs
  pending := pendingOf server.issued server.world.blobs
  last := server.world.db.lastId fsTableName

theorem Server.drive_entry (server : Server) (place : Place) :
    server.drive.entry place = entriesOf server.world.db.fs place := rfl

/-- What a client is told by a result. -/
def replyOf : Except Status Response → Reply
  | .error _ => .refused
  | .ok (.uploaded result) =>
      if result.continuation = [] then .done else .continues result.continuation
  | .ok (.downloaded result) => .page result
  | .ok (.listed result) => .listing { shown | shown ∈ result.entries.map ListEntry.relativeName }
  | .ok _ => .done

theorem Server.drive_empty : Server.empty.drive = .empty := by
  have pending : pendingOf Server.empty.issued Server.empty.world.blobs = fun _ => none := by
    funext ulid
    exact if_neg List.not_mem_nil
  have entry : entriesOf Server.empty.world.db.fs = fun _ => none := by
    funext place
    have missing := Option.eq_none_iff_forall_ne_some.mpr (World.empty_entry place.key)
    exact (congrArg (Option.bind · entryOf) missing).trans rfl
  have file : filesOf Server.empty.world.db.ver Server.empty.world.blobs = fun _ => none := by
    funext id
    have missing := Option.eq_none_iff_forall_ne_some.mpr (World.empty_row (rowKey id 1))
    exact (congrArg (Option.bind · (fileOf _)) missing).trans rfl
  rw [Server.drive, entry, file, pending]
  rfl

/-! ## Entries -/

@[simp] theorem entryOf_append (record : FsRecordValue) (shown : Name) :
    entryOf (record.bytesOf ++ utf8 shown) = some ⟨shown, nodeOf record⟩ := by
  rw [entryOf, fsRecordFromBytes_append, drop_fsRecord_append, ofUtf8_utf8]
  rfl

/-- **An inserted record is a new entry.** -/
theorem entriesOf_insert (fs : Table Bytes Bytes) (place : Place) (record : FsRecordValue)
    (shown : Name) : entriesOf (fs.insert place.key (record.bytesOf ++ utf8 shown)) =
      Function.update (entriesOf fs) place (some ⟨shown, nodeOf record⟩) := by
  funext other
  by_cases same : other = place
  · rw [same, Function.update_self, entriesOf, Table.get_insert_self, Option.bind_some,
      entryOf_append]
  · rw [Function.update_of_ne same, entriesOf, entriesOf,
      Table.get_insert_ne _ _ (Place.key_injective.ne same)]

/-- **A removed key is an entry less.** -/
theorem entriesOf_erase (fs : Table Bytes Bytes) (place : Place) :
    entriesOf (fs.erase place.key) = Function.update (entriesOf fs) place none := by
  funext other
  by_cases same : other = place
  · rw [same, Function.update_self, entriesOf, Table.get_erase_self]
    rfl
  · rw [Function.update_of_ne same, entriesOf, entriesOf,
      Table.get_erase_ne _ (Place.key_injective.ne same)]

theorem entriesOf_movedTo (fs : Table Bytes Bytes) (source destination : Place)
    (record : FsRecordValue) (shown : Name) :
    entriesOf (movedTo fs source.key destination.key record shown) =
      Function.update (Function.update (entriesOf fs) source none) destination
        (some ⟨shown, nodeOf record⟩) := by
  rw [movedTo, entriesOf_insert, entriesOf_erase]

/-! ## Files -/

@[simp] theorem fileOf_append (blobs : Table Bytes Bytes) (version : VersionRecordValue)
    (ulid : Ulid) : fileOf blobs (version.bytesOf ++ blobPath ulid) =
      some ⟨recordedOf version.length, blobs[blobPath ulid]?⟩ := by
  rw [fileOf, versionValueFromBytes_append, drop_versionValue_append, inBlobs_blobPath]
  rfl

theorem recordedOf_ofNat {length : ℕ} (bound : length ≤ maxVecLen) :
    recordedOf (.ofNat length) = some length := by
  have fits : maxVecLen < 2 ^ 64 - 1 := by decide
  have number : (UInt64.ofNat length).toNat = length := by
    rw [UInt64.toNat_ofNat', Nat.mod_eq_of_lt (by omega)]
  have known : UInt64.ofNat length ≠ unknownSize := by
    intro same
    rw [same] at number
    have unknown : unknownSize.toNat = 2 ^ 64 - 1 := by decide
    omega
  rw [recordedOf, if_neg known, number]

/-- Files are the same when the blobs of their rows are. -/
theorem filesOf_congr {ver blobs later : Table Bytes Bytes}
    (same : ∀ (id : FileSystemId) (row : Bytes), ver[rowKey id 1]? = some row →
      later[inBlobs (row.drop versionValueSize)]? = blobs[inBlobs (row.drop versionValueSize)]?) :
    filesOf ver later = filesOf ver blobs := by
  funext id
  rw [filesOf, filesOf]
  rcases found : ver[rowKey id 1]? with _ | row
  · rfl
  · rw [Option.bind_some, Option.bind_some, fileOf, fileOf, same id row found]

/-- **An inserted row is a new file.** -/
theorem filesOf_insert (ver blobs : Table Bytes Bytes) (id : FileSystemId) (row : Bytes) :
    filesOf (ver.insert (rowKey id 1) row) blobs =
      Function.update (filesOf ver blobs) id (fileOf blobs row) := by
  funext other
  by_cases same : other = id
  · rw [same, Function.update_self, filesOf, Table.get_insert_self, Option.bind_some]
  · have different : rowKey other 1 ≠ rowKey id 1 := fun keys => same (rowKey_inj keys).1
    rw [Function.update_of_ne same, filesOf, filesOf, Table.get_insert_ne _ _ different]

/-- **Changing the blob of one row changes its file.** -/
theorem filesOf_changed {ver blobs later : Table Bytes Bytes} {id : FileSystemId} {row : Bytes}
    (found : ver[rowKey id 1]? = some row)
    (others : ∀ (other : FileSystemId) (row' : Bytes), other ≠ id →
      ver[rowKey other 1]? = some row' →
      later[inBlobs (row'.drop versionValueSize)]? =
        blobs[inBlobs (row'.drop versionValueSize)]?) :
    filesOf ver later = Function.update (filesOf ver blobs) id (fileOf later row) := by
  funext other
  by_cases same : other = id
  · rw [same, Function.update_self, filesOf, found, Option.bind_some]
  · rw [Function.update_of_ne same, filesOf, filesOf]
    rcases there : ver[rowKey other 1]? with _ | row'
    · rfl
    · rw [Option.bind_some, Option.bind_some, fileOf, fileOf, others other row' same there]

/-! ## Uploads -/

/-- Uploads are the same when the blobs of their tokens are. -/
theorem pendingOf_congr {issued : List Bytes} {blobs later : Table Bytes Bytes}
    (same : ∀ ulid : Ulid, ulid.toBytes ∈ issued →
      later[blobPath ulid]? = blobs[blobPath ulid]?) :
    pendingOf issued later = pendingOf issued blobs := by
  funext ulid
  rw [pendingOf, pendingOf]
  split
  · rename_i issue
    exact same ulid issue
  · rfl

/-- **Changing the blob of one token changes its upload.** -/
theorem pendingOf_changed {issued later : List Bytes} {blobs after : Table Bytes Bytes}
    {ulid : Ulid} (out : ulid.toBytes ∈ later)
    (tokens : ∀ other : Ulid, other ≠ ulid → (other.toBytes ∈ later ↔ other.toBytes ∈ issued))
    (others : ∀ other : Ulid, other ≠ ulid → other.toBytes ∈ issued →
      after[blobPath other]? = blobs[blobPath other]?) :
    pendingOf later after =
      Function.update (pendingOf issued blobs) ulid after[blobPath ulid]? := by
  funext other
  by_cases same : other = ulid
  · rw [same, Function.update_self, pendingOf, if_pos out]
  · rw [Function.update_of_ne same, pendingOf, pendingOf]
    by_cases issue : other.toBytes ∈ issued
    · rw [if_pos ((tokens other same).mpr issue), if_pos issue, others other same issue]
    · rw [if_neg (issue ∘ (tokens other same).mp), if_neg issue]

/-! ## Servers that can be read -/

/-- Tables are represented as they should be, every record is that of a first version, every file
has its row and every row its file, and the row names a blob of its own. -/
structure Legible (env : Env) (horizon : ℕ) (server : Server) : Prop
    extends ServerSound env horizon server where
  entries : ∀ key value : Bytes, server.world.db.fs[key]? = some value →
    EntryForm env.toNormalization key value
  first : ∀ {key record}, RecordAt server.world.db.fs key record → record.latestVersion = 1
  kinds : ∀ {key record}, RecordAt server.world.db.fs key record →
    record.type = objTypeFolder ∨ FileKind env record
  named : BlobsNamed server.world
  versions : FirstVersions server.world.db
  owned : Owned server.world.db
  rowed : ∀ {key record}, RecordAt server.world.db.fs key record →
    record.type = objTypeVersionBlob → ∃ row, server.world.db.ver[rowKey record.id 1]? = some row
  ids : ∀ {key record}, RecordAt server.world.db.fs key record →
    record.id.toNat ≤ server.allocated

variable {env : Env} {horizon : ℕ} {server : Server}

theorem Legible.empty (env : Env) (horizon : ℕ) : Legible env horizon .empty where
  toServerSound := .empty horizon
  entries key value found := absurd found (World.empty_entry key value)
  first there := absurd there not_recordAt_empty
  kinds there := absurd there not_recordAt_empty
  named path content found := absurd found (World.empty_blob path content)
  versions := .empty
  owned := .empty
  rowed there := absurd there not_recordAt_empty
  ids there := absurd there not_recordAt_empty

/-- Every record that a request adds is that of a first version. -/
theorem Commits.first_kept {req : Request} {later : Server}
    (commits : Commits env server req later)
    (first : ∀ {key record}, RecordAt server.world.db.fs key record → record.latestVersion = 1)
    {key : Bytes} {record : FsRecordValue} (there : RecordAt later.world.db.fs key record) :
    record.latestVersion = 1 := by
  have inserted : ∀ {fs : Table Bytes Bytes} {added rest : Bytes} {new : FsRecordValue},
      new.latestVersion = 1 →
      (∀ {key record}, RecordAt fs key record → record.latestVersion = 1) →
      RecordAt (fs.insert added (new.bytesOf ++ rest)) key record → record.latestVersion = 1 := by
    intro fs added rest new isFirst before there
    rcases recordAt_insert_iff.mp there with ⟨_, rfl⟩ | ⟨_, earlier⟩
    · exact isFirst
    · exact before earlier
  have erased : ∀ {gone other : Bytes} {record : FsRecordValue},
      RecordAt (server.world.db.fs.erase gone) other record → record.latestVersion = 1 :=
    fun there => first (recordAt_erase_iff.mp there).2
  cases commits with
  | nothing db => exact first (db ▸ there)
  | folder arg parentId lastName asked creates free counted db =>
      rw [db] at there
      exact inserted rfl first there
  | file parentId lastName record' version call free id type isFirst drawn before counted db =>
      rw [db] at there
      exact inserted isFirst first there
  | removed arg gone value other asked found decoded notFile db =>
      rw [db] at there
      exact erased there
  | moved arg source value other parentId name asked found decoded free db =>
      rw [db] at there
      exact inserted (first ⟨value, found, decoded⟩) erased there
  | copied parentId name call time free counted db =>
      rw [db] at there
      exact inserted rfl first there

/-- **Every file has its row.** -/
theorem Commits.rowed_kept {req : Request} {later : Server} (commits : Commits env server req later)
    (rowed : ∀ {key record}, RecordAt server.world.db.fs key record →
      record.type = objTypeVersionBlob → ∃ row, server.world.db.ver[rowKey record.id 1]? = some row)
    {key : Bytes} {record : FsRecordValue} (there : RecordAt later.world.db.fs key record)
    (versioned : record.type = objTypeVersionBlob) :
    ∃ row, later.world.db.ver[rowKey record.id 1]? = some row := by
  cases commits with
  | nothing db =>
      rw [db] at there ⊢
      exact rowed there versioned
  | folder arg parentId lastName asked creates free counted db =>
      rw [db] at there ⊢
      rcases recordAt_insert_iff.mp there with ⟨_, rfl⟩ | ⟨_, before⟩
      · exact absurd versioned (by decide : objTypeFolder ≠ objTypeVersionBlob)
      · exact rowed before versioned
  | file parentId lastName record' version call free id type isFirst drawn before counted db =>
      rw [db] at there ⊢
      by_cases same : rowKey record.id 1 = rowKey record'.id 1
      · rw [same]
        exact ⟨_, Table.get_insert_self _ _ _⟩
      · rcases recordAt_insert_iff.mp there with ⟨_, rfl⟩ | ⟨_, earlier⟩
        · exact absurd rfl same
        · obtain ⟨row, found⟩ := rowed earlier versioned
          exact ⟨row, (Table.get_insert_ne _ _ same).trans found⟩
  | removed arg gone value other asked found decoded notFile db =>
      rw [db] at there ⊢
      exact rowed (recordAt_erase_iff.mp there).2 versioned
  | moved arg source value other parentId name asked found decoded free db =>
      rw [db] at there ⊢
      rcases recordAt_insert_iff.mp there with ⟨_, rfl⟩ | ⟨_, before⟩
      · exact rowed ⟨value, found, decoded⟩ versioned
      · exact rowed (recordAt_erase_iff.mp before).2 versioned
  | copied parentId name call time free counted db =>
      rw [db] at there ⊢
      rcases recordAt_insert_iff.mp there with ⟨_, rfl⟩ | ⟨_, before⟩
      · exact absurd versioned (by decide : objTypeNormalBlob ≠ objTypeVersionBlob)
      · exact rowed before versioned

/-- **A permitted request leaves a server that can be read.** -/
theorem Legible.served (fresh : env.FreshBelow horizon) (legible : Legible env horizon server)
    {req : Request} (permitted : Permitted env horizon server req) :
    Legible env horizon (serve env server req) := by
  have commits : Commits env server req (serve env server req) := serve_commits server req
  refine ⟨legible.toServerSound.served fresh permitted, ?_, ?_, ?_, ?_, ?_, ?_, ?_, ?_⟩
  · intro key value found
    rcases commits.entry_cases found with before | ⟨parentId, name, record, same, content⟩
    · exact legible.entries key value before
    · exact ⟨parentId, record, name, same, content⟩
  · exact commits.first_kept legible.first
  · intro key record there
    rcases commits.record_cases there with ⟨before, earlier⟩ | ⟨kind, _⟩
    · exact legible.kinds earlier
    · exact kind
  · exact legible.named.served legible.blobs.rows req
  · exact commits.firstVersions legible.versions
  · exact commits.owned legible.owned legible.counted permitted.few
  · exact commits.rowed_kept legible.rowed
  · intro key record there
    have rises := allocated_le env server req
    rcases commits.record_cases there with ⟨before, was⟩ | ⟨_, next, counts⟩
    · exact (legible.ids was).trans rises
    · have counter := legible.counted.counter
      rw [next, (legible.counted.toNat_next (rises.trans_lt permitted.few)).2, counts]
      omega

/-- What a request can find at its target. -/
inductive TargetCases (env : Env) (server : Server) (target : RequestedFileId) :
    Option (Place × Entry) → Prop where
  | missing (nothing : ∀ key record,
      keyOfPath env.toNormalization server.world.db.fs target.path = some key →
        ¬ RecordAt server.world.db.fs key record) : TargetCases env server target none
  | outdated (key : Bytes) (record : FsRecordValue)
      (resolved : keyOfPath env.toNormalization server.world.db.fs target.path = some key)
      (there : RecordAt server.world.db.fs key record)
      (other : target.versionIsNot record.latestVersion = true) : TargetCases env server target none
  | found (place : Place) (record : FsRecordValue) (shown : Name)
      (resolved : keyOfPath env.toNormalization server.world.db.fs target.path = some place.key)
      (value : server.world.db.fs[place.key]? = some (record.bytesOf ++ utf8 shown))
      (current : target.versionIsNot record.latestVersion = false) :
      TargetCases env server target (some (place, ⟨shown, nodeOf record⟩))

namespace Legible

variable (legible : Legible env horizon server)
include legible

/-! ## Walks -/

/-- **An entry of the drive is a record with a name.** -/
theorem entry_iff {place : Place} {entry : Entry} : server.drive.entry place = some entry ↔
    ∃ record : FsRecordValue, server.world.db.fs[place.key]? =
      some (record.bytesOf ++ utf8 entry.shown) ∧ nodeOf record = entry.node := by
  rw [Server.drive_entry, entriesOf]
  constructor
  · intro found
    obtain ⟨value, there, read⟩ := Option.bind_eq_some_iff.mp found
    obtain ⟨_, record, name, _, rfl⟩ := legible.entries _ _ there
    rw [entryOf_append, Option.some_inj] at read
    subst read
    exact ⟨record, there, rfl⟩
  · rintro ⟨record, there, node⟩
    rw [there, Option.bind_some, entryOf_append, node]

/-- A place is free when there is no value under its key. -/
theorem entry_none_iff {place : Place} :
    server.drive.entry place = none ↔ server.world.db.fs[place.key]? = none := by
  rw [Server.drive_entry, entriesOf]
  rcases there : server.world.db.fs[place.key]? with _ | value
  · simp
  · obtain ⟨_, record, name, _, rfl⟩ := legible.entries _ _ there
    simp

omit legible in
/-- The record of an entry. -/
theorem recordAt {place : Place} {record : FsRecordValue} {shown : Name}
    (found : server.world.db.fs[place.key]? = some (record.bytesOf ++ utf8 shown)) :
    RecordAt server.world.db.fs place.key record :=
  ⟨_, found, fsRecordFromBytes_append _ _⟩

/-- **The folder under a key is entered on the drive too.** -/
theorem enter_iff {folder inside : FileSystemId} {name : Name} :
    server.drive.enter folder name = some inside ↔
      Enters server.world.db.fs folder name inside := by
  rw [Drive.enter, Option.bind_eq_some_iff, Enters, folderAt_iff]
  constructor
  · rintro ⟨entry, found, enters⟩
    obtain ⟨record, there, node⟩ := legible.entry_iff.mp found
    obtain ⟨type, id⟩ := nodeOf_eq_folder_iff.mp (node.trans (Entry.inside_eq_some_iff.mp enters))
    exact ⟨record, ⟨_, there, fsRecordFromBytes_append _ _⟩, type, id.symm⟩
  · rintro ⟨record, ⟨value, there, decoded⟩, type, id⟩
    obtain ⟨_, other, shown, _, rfl⟩ := legible.entries _ _ there
    rw [fsRecordFromBytes_append, Option.some_inj] at decoded
    rw [decoded] at there
    refine ⟨⟨shown, nodeOf record⟩, legible.entry_iff.mpr ⟨record, there, rfl⟩, ?_⟩
    exact Entry.inside_eq_some_iff.mpr (nodeOf_eq_folder_iff.mpr ⟨type, id.symm⟩)

/-- **Every walk of the server goes as the walk of the drive.** -/
theorem walk_iff {spell : Name → Name} {notFolder : String} {path : List Name}
    {inside : FileSystemId} :
    walkFolders spell notFolder server.world.db.fs path = .ok inside ↔
      server.drive.walk (path.map spell) = some inside := by
  rw [walkFolders_eq_ok_iff, Drive.walk, LeadsTo]
  exact (foldlM_eq_some_iff fun _ _ _ => legible.enter_iff).symm

theorem walk_error {spell : Name → Name} {notFolder : String} {path : List Name}
    (nowhere : server.drive.walk (path.map spell) = none) :
    ∃ err, walkFolders spell notFolder server.world.db.fs path = .error err := by
  rcases walked : walkFolders spell notFolder server.world.db.fs path with err | inside
  · exact ⟨err, rfl⟩
  · rw [legible.walk_iff.mp walked] at nowhere
    cases nowhere

/-! ## Places -/

/-- **The key of a path is that of its place.** -/
theorem keyOfPath_eq (path : List Name) :
    keyOfPath env.toNormalization server.world.db.fs path =
      (server.drive.place env.toNormalization path).map Place.key := by
  rw [keyOfPath, Drive.place]
  rcases path.getLast? with _ | name
  · rfl
  · rcases walked : descendPath env.toNormalization server.world.db.fs path.dropLast with
      err | folder
    · rcases arrives : server.drive.walk (path.dropLast.map env.nfkd) with _ | folder
      · rfl
      · rw [descendPath, legible.walk_iff.mpr arrives] at walked
        cases walked
    · dsimp only [Option.bind_eq_bind, Option.bind_some]
      rw [legible.walk_iff.mp walked]
      rfl

theorem keyOfPath_some {path : List Name} {place : Place}
    (placed : server.drive.place env.toNormalization path = some place) :
    keyOfPath env.toNormalization server.world.db.fs path = some place.key := by
  rw [legible.keyOfPath_eq, placed]
  rfl

/-- **The place of a new entry is one under whose key there is nothing.** -/
theorem newPlace_iff {path : List Name} {place : Place} {shown : Name} :
    server.drive.newPlace env.toNormalization path = some (place, shown) ↔
      ∃ lastName parentId, path.getLast? = some lastName ∧
        uploadWalk server.world.db.fs path.dropLast = .ok parentId ∧
        server.world.db.fs[uploadKey env.toNormalization parentId lastName]? = none ∧
        place = ⟨parentId, env.nfkd (trim lastName)⟩ ∧ shown = trim lastName := by
  have spelled : path.dropLast = path.dropLast.map id := (List.map_id _).symm
  have free : ∀ parentId lastName, server.drive.entry ⟨parentId, env.nfkd (trim lastName)⟩ = none ↔
      server.world.db.fs[uploadKey env.toNormalization parentId lastName]? = none :=
    fun _ _ => legible.entry_none_iff
  rw [Drive.newPlace]
  simp only [Option.bind_eq_bind, Option.bind_eq_some_iff]
  constructor
  · rintro ⟨lastName, named, parentId, arrives, placed⟩
    split at placed
    · rename_i empty
      cases placed
      rw [spelled] at arrives
      exact ⟨lastName, parentId, named, legible.walk_iff.mpr arrives, (free _ _).mp empty, rfl, rfl⟩
    · cases placed
  · rintro ⟨lastName, parentId, named, walked, empty, rfl, rfl⟩
    refine ⟨lastName, named, parentId, ?_, ?_⟩
    · rw [spelled]
      exact legible.walk_iff.mp walked
    · rw [if_pos ((free _ _).mpr empty)]
      rfl

/-- **The target of a request is a record of the requested version.** -/
theorem target_iff {target : RequestedFileId} {place : Place} {entry : Entry} :
    server.drive.target env.toNormalization target = some (place, entry) ↔
      server.drive.place env.toNormalization target.path = some place ∧
        ∃ record : FsRecordValue, server.world.db.fs[place.key]? =
          some (record.bytesOf ++ utf8 entry.shown) ∧ nodeOf record = entry.node ∧
          target.versionIsNot record.latestVersion = false := by
  have version : ∀ {record : FsRecordValue}, record.latestVersion = 1 →
      (target.isFirst = true ↔ target.versionIsNot record.latestVersion = false) := by
    intro record first
    rw [first, RequestedFileId.isFirst, RequestedFileId.versionIsNot]
    rcases target.version with _ | version
    · simp
    · simp
  rw [Drive.target]
  simp only [Option.bind_eq_bind, Option.bind_eq_some_iff]
  constructor
  · rintro ⟨placed, place', entry', found, same⟩
    split at same
    · rename_i isFirst
      cases same
      obtain ⟨record, there, node⟩ := legible.entry_iff.mp found
      have first := legible.first (recordAt there)
      exact ⟨place', record, there, node, (version first).mp isFirst⟩
    · cases same
  · rintro ⟨placed, record, there, node, current⟩
    refine ⟨place, placed, entry, legible.entry_iff.mpr ⟨record, there, node⟩, ?_⟩
    have first := legible.first (recordAt there)
    rw [if_pos ((version first).mpr current)]
    rfl

/-- **A target is found on the server as on the drive.** -/
theorem target_cases (target : RequestedFileId) :
    TargetCases env server target (server.drive.target env.toNormalization target) := by
  rcases asked : server.drive.target env.toNormalization target with _ | ⟨place, entry⟩
  · rcases placed : server.drive.place env.toNormalization target.path with _ | place
    · refine .missing fun key record resolved _ => ?_
      rw [legible.keyOfPath_eq, placed] at resolved
      cases resolved
    have resolved := legible.keyOfPath_some placed
    rcases there : server.drive.entry place with _ | entry
    · refine .missing fun key record resolved' there' => ?_
      cases resolved.symm.trans resolved'
      exact there'.not_free (legible.entry_none_iff.mp there)
    obtain ⟨record, found, node⟩ := legible.entry_iff.mp there
    refine .outdated place.key record resolved (recordAt found) ?_
    rw [← Bool.not_eq_false]
    intro current
    have given := legible.target_iff.mpr ⟨placed, record, found, node, current⟩
    rw [asked] at given
    cases given
  · obtain ⟨placed, record, found, node, current⟩ := legible.target_iff.mp asked
    have same : entry = ⟨entry.shown, nodeOf record⟩ := by rw [node]
    rw [same]
    exact .found place record entry.shown (legible.keyOfPath_some placed) found current

/-! ## Files -/

/-- **The file of a record is that of its row.** -/
theorem file_of_record {key : Bytes} {record : FsRecordValue}
    (there : RecordAt server.world.db.fs key record)
    (versioned : record.type = objTypeVersionBlob) :
    ∃ version call, server.world.db.ver[rowKey record.id 1]? =
        some (VersionRecordValue.bytesOf version ++ blobPath (env.newUlid call)) ∧
      server.drive.file record.id = some ⟨recordedOf version.length,
        server.world.blobs[blobPath (env.newUlid call)]?⟩ := by
  obtain ⟨row, found⟩ := legible.rowed there versioned
  obtain ⟨_, version, call, _, _, rfl⟩ := legible.blobs.rows _ row found
  refine ⟨version, call, found, ?_⟩
  have file : server.drive.file record.id =
      server.world.db.ver[rowKey record.id 1]?.bind (fileOf server.world.blobs) := rfl
  rw [file, found, Option.bind_some, fileOf_append]

/-- A copy has no row. -/
theorem no_row_of_copy {key : Bytes} {record : FsRecordValue}
    (there : RecordAt server.world.db.fs key record) (notFolder : NotFolder record)
    (other : record.type ≠ objTypeVersionBlob) (version : FsVersion) :
    server.world.db.ver[rowKey record.id version]? = none := by
  rw [Option.eq_none_iff_forall_ne_some]
  intro row found
  obtain ⟨entry, owner, owns, versioned, _, same⟩ := legible.owned.rows _ row found
  have isNotFolder : NotFolder owner := by
    rw [NotFolder, versioned]
    decide
  have keys := legible.counted.ids.unique there owns notFolder isNotFolder (rowKey_inj same).1
  rw [← keys] at owns
  exact other (there.unique owns ▸ versioned)

end Legible

end Yeetbox.Storage
