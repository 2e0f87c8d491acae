import Yeetbox.Library.Leaves
import Yeetbox.Storage.Service

/-!
# Requests that change nothing

A request is idle in a world when it leaves the tables and the blobs there as they are. Each kind of
request has its condition on the world before: the checks of the handler do not all pass, or what it
would write is there already. `handle_idle_iff` shows that the conditions are exact.
-/

set_option autoImplicit false

namespace Yeetbox.Storage

open Library Handler

variable (env : Env)

/-- The tables and the blobs. -/
structure Stores where
  db : Db := {}
  blobs : Table Bytes Bytes := ∅

/-- The tables and the blobs of a world. -/
def World.stores (world : World) : Stores := ⟨world.db, world.blobs⟩

/-! ## The conditions -/

/-- An upload passes the checks that it makes before it writes. -/
structure Receives (world : World) (req : UploadArg) (target : FileId) (lastName : Name)
    (ulid : Ulid) : Prop where
  targeted : req.target = some target
  named : target.path.getLast? = some lastName
  token : ∃ drawn, UploadToken env world req ulid drawn

/-- An upload that is received has no data, its blob is there, and its checks of the path do not
pass or are not made. -/
def UploadIdle (world : World) (req : UploadArg) : Prop :=
  ∀ target lastName ulid, Receives env world req target lastName ulid →
    req.data.bytes = [] ∧ (∃ content, world.blobs[blobPath ulid]? = some content) ∧
    (req.incomplete = false → ∀ parentId,
      uploadWalk world.db.fs target.path.dropLast = .ok parentId →
        world.db.fs[uploadKey env.toNormalization parentId lastName]? ≠ none)

/-- An append passes all its checks and finds a blob. -/
structure Appends (world : World) (req : AppendArg) (target : RequestedFileId) (fileKey : Bytes)
    (record : FsRecordValue) (row content : Bytes) : Prop where
  targeted : req.target = some target
  resolved : keyOfPath env.toNormalization world.db.fs target.path = some fileKey
  there : RecordAt world.db.fs fileKey record
  readable : isReadableObjType record.type = true
  current : target.versionIsNot record.latestVersion = false
  versioned : world.db.ver[rowKey record.id record.latestVersion]? = some row
  decoded : ∃ version, versionValueFromBytes row = some version
  text : (ofUtf8 (row.drop versionValueSize)).isNone = false
  opened : world.blobs[inBlobs (row.drop versionValueSize)]? = some content

/-- An append that passes its checks has no data. -/
def AppendIdle (world : World) (req : AppendArg) : Prop :=
  ∀ target fileKey record row content,
    Appends env world req target fileKey record row content → req.data.bytes = []

/-- A deletion passes its checks. -/
structure Deletes (world : World) (req : DeleteArg) (target : RequestedFileId) (fileKey : Bytes)
    (record : FsRecordValue) : Prop where
  targeted : req.target = some target
  resolved : keyOfPath env.toNormalization world.db.fs target.path = some fileKey
  there : RecordAt world.db.fs fileKey record
  current : target.versionIsNot record.latestVersion = false

/-- The row of a version, if there is one and it holds a path. -/
def namedRow (fileId : FileSystemId) (ver : Table Bytes Bytes) (version : FsVersion) :
    Option Bytes :=
  ver[rowKey fileId version]?.filter fun row => versionValueSize < row.length

/-- The first row with a path, from some version down. -/
def firstNamedRow (fileId : FileSystemId) (ver : Table Bytes Bytes) : ℕ → Option Bytes
  | 0 => namedRow fileId ver 0
  | earlier + 1 =>
      (namedRow fileId ver (.ofNat (earlier + 1))).or (firstNamedRow fileId ver earlier)

/-- A deletion that passes its checks is of a version blob, and no version has a row with a path, or
the blob of the first such row is not there. -/
def DeleteIdle (world : World) (req : DeleteArg) : Prop :=
  ∀ target fileKey record, Deletes env world req target fileKey record →
    record.type = objTypeVersionBlob ∧
    ∀ row, firstNamedRow record.id world.db.ver record.latestVersion.toNat = some row →
      (ofUtf8 (row.drop versionValueSize)).isNone = false →
        world.blobs[inBlobs (row.drop versionValueSize)]? = none

/-- A move passes all its checks. -/
structure Moves (world : World) (req : MoveArg) (target : RequestedFileId)
    (source destination value : Bytes) (record : FsRecordValue) (name : Name) : Prop where
  targeted : req.target = some target
  resolved : keyOfPath env.toNormalization world.db.fs target.path = some source
  named : req.destination.getLast? = some name
  arrives : keyOfPath env.toNormalization world.db.fs req.destination = some destination
  found : world.db.fs[source]? = some value
  decoded : fsRecordFromBytes value = some record
  current : target.versionIsNot record.latestVersion = false
  free : (world.db.fs.erase source)[destination]? = none

/-- A move that passes its checks is to the key and the name of its source. -/
def MoveIdle (world : World) (req : MoveArg) : Prop :=
  ∀ target source destination value record name,
    Moves env world req target source destination value record name →
      destination = source ∧ record.bytesOf ++ utf8 name = value

/-- A copy passes the checks that it makes before it writes. -/
structure Copies (world : World) (req : CopyArg) (target : RequestedFileId)
    (source destination : Bytes) (record : FsRecordValue) : Prop where
  targeted : req.target = some target
  resolved : keyOfPath env.toNormalization world.db.fs target.path = some source
  arrives : keyOfPath env.toNormalization world.db.fs req.destination = some destination
  there : RecordAt world.db.fs source record
  copyable : Copyable world record

/-- A copy that passes its first checks is to a key that is taken, and a blob that it copies is
already under the new ULID. -/
def CopyIdle (world : World) (req : CopyArg) : Prop :=
  ∀ target source destination record,
    Copies env world req target source destination record →
      world.db.fs[destination]? ≠ none ∧
      (record.type = objTypeNormalBlob ∨ record.type = objTypeAppendBlob ∨
          record.type = objTypeBlockBlob →
        world.blobs[blobPath (env.newUlid world.calls)]? =
          world.blobs[inBlobs (utf8 (decimalFileName record.blobUlid))]?)

/-- The condition of a request. -/
def Idle (world : World) : Request → Prop
  | .makeDirectory arg => ¬ CreatesFolder env world arg
  | .upload arg => UploadIdle env world arg
  | .append arg => AppendIdle env world arg
  | .download _ => True
  | .delete arg => DeleteIdle env world arg
  | .list _ => True
  | .move arg => MoveIdle env world arg
  | .copy arg => CopyIdle env world arg

/-! ## Statements -/

variable {env}

@[simp] theorem World.stores_advance (world : World) (count : ℕ) :
    (world.advance count).stores = world.stores := rfl

theorem World.stores_eq_iff {first second : World} :
    first.stores = second.stores ↔ first.db = second.db ∧ first.blobs = second.blobs := by
  rw [stores, stores, Stores.mk.injEq]

/-- A database with another entry is another one. -/
theorem stores_withDb_ne {world start : World} {db : Db} {key : Bytes}
    (other : db.fs[key]? ≠ start.db.fs[key]?) : (world.withDb db).stores ≠ start.stores := by
  intro same
  have tables := congrArg (fun stores : Stores => stores.db.fs[key]?) same
  exact other tables

section Statements

variable {Next : Type} {world : World} {shown : Stores} (here : world.stores = shown)
include here

theorem leaves_fromUtf8Unchecked_bind_iff {bytes : Bytes} {next : Bytes → Op Next} :
    Leaves World.stores shown (fromUtf8Unchecked bytes >>= next) world ↔
      ((ofUtf8 bytes).isNone = false → Leaves World.stores shown (next bytes) world) := by
  rw [fromUtf8Unchecked, leaves_bind_assoc_iff, leaves_rejectIf_bind_iff here]
  exact Iff.rfl

theorem leaves_openExisting_bind_iff {path : Bytes} {next : Bytes → Op Next} :
    Leaves World.stores shown (openExisting path >>= next) world ↔
      ∀ content, world.blobs[path]? = some content →
        Leaves World.stores shown (next content) world := by
  rw [openExisting, leaves_bind_assoc_iff, leaves_get_bind_iff, leaves_orFail_bind_iff here]

theorem leaves_removeFile_bind_iff {path : Bytes} {next : Unit → Op Next} :
    Leaves World.stores shown (removeFile path >>= next) world ↔
      ∀ content, world.blobs[path]? = some content →
        Leaves World.stores shown (next ()) (world.withBlobs (world.blobs.erase path)) := by
  rw [removeFile, leaves_bind_assoc_iff, leaves_openExisting_bind_iff here]
  exact Iff.rfl

theorem leaves_copyFile_bind_iff {source target : Bytes} {next : Unit → Op Next} :
    Leaves World.stores shown (copyFile source target >>= next) world ↔
      ∀ content, world.blobs[source]? = some content →
        Leaves World.stores shown (next ())
          (world.withBlobs (world.blobs.insert target content)) := by
  rw [copyFile, leaves_bind_assoc_iff, leaves_openExisting_bind_iff here]
  exact Iff.rfl

end Statements

/-! ## Handlers -/

theorem makeDirectory_idle_iff {world : World} {req : MakeDirectoryArg} :
    Leaves World.stores world.stores (makeDirectory env req) world ↔
      ¬ CreatesFolder env world req := by
  rw [Leaves]
  have outcome := makeDirectory_cases env world req
  generalize (makeDirectory env req).run world = done at outcome ⊢
  cases outcome with
  | refused err notCreated => exact iff_of_true rfl notCreated
  | created target lastName parentId later targeted named walked free result =>
      refine iff_of_false ?_ fun not =>
        not ⟨target, lastName, parentId, targeted, named, walked, free⟩
      have new : (withNewFolder world.db (makeDirectoryKey env.toNormalization parentId lastName)
          (trim lastName)).fs[makeDirectoryKey env.toNormalization parentId lastName]? ≠
            world.db.fs[makeDirectoryKey env.toNormalization parentId lastName]? := by
        rw [withNewFolder, Table.get_insert_self, free]
        exact Option.some_ne_none _
      rw [result]
      exact stores_withDb_ne new

/-- A final upload that finds its blob and arrives at a free key commits an entry there. -/
theorem finishUpload_commits {world : World} {req : UploadArg} {target : FileId}
    {lastName : Name} {ulid : Ulid} {content : Bytes} {parentId : FileSystemId}
    (complete : req.incomplete = false) (there : world.blobs[blobPath ulid]? = some content)
    (walked : uploadWalk world.db.fs target.path.dropLast = .ok parentId)
    (free : world.db.fs[uploadKey env.toNormalization parentId lastName]? = none) :
    ((finishUpload env req target lastName ulid).run world).state.db.fs[
      uploadKey env.toNormalization parentId lastName]? ≠ none := by
  rw [finishUpload_db env complete there walked free, withNewFile, Table.get_insert_self]
  exact Option.some_ne_none _

/-- A final upload that finds its blob commits an entry under the free key at which it arrives, or
arrives at none and leaves the stores as they are. -/
theorem finishUpload_stores {world : World} {req : UploadArg} {target : FileId}
    {lastName : Name} {ulid : Ulid} {content : Bytes} (complete : req.incomplete = false)
    (there : world.blobs[blobPath ulid]? = some content) :
    (((finishUpload env req target lastName ulid).run world).state.stores = world.stores ∧
      ∀ parentId, uploadWalk world.db.fs target.path.dropLast = .ok parentId →
        world.db.fs[uploadKey env.toNormalization parentId lastName]? ≠ none) ∨
    ∃ parentId, uploadWalk world.db.fs target.path.dropLast = .ok parentId ∧
      world.db.fs[uploadKey env.toNormalization parentId lastName]? = none ∧
      ((finishUpload env req target lastName ulid).run world).state.db.fs[
        uploadKey env.toNormalization parentId lastName]? ≠ none := by
  by_cases arrives : ∃ parentId, uploadWalk world.db.fs target.path.dropLast = .ok parentId ∧
      world.db.fs[uploadKey env.toNormalization parentId lastName]? = none
  · obtain ⟨parentId, walked, free⟩ := arrives
    exact .inr ⟨parentId, walked, free, finishUpload_commits complete there walked free⟩
  · have taken : ∀ parentId, uploadWalk world.db.fs target.path.dropLast = .ok parentId →
        world.db.fs[uploadKey env.toNormalization parentId lastName]? ≠ none :=
      fun parentId walked free => arrives ⟨parentId, walked, free⟩
    refine .inl ⟨?_, taken⟩
    have outcome := finishUpload_cases env world req target lastName ulid complete
    generalize (finishUpload env req target lastName ulid).run world = done at outcome ⊢
    cases outcome with
    | rejected err count check => rfl
    | broken err count notCheck reason => rfl
    | committed parentId saved moved later stops walked free save result =>
        exact absurd free (taken parentId walked)

/-- An upload that is received changes nothing exactly when it has no data, its blob is there, and
its checks of the path do not pass or are not made. -/
theorem receiveUpload_idle_iff {world drawn : World} {req : UploadArg} {target : FileId}
    {lastName : Name} {ulid : Ulid} (token : UploadToken env world req ulid drawn) :
    Leaves World.stores world.stores (receiveUpload env req target lastName ulid) drawn ↔
      req.data.bytes = [] ∧ (∃ content, world.blobs[blobPath ulid]? = some content) ∧
      (req.incomplete = false → ∀ parentId,
        uploadWalk world.db.fs target.path.dropLast = .ok parentId →
          world.db.fs[uploadKey env.toNormalization parentId lastName]? ≠ none) := by
  have db : (withReceived env drawn req ulid).db = world.db := token.db
  have received : (withReceived env drawn req ulid).stores = world.stores ↔
      req.data.bytes = [] ∧ ∃ content, world.blobs[blobPath ulid]? = some content := by
    rw [World.stores_eq_iff, and_iff_right db, ← token.blobs, received_blobs_iff]
  have there : ∃ content, (withReceived env drawn req ulid).blobs[blobPath ulid]? = some content :=
    ⟨_, (get_extendIn _ _ _ _).trans (if_pos rfl)⟩
  obtain ⟨content, there⟩ := there
  rw [Leaves, run_receiveUpload, Outcome.after_state, ← and_assoc, ← received, ← db]
  cases stage : req.incomplete with
  | true => exact (and_iff_left fun complete => (by cases complete)).symm
  | false =>
      rw [if_neg Bool.false_ne_true, forall_prop_of_true rfl]
      rcases finishUpload_stores stage there with ⟨kept, taken⟩ | ⟨parentId, walked, free, added⟩
      · rw [kept]
        exact (and_iff_left taken).symm
      · refine iff_of_false (fun same => added ?_) fun idle => idle.2 parentId walked free
        have tables := congrArg (fun stores : Stores => stores.db.fs[
          uploadKey env.toNormalization parentId lastName]?) same
        rw [db] at free
        exact tables.trans free

/-- The ULID of an upload is drawn, or read from its token. -/
theorem leaves_uploadUlid_bind_iff {Next : Type} {world : World} {req : UploadArg}
    {next : Ulid → Op Next} :
    Leaves World.stores world.stores (uploadUlid env req >>= next) world ↔
      ∀ ulid drawn, UploadToken env world req ulid drawn →
        Leaves World.stores world.stores (next ulid) drawn := by
  rw [uploadUlid]
  split
  · rename_i empty
    rw [newUlid, leaves_draw_bind_iff]
    constructor
    · intro leaves ulid drawn token
      obtain ⟨rfl, rfl⟩ := token.unique (.fresh (List.length_eq_zero_iff.mp empty))
      exact leaves
    · intro leaves
      exact leaves _ _ (.fresh (List.length_eq_zero_iff.mp empty))
  · rename_i nonempty
    rw [leaves_orFail_bind_iff rfl]
    constructor
    · intro leaves ulid drawn token
      cases token with
      | fresh new => exact absurd (List.length_eq_zero_iff.mpr new) nonempty
      | continued _ presented => exact leaves ulid (ulidOfBytes_eq_some_iff.mpr presented)
    · intro leaves ulid read
      exact leaves ulid world (.continued ulid (ulidOfBytes_eq_some_iff.mp read))

theorem upload_idle_iff {world : World} {req : UploadArg} :
    Leaves World.stores world.stores (upload env req) world ↔ UploadIdle env world req := by
  rw [upload]
  simp only [leaves_orFail_bind_iff, leaves_uploadUlid_bind_iff]
  constructor
  · intro leaves target lastName ulid receives
    obtain ⟨drawn, token⟩ := receives.token
    exact (receiveUpload_idle_iff token).mp
      (leaves target receives.targeted lastName receives.named ulid drawn token)
  · intro idle target targeted lastName named ulid drawn token
    exact (receiveUpload_idle_iff token).mpr
      (idle target lastName ulid ⟨targeted, named, drawn, token⟩)

/-- Adding data to a blob that is there changes nothing exactly when there is no data. -/
theorem appended_stores_iff {world : World} {path content data : Bytes}
    (opened : world.blobs[path]? = some content) :
    ((world.advance 1).withBlobs
        (extendIn world.blobs path (data.take (env.write world.calls data.length)))).stores =
      world.stores ↔ data = [] := by
  have blobs : ((world.advance 1).withBlobs
      (extendIn world.blobs path (data.take (env.write world.calls data.length)))).stores =
        world.stores ↔
      extendIn world.blobs path (data.take (env.write world.calls data.length)) = world.blobs :=
    World.stores_eq_iff.trans (and_iff_right rfl)
  rw [blobs, extendIn_eq_self_iff, env.take_write_eq_nil_iff]
  exact and_iff_left ⟨content, opened⟩

theorem append_idle_iff {world : World} {req : AppendArg} :
    Leaves World.stores world.stores (append env req) world ↔ AppendIdle env world req := by
  rw [append]
  simp only [leaves_orFail_bind_iff, leaves_get_bind_iff, leaves_ofExcept_bind_iff,
    leaves_rejectIf_bind_iff, leaves_fromUtf8Unchecked_bind_iff, leaves_openExisting_bind_iff,
    write, fileSize, timeNow, leaves_effect_bind_iff, leaves_ite_iff, leaves_bind_assoc_iff,
    leaves_draw_bind_iff, leaves_pure_bind_iff, leaves_pure_iff, World.stores_advance, ite_self,
    appendKey, Bool.not_eq_eq_eq_not, Bool.not_false]
  constructor
  · intro leaves target fileKey record row content appends
    obtain ⟨fileName, parentId, last, walked, rfl⟩ := keyOfPath_eq_some_iff.mp appends.resolved
    obtain ⟨value, found, decoded⟩ := appends.there
    obtain ⟨version, versioned⟩ := appends.decoded
    exact (appended_stores_iff appends.opened).mp (leaves target appends.targeted fileName last
      parentId walked value found record decoded appends.readable appends.current row
      appends.versioned version versioned appends.text content appends.opened)
  · intro idle target targeted fileName last parentId walked value found record decoded readable
      current row versioned version decodedRow text content opened
    exact (appended_stores_iff opened).mpr (idle target _ record row content
      ⟨targeted, keyOfPath_of_walk last walked, ⟨value, found, decoded⟩, readable, current,
        versioned, ⟨version, decodedRow⟩, text, opened⟩)

theorem stores_withFs_iff {world : World} {fs : Table Bytes Bytes} :
    (world.withDb { world.db with fs := fs }).stores = world.stores ↔ fs = world.db.fs := by
  constructor
  · intro same
    exact congrArg (fun stores : Stores => stores.db.fs) same
  · rintro rfl
    rfl

/-- Moving an entry changes nothing exactly when it is written again as it was. -/
theorem movedTo_eq_self_iff {fs : Table Bytes Bytes} {source destination value : Bytes}
    {record : FsRecordValue} {name : Name} (found : fs[source]? = some value) :
    movedTo fs source destination record name = fs ↔
      destination = source ∧ record.bytesOf ++ utf8 name = value := by
  constructor
  · intro same
    have at_source := congrArg (fun table : Table Bytes Bytes => table[source]?) same
    simp only [movedTo, found] at at_source
    by_cases here : source = destination
    · rw [here, Table.get_insert_self, Option.some_inj] at at_source
      exact ⟨here.symm, at_source⟩
    · rw [Table.get_insert_ne _ _ here, Table.get_erase_self] at at_source
      cases at_source
  · rintro ⟨rfl, rfl⟩
    refine Table.ext fun other => ?_
    rw [movedTo, Table.get_insert, Table.get_erase]
    split
    · rename_i same
      rw [same, found]
    · rfl

theorem move_idle_iff {world : World} {req : MoveArg} :
    Leaves World.stores world.stores (move env req) world ↔ MoveIdle env world req := by
  rw [move]
  simp only [leaves_orFail_bind_iff, leaves_get_bind_iff, leaves_ofExcept_bind_iff,
    leaves_rejectIf_bind_iff, commit, leaves_effect_iff, moveSourceKey, moveDestinationKey,
    stores_withFs_iff, Option.isSome_eq_false_iff, Option.isNone_iff_eq_none]
  constructor
  · intro leaves target source destination value record name moves
    obtain ⟨fileName, srcParentId, last, walked, rfl⟩ := keyOfPath_eq_some_iff.mp moves.resolved
    obtain ⟨_, destParentId, destLast, destWalked, rfl⟩ := keyOfPath_eq_some_iff.mp moves.arrives
    cases moves.named.symm.trans destLast
    exact (movedTo_eq_self_iff moves.found).mp (leaves target moves.targeted name destLast fileName
      last srcParentId walked destParentId destWalked value moves.found record moves.decoded
      moves.current moves.free)
  · intro idle target targeted name destLast fileName last srcParentId walked destParentId
      destWalked value found record decoded current free
    exact (movedTo_eq_self_iff found).mpr (idle target _ _ value record name
      ⟨targeted, keyOfPath_of_walk last walked, destLast, keyOfPath_of_walk destLast destWalked,
        found, decoded, current, free⟩)

/-! ## Deleting -/

/-- The loop over the versions creates no blob. -/
theorem deleteVersions_missing (fileId : FileSystemId) {count : ℕ} (fits : count < 2 ^ 64)
    (ver : Table Bytes Bytes) {world : World} {path : Bytes}
    (missing : world.blobs[path]? = none) :
    ((deleteVersions fileId count ver).run world).state.blobs[path]? = none := by
  have kept : ∀ {before later : World}, RemovesBlob ver fileId count before later →
      before.blobs[path]? = none → later.blobs[path]? = none := by
    rintro before later ⟨version, row, older, found, named, rfl⟩ gone
    rw [World.withBlobs_blobs, Table.get_erase, gone, ite_self]
  have follows := deleteVersions_follows fileId (Nat.le_refl count) fits
    fun _ _ (there : ver[_]? = some _) => there
  exact ((follows.outcome world).invariant missing kept).state

/-- One round of the loop leaves the stores as they are when its row names no blob that is there,
and a row with a path ends the loop then. -/
theorem leaves_deleteVersion_bind_iff {Next : Type} {fileId : FileSystemId} {version : FsVersion}
    {ver : Table Bytes Bytes} {next : Table Bytes Bytes → Op Next} {world : World}
    (creates : ∀ (world : World) (path : Bytes), world.blobs[path]? = none →
      ((next (ver.erase (rowKey fileId version))).run world).state.blobs[path]? = none) :
    Leaves World.stores world.stores (deleteVersion fileId version ver >>= next) world ↔
      match namedRow fileId ver version with
      | none => Leaves World.stores world.stores (next (ver.erase (rowKey fileId version))) world
      | some row => (ofUtf8 (row.drop versionValueSize)).isNone = false →
          world.blobs[inBlobs (row.drop versionValueSize)]? = none := by
  rw [deleteVersion, namedRow]
  rcases found : ver[rowKey fileId version]? with _ | row
  · rw [Table.erase_of_missing found]
    exact Iff.rfl
  · by_cases named : versionValueSize < row.length
    · simp only [named, if_pos, Option.filter_some, decide_true]
      rw [leaves_bind_assoc_iff, leaves_fromUtf8Unchecked_bind_iff rfl]
      refine forall_congr' fun text => ?_
      rw [leaves_bind_assoc_iff, leaves_removeFile_bind_iff rfl]
      constructor
      · intro leaves
        by_contra there
        obtain ⟨content, blob⟩ := Option.ne_none_iff_exists'.mp there
        have gone := creates (world.withBlobs (world.blobs.erase
          (inBlobs (row.drop versionValueSize)))) (inBlobs (row.drop versionValueSize))
            (Table.get_erase_self world.blobs _)
        have blobs := congrArg (fun stores : Stores =>
          stores.blobs[inBlobs (row.drop versionValueSize)]?) (leaves content blob)
        exact there (blobs.symm.trans gone)
      · intro missing content blob
        rw [missing] at blob
        cases blob
    · simp only [named, Option.filter_some, decide_false]
      exact Iff.rfl

/-- The row of a version carries the same path after the row of another one was removed. -/
theorem namedRow_erase_ne {fileId : FileSystemId} {ver : Table Bytes Bytes}
    {version removed : FsVersion} (other : version ≠ removed) :
    namedRow fileId (ver.erase (rowKey fileId removed)) version = namedRow fileId ver version := by
  rw [namedRow, namedRow, Table.get_erase_ne]
  exact fun same => other (rowKey_inj same).2

/-- Earlier rows are not touched by the removal of a later one. -/
theorem firstNamedRow_erase {fileId : FileSystemId} {ver : Table Bytes Bytes} {later : FsVersion}
    {count : ℕ} (older : count < later.toNat) :
    firstNamedRow fileId (ver.erase (rowKey fileId later)) count =
      firstNamedRow fileId ver count := by
  induction count with
  | zero =>
      rw [firstNamedRow, firstNamedRow, namedRow_erase_ne]
      rintro rfl
      exact absurd older (Nat.lt_irrefl _)
  | succ earlier ih =>
      have fits : earlier + 1 < 2 ^ 64 := older.trans later.toNat_lt
      rw [firstNamedRow, firstNamedRow, namedRow_erase_ne, ih (by omega)]
      rintro rfl
      rw [UInt64.toNat_ofNat_of_lt' fits] at older
      exact absurd older (Nat.lt_irrefl _)

/-- The loop leaves the stores as they are exactly when the first row with a path names no blob
that is there. -/
theorem deleteVersions_idle_iff {fileId : FileSystemId} {world : World} {count : ℕ}
    {ver : Table Bytes Bytes} (fits : count < 2 ^ 64) :
    Leaves World.stores world.stores (deleteVersions fileId count ver) world ↔
      ∀ row, firstNamedRow fileId ver count = some row →
        (ofUtf8 (row.drop versionValueSize)).isNone = false →
          world.blobs[inBlobs (row.drop versionValueSize)]? = none := by
  induction count generalizing ver with
  | zero =>
      have ended : ∀ (ver : Table Bytes Bytes) (reached : World),
          ((pure ver : Op (Table Bytes Bytes)).run reached).state.stores = reached.stores :=
        fun _ _ => rfl
      rw [deleteVersions, ← leaves_bind_unseen_iff ended,
        leaves_deleteVersion_bind_iff fun _ _ missing => missing, firstNamedRow]
      rcases namedRow fileId ver 0 with _ | row
      · exact iff_of_true rfl fun _ none => (by cases none)
      · exact ⟨fun gone _ same => Option.some_inj.mp same ▸ gone, fun gone => gone row rfl⟩
  | succ earlier ih =>
      rw [deleteVersions, leaves_deleteVersion_bind_iff
        fun world path => deleteVersions_missing fileId (by omega) _, firstNamedRow]
      rcases namedRow fileId ver (.ofNat (earlier + 1)) with _ | row
      · dsimp only
        rw [ih (by omega), firstNamedRow_erase, Option.none_or]
        rw [UInt64.toNat_ofNat_of_lt' fits]
        exact Nat.lt_succ_self earlier
      · rw [Option.some_or]
        exact ⟨fun gone _ same => Option.some_inj.mp same ▸ gone, fun gone => gone row rfl⟩

/-- The part of a deletion after its checks: removing the entry never leaves the stores as they
are, and for a version blob the loop decides. -/
theorem leaves_deleteEntry_iff {world : World} {fileKey value : Bytes} {record : FsRecordValue}
    (found : world.db.fs[fileKey]? = some value) :
    (if (record.type != objTypeVersionBlob) = true then world.db.fs.erase fileKey = world.db.fs
      else Leaves World.stores world.stores
        (deleteVersions record.id record.latestVersion.toNat world.db.ver) world) ↔
      record.type = objTypeVersionBlob ∧
      ∀ row, firstNamedRow record.id world.db.ver record.latestVersion.toNat = some row →
        (ofUtf8 (row.drop versionValueSize)).isNone = false →
          world.blobs[inBlobs (row.drop versionValueSize)]? = none := by
  by_cases versioned : record.type = objTypeVersionBlob
  · have isVersioned : ¬ (record.type != objTypeVersionBlob) = true := by simp [versioned]
    rw [if_neg isVersioned, deleteVersions_idle_iff record.latestVersion.toNat_lt,
      and_iff_right versioned]
  · have isOther : (record.type != objTypeVersionBlob) = true := by simp [versioned]
    rw [if_pos isOther]
    refine iff_of_false (fun same => ?_) fun idle => versioned idle.1
    have gone := Table.get_erase_self world.db.fs fileKey
    rw [same, found] at gone
    cases gone

theorem delete_idle_iff {world : World} {req : DeleteArg} :
    Leaves World.stores world.stores (delete env req) world ↔ DeleteIdle env world req := by
  have ended : ∀ (ver : Table Bytes Bytes) (reached : World),
      ((pure { shredded := false } : Op DeleteResult).run reached).state.stores = reached.stores :=
    fun _ _ => rfl
  rw [delete]
  simp only [leaves_orFail_bind_iff, leaves_get_bind_iff, leaves_ofExcept_bind_iff,
    leaves_rejectIf_bind_iff, leaves_ite_iff, leaves_bind_unseen_iff ended, commit,
    leaves_effect_bind_iff, leaves_pure_iff, deleteKey, stores_withFs_iff]
  constructor
  · intro leaves target fileKey record deletes
    obtain ⟨fileName, parentId, named, walked, rfl⟩ := keyOfPath_eq_some_iff.mp deletes.resolved
    obtain ⟨value, found, decoded⟩ := deletes.there
    exact (leaves_deleteEntry_iff found).mp (leaves target deletes.targeted fileName named parentId
      walked value found record decoded deletes.current)
  · intro idle target targeted fileName named parentId walked value found record decoded current
    exact (leaves_deleteEntry_iff found).mpr (idle target _ record
      ⟨targeted, keyOfPath_of_walk named walked, ⟨value, found, decoded⟩, current⟩)

/-! ## Copying -/

/-- The entry of a copy is committed exactly when its key is free. -/
theorem leaves_commitCopy_iff {world reached : World} {key : Bytes} {err : Status}
    {entry : Time64 → Db} {value : Time64 → Bytes}
    (inserts : ∀ createTime, (entry createTime).fs = world.db.fs.insert key (value createTime)) :
    Leaves World.stores world.stores (timeNow env >>= fun createTime =>
      rejectIf world.db.fs[key]?.isSome err >>= fun _ => commit (entry createTime)) reached ↔
        world.db.fs[key]? ≠ none ∧ reached.stores = world.stores := by
  rw [timeNow, leaves_draw_bind_iff]
  rcases free : world.db.fs[key]? with _ | occupant
  · have added : (entry (.now (env.clock reached.calls))).fs[key]? ≠ world.db.fs[key]? := by
      rw [inserts, Table.get_insert_self, free]
      exact Option.some_ne_none _
    exact iff_of_false (stores_withDb_ne added) fun taken => taken.1 rfl
  · exact (and_iff_right (Option.some_ne_none _)).symm

/-- A blob is copied first, if the type asks for it. -/
theorem leaves_copyBlob_bind_iff {Next : Type} {world start : World} {record : FsRecordValue}
    {destUlid : Ulid} {next : Unit → Op Next} {taken : Prop}
    (here : start.stores = world.stores)
    (later : ∀ reached, Leaves World.stores world.stores (next ()) reached ↔
      taken ∧ reached.stores = world.stores) :
    Leaves World.stores world.stores (copyBlob record destUlid >>= next) start ↔
      (Copyable world record → taken ∧
        (record.type = objTypeNormalBlob ∨ record.type = objTypeAppendBlob ∨
            record.type = objTypeBlockBlob →
          world.blobs[blobPath destUlid]? =
            world.blobs[inBlobs (utf8 (decimalFileName record.blobUlid))]?)) := by
  obtain ⟨db, blobs⟩ := World.stores_eq_iff.mp here
  rw [copyBlob]
  split
  · rename_i type
    have inserted : ∀ content,
        (start.withBlobs (world.blobs.insert (blobPath destUlid) content)).stores = world.stores ↔
          world.blobs[blobPath destUlid]? = some content := by
      intro content
      rw [World.stores_eq_iff, World.withBlobs_db, World.withBlobs_blobs, and_iff_right db,
        Table.insert_eq_self_iff]
    rw [copyable_iff_of_blob type, forall_prop_of_true type, leaves_copyFile_bind_iff here, blobs]
    rcases world.blobs[inBlobs (utf8 (decimalFileName record.blobUlid))]? with _ | content
    · exact iff_of_true (fun _ found => by cases found) fun found => absurd rfl found
    · rw [forall_prop_of_true (Option.some_ne_none _), ← inserted, ← later]
      constructor
      · exact fun leaves => leaves content rfl
      · rintro leaves _ ⟨⟩
        exact leaves
  · rename_i noBlob
    have empty : Leaves World.stores world.stores (next ()) start ↔ taken ∧
        (record.type = objTypeNormalBlob ∨ record.type = objTypeAppendBlob ∨
            record.type = objTypeBlockBlob →
          world.blobs[blobPath destUlid]? =
            world.blobs[inBlobs (utf8 (decimalFileName record.blobUlid))]?) := by
      rw [later, and_iff_left here, and_iff_left fun type => absurd type noBlob]
    split
    · rename_i symlink
      have copyable : Copyable world record := .inr (.inl symlink)
      rw [forall_prop_of_true copyable]
      exact empty
    · rename_i notSymlink
      split
      · rename_i version
        have copyable : Copyable world record := .inl version
        rw [forall_prop_of_true copyable]
        exact empty
      · rename_i notVersion
        refine iff_of_true here fun copyable => ?_
        rcases copyable with version | symlink | ⟨type, _⟩
        · exact absurd version notVersion
        · exact absurd symlink notSymlink
        · exact absurd type noBlob

theorem copy_idle_iff {world : World} {req : CopyArg} :
    Leaves World.stores world.stores (copy env req) world ↔ CopyIdle env world req := by
  rw [copy]
  simp only [leaves_orFail_bind_iff, leaves_get_bind_iff, leaves_ofExcept_bind_iff,
    newUlid, leaves_draw_bind_iff, copySourceKey, copyDestinationKey]
  constructor
  · intro leaves target source destination record copies
    obtain ⟨fileName, srcParentId, last, walked, rfl⟩ := keyOfPath_eq_some_iff.mp copies.resolved
    obtain ⟨destFileName, destParentId, destLast, destWalked, rfl⟩ :=
      keyOfPath_eq_some_iff.mp copies.arrives
    obtain ⟨value, found, decoded⟩ := copies.there
    have copied := leaves target copies.targeted destFileName destLast fileName last srcParentId
      walked destParentId destWalked value found record decoded
    exact (leaves_copyBlob_bind_iff (world.stores_advance 1)
      fun reached => leaves_commitCopy_iff fun _ => rfl).mp copied copies.copyable
  · intro idle target targeted destFileName destLast fileName last srcParentId walked destParentId
      destWalked value found record decoded
    refine (leaves_copyBlob_bind_iff (world.stores_advance 1)
      fun reached => leaves_commitCopy_iff fun _ => rfl).mpr fun copyable => ?_
    exact idle target _ _ record ⟨targeted, keyOfPath_of_walk last walked,
      keyOfPath_of_walk destLast destWalked, ⟨value, found, decoded⟩, copyable⟩

/-! ## All requests -/

/-- **A request leaves the tables and the blobs as they are exactly when its condition holds in the
world before it.** -/
theorem handle_idle_iff {world : World} {req : Request} :
    Leaves World.stores world.stores (handle env req) world ↔ Idle env world req := by
  cases req with
  | makeDirectory arg => exact makeDirectory_idle_iff
  | upload arg => exact upload_idle_iff
  | append arg => exact append_idle_iff
  | download arg =>
      have outcome := download_cases env world arg
      rw [handle, leaves_map_iff, Leaves]
      refine iff_of_true ?_ trivial
      generalize (download env arg).run world = done at outcome ⊢
      cases outcome with
      | refused err => rfl
      | served result => rfl
  | delete arg => exact delete_idle_iff
  | list arg => exact iff_of_true (congrArg World.stores (list_unchanged env world arg).1) trivial
  | move arg => exact move_idle_iff
  | copy arg => exact copy_idle_iff

end Yeetbox.Storage
