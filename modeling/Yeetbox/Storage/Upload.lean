import Yeetbox.Storage.Request
import Yeetbox.Storage.Walk

/-!
# Uploading

An upload first adds its data to the blob of a ULID: a fresh one, or the one that its
continuation token names. A fragment (`incomplete`) ends there and returns the token. A
final upload then resolves its path, and commits a new entry and a version row that names the
blob; a blob that came in fragments is first renamed to a fresh ULID.

The checks of the path come after the data was written, so a rejected upload has changed the
blob directory. The insertion of the entry refuses every key that is taken, also when
`next` asks for a new version of it.

`upload_cases` says all that an upload can do, and `upload_ok` what it does when it returns `Ok`.
-/

set_option autoImplicit false

namespace Yeetbox.Storage

open Library Handler

variable (env : Env)

/-- The key that `upload` writes: `make_key` of the trimmed name. -/
def uploadKey (normalization : Normalization) (parentId : FileSystemId) (fileName : Name) : Bytes :=
  makeKey normalization parentId (trim fileName)

/-- `fs_record_from_bytes` of the record that the upload is the next version of. -/
def previousRecord : Option Bytes → Op (Option FsRecordValue)
  | none => pure none
  | some bytes => do
      let record ← orFail .panic (fsRecordFromBytes bytes)
      pure (some record)

/-- `Ulid::new()` for a new upload, and the ULID of the continuation token otherwise. -/
def uploadUlid (req : UploadArg) : Op Ulid :=
  if req.continuation.length = 0 then newUlid env
  else orFail (.invalidArgument "invalid continuation token") (ulidOfBytes req.continuation)

/-- The path that the version row will hold. A blob that was fragmented among requests is renamed
first, so that its token cannot be used to append more data. -/
def saveBlob (singleMessageBlob : Bool) (path : Bytes) : Op Bytes :=
  if singleMessageBlob then pure path
  else do
    let newUlid ← newUlid env
    rename path (blobPath newUlid)
    pure (blobPath newUlid)

/-- The part of `upload` after the exit for incomplete uploads. -/
def finishUpload (req : UploadArg) (target : FileId) (lastName : Name) (ulid : Ulid) :
    Op UploadResult := do
  let world ← get
  let fileName := trim lastName
  let parentId ← ofExcept (uploadWalk world.db.fs target.path.dropLast)
  let w := world.db
  let key := uploadKey env.toNormalization parentId lastName
  let maybeExisting := w.fs[key]?
  rejectIf (maybeExisting.isSome && !req.next)
    (.invalidArgument "object already exists with that name")
  let prevFsRecord ← previousRecord maybeExisting
  let (fileId, w) := match prevFsRecord with
    | some record => (record.id, w)
    | none => getNextId w fsTableName
  let currentVersion := (prevFsRecord.map fun record => record.latestVersion + 1).getD 1
  -- `unwrap_or` evaluates its argument whether it is needed or not.
  let createNow ← timeNow env
  let modifyNow ← timeNow env
  let accessNow ← timeNow env
  let newFileRecord : FsRecordValue := {
    id := fileId
    type := objTypeVersionBlob
    createTime := (prevFsRecord.map FsRecordValue.createTime).getD createNow
    modifyTime := modifyNow
    accessTime := (prevFsRecord.map FsRecordValue.accessTime).getD accessNow
    latestVersion := currentVersion
    blobUlid := ulid }
  let newValue := newFileRecord.bytesOf ++ utf8 fileName
  let maybeExistingValue := w.fs[key]?
  let w := { w with fs := w.fs.insert key newValue }
  rejectIf maybeExistingValue.isSome (.internal "replaced existing folder")
  let versionNow ← timeNow env
  let singleMessageBlob : Bool := !req.incomplete && req.continuation.length == 0
  let newFileVersion : VersionRecordValue := {
    createTime := versionNow
    accessTime := .unknownTime
    uid := req.uid
    gid := req.gid
    flags := (req.perms.map unixPermsToU16).getD 0o755
    storageTier := defaultStorageTier
    length := if singleMessageBlob then .ofNat req.data.bytes.length else unknownSize
    other := 0 }
  let savedBlobPath ← saveBlob env singleMessageBlob (blobPath ulid)
  let versionKey := rowKey fileId currentVersion
  let versionValue := newFileVersion.bytesOf ++ savedBlobPath
  let w := { w with ver := w.ver.insert versionKey versionValue, verCreated := true }
  commit w
  pure {}

/-- The part of `upload` after its ULID was determined. -/
def receiveUpload (req : UploadArg) (target : FileId) (lastName : Name) (ulid : Ulid) :
    Op UploadResult := do
  openCreate (blobPath ulid)
  write env (blobPath ulid) req.data.bytes
  if req.incomplete then pure { continuation := ulid.toBytes }
  else finishUpload env req target lastName ulid

def upload (req : UploadArg) : Op UploadResult := do
  let target ← orFail (.invalidArgument "target is required") req.target
  let lastName ← orFail (.invalidArgument "target may not be empty") target.path.getLast?
  let ulid ← uploadUlid env req
  receiveUpload env req target lastName ulid

/-! ## What a final upload can do -/

/-- The record of a file that an upload creates, with the clock read from some call on. -/
def newFileRecord (db : Db) (ulid : Ulid) (calls : ℕ) : FsRecordValue where
  id := db.lastId fsTableName + 1
  type := objTypeVersionBlob
  createTime := .now (env.clock calls)
  modifyTime := .now (env.clock (calls + 1))
  accessTime := .now (env.clock (calls + 2))
  latestVersion := 1
  blobUlid := ulid

/-- The version record of a file that an upload creates: the length is known only when the blob
came in a single message. -/
def newFileVersion (req : UploadArg) (calls : ℕ) : VersionRecordValue where
  createTime := .now (env.clock (calls + 3))
  accessTime := .unknownTime
  uid := req.uid
  gid := req.gid
  flags := (req.perms.map unixPermsToU16).getD 0o755
  storageTier := defaultStorageTier
  length := if req.continuation = [] then .ofNat req.data.bytes.length else unknownSize
  other := 0

/-- The database after a file was created: the next id is taken, the entry is in `FS_TABLE` and
its first version in `VER_TABLE`. -/
def withNewFile (db : Db) (key : Bytes) (fileName : Name) (record : FsRecordValue)
    (version : VersionRecordValue) (path : Bytes) : Db where
  fs := db.fs.insert key (record.bytesOf ++ utf8 fileName)
  seq := db.seq.insert fsTableName (db.lastId fsTableName + 1)
  ver := db.ver.insert (rowKey record.id 1) (version.bytesOf ++ path)
  verCreated := true

/-- Where the blob of a finished upload is, the world when it is there, and the stops on the way. -/
inductive SavedBlob (world : World) (req : UploadArg) (ulid : Ulid) :
    Ulid → World → List World → Prop where
  | single (fresh : req.continuation = []) : SavedBlob world req ulid ulid (world.advance 4) []
  | renamed (content : Bytes) (moved : World) (continued : req.continuation ≠ [])
      (found : world.blobs[blobPath ulid]? = some content)
      (result : moved = (world.advance 5).withBlobs
        ((world.blobs.erase (blobPath ulid)).insert (blobPath (env.newUlid (world.calls + 4)))
          content)) :
      SavedBlob world req ulid (env.newUlid (world.calls + 4)) moved [moved]

/-- The errors with which `upload` rejects a path. -/
def uploadChecks : List Status :=
  walkErrors "cannot place under non-folder" ++
    [.invalidArgument "object already exists with that name", .internal "replaced existing folder"]

/-- What the part after the `incomplete` exit can do. -/
inductive FinishCases (world : World) (req : UploadArg) (target : FileId) (lastName : Name)
    (ulid : Ulid) : Outcome World Status UploadResult → Prop where
  | rejected (err : Status) (count : ℕ) (check : err ∈ uploadChecks) :
      FinishCases world req target lastName ulid ⟨.error err, world.advance count, []⟩
  | broken (err : Status) (count : ℕ) (notCheck : err ∉ uploadChecks)
      (reason : world.blobs[blobPath ulid]? = none ∨
        ∃ key value : Bytes, world.db.fs[key]? = some value ∧ fsRecordFromBytes value = none) :
      FinishCases world req target lastName ulid ⟨.error err, world.advance count, []⟩
  | committed (parentId : FileSystemId) (saved : Ulid) (moved later : World) (stops : List World)
      (walked : uploadWalk world.db.fs target.path.dropLast = .ok parentId)
      (free : world.db.fs[uploadKey env.toNormalization parentId lastName]? = none)
      (save : SavedBlob env world req ulid saved moved stops)
      (result : later = moved.withDb (withNewFile world.db
        (uploadKey env.toNormalization parentId lastName) (trim lastName)
        (newFileRecord env world.db ulid world.calls) (newFileVersion env req world.calls)
        (blobPath saved))) :
      FinishCases world req target lastName ulid ⟨.ok {}, later, stops ++ [later]⟩

/-- An upload whose walk arrives at a free key saves its blob and commits the new file. -/
theorem run_finishUpload_free {world : World} {req : UploadArg} {target : FileId}
    {lastName : Name} {parentId : FileSystemId} (ulid : Ulid) (complete : req.incomplete = false)
    (walked : uploadWalk world.db.fs target.path.dropLast = .ok parentId)
    (free : world.db.fs[uploadKey env.toNormalization parentId lastName]? = none) :
    (finishUpload env req target lastName ulid).run world = (do
      let path ← saveBlob env (req.continuation.length == 0) (blobPath ulid)
      commit (withNewFile world.db (uploadKey env.toNormalization parentId lastName)
        (trim lastName) (newFileRecord env world.db ulid world.calls)
        (newFileVersion env req world.calls) path)
      pure {} : Op UploadResult).run (world.advance 4) := by
  have length : (if (req.continuation.length == 0) = true then
      UInt64.ofNat req.data.bytes.length else unknownSize) =
        (newFileVersion env req world.calls).length := by
    simp [newFileVersion]
  rw [finishUpload, run_get_bind, walked, run_ofExcept_ok_bind]
  dsimp only
  rw [free, Option.isSome_none, Bool.false_and, run_rejectIf_false_bind, previousRecord,
    run_pure_bind]
  simp only [timeNow, run_draw_bind, getNextId, complete, Bool.not_false, Bool.true_and,
    Option.map_none, Option.getD_none, free, Option.isSome_none, run_rejectIf_false_bind, length]
  rfl

/-- The ULID whose blob the row of a finished upload names, when it is finished in some world. -/
def savedUlid (world : World) (req : UploadArg) (ulid : Ulid) : Ulid :=
  if req.continuation = [] then ulid else env.newUlid (world.calls + 4)

/-- An upload that finds its blob, and whose walk arrives at a free key, commits the new file. -/
theorem finishUpload_db {world : World} {req : UploadArg} {target : FileId} {lastName : Name}
    {ulid : Ulid} {content : Bytes} {parentId : FileSystemId} (complete : req.incomplete = false)
    (there : world.blobs[blobPath ulid]? = some content)
    (walked : uploadWalk world.db.fs target.path.dropLast = .ok parentId)
    (free : world.db.fs[uploadKey env.toNormalization parentId lastName]? = none) :
    ((finishUpload env req target lastName ulid).run world).state.db = withNewFile world.db
      (uploadKey env.toNormalization parentId lastName) (trim lastName)
      (newFileRecord env world.db ulid world.calls) (newFileVersion env req world.calls)
      (blobPath (savedUlid env world req ulid)) := by
  rw [run_finishUpload_free env ulid complete walked free, savedUlid]
  by_cases fresh : req.continuation = []
  · have single : (req.continuation.length == 0) = true := by simp [fresh]
    rw [single, saveBlob, if_pos rfl, if_pos fresh]
    rfl
  · have fragmented : (req.continuation.length == 0) = false := by simp [fresh]
    have found : ((world.advance 4).advance 1).blobs[blobPath ulid]? = some content := there
    rw [fragmented, saveBlob, if_neg Bool.false_ne_true, if_neg fresh, run_bind_assoc, newUlid,
      run_draw_bind, run_bind_assoc, run_rename_bind_found found _ _ rfl]
    rfl

theorem finishUpload_cases (world : World) (req : UploadArg) (target : FileId) (lastName : Name)
    (ulid : Ulid) (complete : req.incomplete = false) :
    FinishCases env world req target lastName ulid
      ((finishUpload env req target lastName ulid).run world) := by
  rcases walked : uploadWalk world.db.fs target.path.dropLast with err | parentId
  · rw [finishUpload, run_get_bind, walked]
    exact .rejected err 0 (List.mem_append_left _ (walkFolders_error walked))
  rcases found : world.db.fs[uploadKey env.toNormalization parentId lastName]? with _ | value
  · rw [run_finishUpload_free env ulid complete walked found]
    by_cases fresh : req.continuation = []
    · have single : (req.continuation.length == 0) = true := by simp [fresh]
      rw [single, saveBlob, if_pos rfl, run_pure_bind]
      exact .committed parentId ulid _ _ [] walked found (.single fresh) rfl
    · have fragmented : (req.continuation.length == 0) = false := by simp [fresh]
      rw [fragmented, saveBlob, if_neg Bool.false_ne_true, run_bind_assoc, newUlid,
        run_draw_bind, run_bind_assoc]
      simp only [World.advance_advance, Nat.reduceAdd, World.advance_calls]
      rcases content : world.blobs[blobPath ulid]? with _ | bytes
      · have missing : ((world.advance 5).blobs[blobPath ulid]? : Option Bytes) = none := content
        rw [run_rename_bind_missing missing]
        exact .broken .notFound 5 (by simp [uploadChecks, walkErrors]) (.inl content)
      · have there : (world.advance 5).blobs[blobPath ulid]? = some bytes := content
        rw [run_rename_bind_found there _ _ rfl]
        exact .committed parentId _ _ _ _ walked found (.renamed bytes _ fresh content rfl) rfl
  · rw [finishUpload, run_get_bind, walked, run_ofExcept_ok_bind]
    dsimp only
    rw [found]
    rcases plain : req.next with _ | _
    · exact .rejected _ 0 (by simp [uploadChecks])
    · rw [Bool.not_true, Bool.and_false, run_rejectIf_false_bind]
      rcases decoded : fsRecordFromBytes value with _ | record
      · simp only [previousRecord, decoded]
        exact .broken .panic 0 (by simp [uploadChecks, walkErrors]) (.inr ⟨_, _, found, decoded⟩)
      · simp only [previousRecord, decoded, timeNow, run_bind_assoc, run_orFail_some_bind,
          run_pure_bind, run_draw_bind, found, Option.isSome_some, run_rejectIf_true_bind,
          World.advance_advance]
        exact .rejected _ 3 (by simp [uploadChecks])

/-! ## What an upload can do -/

/-- The ULID of an upload, and the world after it was determined. -/
inductive UploadToken (world : World) (req : UploadArg) : Ulid → World → Prop where
  | fresh (new : req.continuation = []) :
      UploadToken world req (env.newUlid world.calls) (world.advance 1)
  | continued (ulid : Ulid) (presented : req.continuation = ulid.toBytes) :
      UploadToken world req ulid world

variable {env}

theorem UploadToken.db {world drawn : World} {req : UploadArg} {ulid : Ulid}
    (token : UploadToken env world req ulid drawn) : drawn.db = world.db := by
  cases token with
  | fresh new => rfl
  | continued ulid presented => rfl

theorem UploadToken.blobs {world drawn : World} {req : UploadArg} {ulid : Ulid}
    (token : UploadToken env world req ulid drawn) : drawn.blobs = world.blobs := by
  cases token with
  | fresh new => rfl
  | continued ulid presented => rfl

theorem UploadToken.calls_le {world drawn : World} {req : UploadArg} {ulid : Ulid}
    (token : UploadToken env world req ulid drawn) : world.calls ≤ drawn.calls := by
  cases token with
  | fresh new => exact Nat.le_add_right _ 1
  | continued ulid presented => exact Nat.le_refl _

/-- A request that presents a token goes on with its ULID, and draws none for it. -/
theorem UploadToken.of_presented {world drawn : World} {req : UploadArg} {ulid presents : Ulid}
    (token : UploadToken env world req ulid drawn)
    (presented : req.continuation = presents.toBytes) :
    ulid = presents ∧ drawn = world := by
  cases token with
  | fresh new => exact absurd (presented.symm.trans new) (Ulid.toBytes_ne_nil presents)
  | continued _ token => exact ⟨Ulid.toBytes_injective (token.symm.trans presented), rfl⟩

theorem UploadToken.unique {world first second : World} {req : UploadArg} {one other : Ulid}
    (token : UploadToken env world req one first)
    (token' : UploadToken env world req other second) :
    one = other ∧ first = second := by
  cases token' with
  | continued _ presented => exact token.of_presented presented
  | fresh new =>
      cases token with
      | fresh _ => exact ⟨rfl, rfl⟩
      | continued _ presented => exact absurd (presented.symm.trans new) (Ulid.toBytes_ne_nil one)

variable (env)

/-- The bytes of the request that the write transfers. -/
def receivedData (drawn : World) (req : UploadArg) : Bytes :=
  req.data.bytes.take (env.write drawn.calls req.data.bytes.length)

/-- The world after the data of an upload was added to the blob of its ULID. -/
def withReceived (drawn : World) (req : UploadArg) (ulid : Ulid) : World :=
  (drawn.advance 1).withBlobs (extendIn drawn.blobs (blobPath ulid) (receivedData env drawn req))

/-- The world after the blob of an upload was opened. -/
def withOpened (drawn : World) (ulid : Ulid) : World :=
  drawn.withBlobs (createIn drawn.blobs (blobPath ulid))

/-- What `upload` can do: refuse and leave the world alone, keep a fragment, or keep the data
and go on to finish the upload. -/
inductive UploadCases (world : World) (req : UploadArg) :
    Outcome World Status UploadResult → Prop where
  | refused (err : Status) (notCheck : err ∉ uploadChecks) :
      UploadCases world req ⟨.error err, world, []⟩
  | fragment (ulid : Ulid) (drawn : World) (token : UploadToken env world req ulid drawn)
      (incomplete : req.incomplete = true) :
      UploadCases world req ⟨.ok { continuation := ulid.toBytes }, withReceived env drawn req ulid,
        [withOpened drawn ulid, withReceived env drawn req ulid]⟩
  | final (target : FileId) (lastName : Name) (ulid : Ulid) (drawn : World)
      (outcome : Outcome World Status UploadResult)
      (targeted : req.target = some target) (named : target.path.getLast? = some lastName)
      (token : UploadToken env world req ulid drawn) (complete : req.incomplete = false)
      (finish :
        FinishCases env (withReceived env drawn req ulid) req target lastName ulid outcome) :
      UploadCases world req
        (outcome.after [withOpened drawn ulid, withReceived env drawn req ulid])

/-- An upload that is received adds its data to the blob of its ULID, and goes on from there. -/
theorem run_receiveUpload (drawn : World) (req : UploadArg) (target : FileId) (lastName : Name)
    (ulid : Ulid) : (receiveUpload env req target lastName ulid).run drawn =
      ((if req.incomplete then pure { continuation := ulid.toBytes }
        else finishUpload env req target lastName ulid).run (withReceived env drawn req ulid)).after
          [withOpened drawn ulid, withReceived env drawn req ulid] := by
  have received : ((withOpened drawn ulid).advance 1).withBlobs
      (extendIn (withOpened drawn ulid).blobs (blobPath ulid) (receivedData env drawn req)) =
        withReceived env drawn req ulid := by
    rw [withOpened, World.withBlobs_blobs, extendIn_createIn]
    rfl
  rw [← received, receiveUpload, openCreate, run_effect_bind, write, run_effect_bind,
    Outcome.after_after]
  rfl

theorem receiveUpload_cases (world drawn : World) (req : UploadArg) (target : FileId)
    (lastName : Name) (ulid : Ulid) (targeted : req.target = some target)
    (named : target.path.getLast? = some lastName) (token : UploadToken env world req ulid drawn) :
    UploadCases env world req ((receiveUpload env req target lastName ulid).run drawn) := by
  rw [run_receiveUpload]
  cases stage : req.incomplete with
  | true => exact .fragment ulid drawn token stage
  | false =>
      exact .final target lastName ulid drawn _ targeted named token stage
        (finishUpload_cases env _ req target lastName ulid stage)

theorem upload_cases (world : World) (req : UploadArg) :
    UploadCases env world req ((upload env req).run world) := by
  rw [upload]
  rcases targeted : req.target with _ | target
  · exact .refused _ (by simp [uploadChecks, walkErrors])
  rw [run_orFail_some_bind]
  rcases named : target.path.getLast? with _ | lastName
  · exact .refused _ (by simp [uploadChecks, walkErrors])
  rw [run_orFail_some_bind]
  by_cases new : req.continuation = []
  · have empty : req.continuation.length = 0 := by simp [new]
    rw [uploadUlid, if_pos empty, newUlid, run_draw_bind]
    exact receiveUpload_cases env world _ req target lastName _ targeted named (.fresh new)
  · have nonempty : ¬ req.continuation.length = 0 := by simp [new]
    rw [uploadUlid, if_neg nonempty]
    rcases presented : ulidOfBytes req.continuation with _ | ulid
    · exact .refused _ (by simp [uploadChecks, walkErrors])
    rw [run_orFail_some_bind]
    exact receiveUpload_cases env world _ req target lastName _ targeted named
      (.continued ulid (ulidOfBytes_eq_some_iff.mp presented))

/-! ## What an upload leaves of the blobs -/

variable {env}

/-- Receiving data leaves the blobs alone exactly when there is none and the blob is there. -/
theorem received_blobs_iff {drawn : World} {arg : UploadArg} {ulid : Ulid} :
    (withReceived env drawn arg ulid).blobs = drawn.blobs ↔
      arg.data.bytes = [] ∧ ∃ content, drawn.blobs[blobPath ulid]? = some content := by
  rw [withReceived, World.withBlobs_blobs, extendIn_eq_self_iff, receivedData,
    env.take_write_eq_nil_iff]

variable (env)

/-! ## Uploads that return `Ok` -/

/-- What an upload that returns `Ok` does: keep a fragment and return its token, or commit a new
file whose first version names the blob. -/
inductive UploadDone (world : World) (req : UploadArg) : UploadResult → World → Prop where
  | fragment (ulid : Ulid) (drawn : World) (token : UploadToken env world req ulid drawn)
      (incomplete : req.incomplete = true) :
      UploadDone world req { continuation := ulid.toBytes } (withReceived env drawn req ulid)
  | committed (target : FileId) (lastName : Name) (ulid : Ulid) (drawn : World)
      (parentId : FileSystemId) (saved : Ulid) (moved : World) (stops : List World)
      (targeted : req.target = some target) (named : target.path.getLast? = some lastName)
      (token : UploadToken env world req ulid drawn) (complete : req.incomplete = false)
      (walked : uploadWalk world.db.fs target.path.dropLast = .ok parentId)
      (free : world.db.fs[uploadKey env.toNormalization parentId lastName]? = none)
      (save : SavedBlob env (withReceived env drawn req ulid) req ulid saved moved stops) :
      UploadDone world req {} (moved.withDb (withNewFile world.db
        (uploadKey env.toNormalization parentId lastName) (trim lastName)
        (newFileRecord env world.db ulid (withReceived env drawn req ulid).calls)
        (newFileVersion env req (withReceived env drawn req ulid).calls) (blobPath saved)))

variable {env}

theorem upload_ok {world : World} {req : UploadArg} {result : UploadResult}
    (ok : ((upload env req).run world).result = .ok result) :
    UploadDone env world req result ((upload env req).run world).state := by
  have outcome := upload_cases env world req
  generalize (upload env req).run world = done at outcome ok
  cases outcome with
  | refused err notCheck => cases ok
  | fragment ulid drawn token incomplete =>
      cases ok
      exact .fragment ulid drawn token incomplete
  | final target lastName ulid drawn finished targeted named token complete finish =>
      have db : (withReceived env drawn req ulid).db = world.db := token.db
      cases finish with
      | rejected err count check => cases ok
      | broken err count notCheck reason => cases ok
      | committed parentId saved moved later stops walked free save committed =>
          cases ok
          rw [db] at walked free committed
          rw [Outcome.after_state, committed]
          exact .committed target lastName ulid drawn parentId saved moved stops targeted named
            token complete walked free save

/-- An upload that fails leaves the tables alone. -/
theorem UploadCases.error_db {world : World} {arg : UploadArg}
    {outcome : Outcome World Status UploadResult} (cases : UploadCases env world arg outcome)
    {err : Status} (failed : outcome.result = .error err) : outcome.state.db = world.db := by
  cases cases with
  | refused err notCheck => rfl
  | fragment => cases failed
  | final target lastName ulid drawn finished targeted named token complete finish =>
      cases finish with
      | rejected err count check => exact token.db
      | broken err count notCheck reason => exact token.db
      | committed => cases failed

/-- **An upload leaves the tables alone or is done.** -/
theorem upload_db_or_done (env : Env) (world : World) (req : UploadArg) :
    ((upload env req).run world).state.db = world.db ∨
      ∃ result, UploadDone env world req result ((upload env req).run world).state := by
  rcases result : ((upload env req).run world).result with err | answer
  · exact .inl ((upload_cases env world req).error_db result)
  · exact .inr ⟨answer, upload_ok result⟩

/-- **An upload in a single message that returns `Ok` adds its data to the blob of a new ULID, and
commits a new file whose first version names that blob and records the length of the data.** -/
theorem upload_single {world : World} {req : UploadArg} {target : FileId} {lastName : Name}
    {result : UploadResult} (targeted : req.target = some target)
    (named : target.path.getLast? = some lastName) (single : req.continuation = [])
    (complete : req.incomplete = false) (ok : ((upload env req).run world).result = .ok result) :
    ∃ parentId record version, uploadWalk world.db.fs target.path.dropLast = .ok parentId ∧
      world.db.fs[uploadKey env.toNormalization parentId lastName]? = none ∧
      record.type = objTypeVersionBlob ∧ record.latestVersion = 1 ∧
      version.length = .ofNat req.data.bytes.length ∧
      ((upload env req).run world).state =
        ((withReceived env (world.advance 1) req (env.newUlid world.calls)).advance 4).withDb
          (withNewFile world.db (uploadKey env.toNormalization parentId lastName) (trim lastName)
            record version (blobPath (env.newUlid world.calls))) := by
  have done := upload_ok ok
  generalize ((upload env req).run world).state = later at done
  cases done with
  | fragment _ _ _ incomplete => rw [complete] at incomplete; cases incomplete
  | committed target' lastName' ulid drawn parentId saved moved stops targeted' named' token _
      walked free save =>
      cases targeted.symm.trans targeted'
      cases named.symm.trans named'
      cases token with
      | continued _ presented =>
          exact absurd (presented.symm.trans single) (Ulid.toBytes_ne_nil ulid)
      | fresh _ =>
          cases save with
          | renamed _ _ continued _ _ => exact absurd single continued
          | single _ => exact ⟨parentId, _, _, walked, free, rfl, rfl, if_pos single, rfl⟩

end Yeetbox.Storage
