import Yeetbox.FileStorage.Upload
import Yeetbox.Library.Interleaving

/-!
# Uploads that run at the same time

The file driver holds nothing in memory between two calls of the operating system, so uploads of the
same file meet only in its directory. Here an upload is the program of the calls that it makes, and
the calls of several uploads may alternate in any order. Alone, the program does what the upload
does (`Process.upload_agrees`).

A call is taken to be atomic, and to be carried out when it returns. So is `create_dir_all`, which
only makes sure that a directory is there, and so is `write`. The data of an upload is written to
the blob by its name.
-/

set_option autoImplicit false

namespace Yeetbox.FileStorage

open Library Storage

/-! ## Calls -/

/-- A call to the outside or to the operating system. -/
inductive OsCall where
  /-- `Ulid::new()`. -/
  | newUlid
  /-- How many of some bytes the next `write` transfers. -/
  | transfer (size : ℕ)
  | sys (call : FsCall)
  /-- `read_link` of the latest version. -/
  | readLink

/-- What a call returns. -/
def OsCall.Reply : OsCall → Type
  | newUlid => Ulid
  | transfer _ => ℕ
  | sys _ => Except IoError Unit
  | readLink => Except IoError Bytes

variable (env : Env)

/-- A call in a world. -/
def performOs : (call : OsCall) → FileWorld → call.Reply × FileWorld
  | .newUlid, world => (env.newUlid world.calls, { world with calls := world.calls + 1 })
  | .transfer size, world => (env.write world.calls size, { world with calls := world.calls + 1 })
  | .sys call, world => ((perform world.file call).map fun _ => (), world.make call)
  | .readLink, world => (world.file.readLink, world.make .readHead)

abbrev Process := Program OsCall OsCall.Reply Failure

/-- The agreement of a process that runs alone with a handler. -/
abbrev Alone {Value : Type} (process : Process Value) (handler : FileOp Value) : Prop :=
  Program.Agrees (performOs env) process handler

/-! ## The upload as a process -/

namespace Process

def newUlid : Process Ulid := Program.make OsCall.newUlid

def transfer (size : ℕ) : Process ℕ := Program.make (OsCall.transfer size)

def sysCall (call : FsCall) : Process (Except IoError Unit) := Program.make (OsCall.sys call)

def readHead : Process (Except IoError Bytes) := Program.make OsCall.readLink

/-- A call of the operating system whose error is returned with `?`. -/
def tryCall (call : FsCall) : Process Unit := do
  let result ← sysCall call
  Program.ofExcept (result.mapError .io)

def uploadUlid (req : UploadArg) : Process Ulid :=
  if req.continuation.length = 0 then newUlid
  else
    Program.orFail (.status (.invalidArgument "invalid continuation token"))
      (ulidOfBytes req.continuation)

def writeBlob (blob data : Bytes) : Process Unit := do
  let count ← transfer data.length
  tryCall (.writeBlob blob (data.take count))

def publish (blob major minor serialPath : Bytes) : Process UploadResult := do
  tryCall (.rename blob major minor)
  tryCall (.linkHead serialPath)
  pure {}

def firstVersion (blob serialPath : Bytes) : Process UploadResult := do
  let serialPath := push serialPath (utf8 majorVersion1)
  tryCall (.createDirAll (utf8 majorVersion1))
  let serialPath := push serialPath (utf8 minorVersion0)
  publish blob (utf8 majorVersion1) (utf8 minorVersion0) serialPath

def reserveVersion (incTries : ℕ) (latestMajor : UInt64) (serialPath : Bytes) :
    Process (ℕ × UInt64 × Bytes) :=
  if _ : incTries ≤ 1000 then do
    let incTries := incTries + 1
    let latestMajor := latestMajor + 1
    let serialPath := push (pop serialPath) (utf8 (versionName latestMajor))
    let created ← sysCall (.createDir (utf8 (versionName latestMajor)))
    match created with
    | .ok () => pure (incTries, latestMajor, serialPath)
    | .error err =>
        if err ≠ .alreadyExists then Program.fail (.io err)
        else reserveVersion incTries latestMajor serialPath
  else pure (incTries, latestMajor, serialPath)
  termination_by 1001 - incTries

def nextVersion (blob headPath : Bytes) (latestMajor : UInt64) : Process UploadResult := do
  let (incTries, latestMajor, serialPath) ← reserveVersion 1 latestMajor headPath
  Program.rejectIf (incTries == 1000) failedToCreate
  let serialPath := push serialPath (utf8 (versionName 0))
  publish blob (utf8 (versionName latestMajor)) (utf8 (versionName 0)) serialPath

def finishUpload (req : UploadArg) (blob blobPath : Bytes) : Process UploadResult := do
  let serialPath := pop (pop blobPath)
  let headPath := push serialPath (utf8 headFileName)
  if !req.next then firstVersion blob serialPath
  else do
    let latestRealPath ← readHead
    match latestRealPath with
    | .error err =>
        if err ≠ .notFound then Program.fail (.io err)
        else firstVersion blob serialPath
    | .ok latestRealPath => do
        let latestMajor ← Program.ofExcept ((latestMajor latestRealPath).mapError .status)
        nextVersion blob headPath latestMajor

def receiveUpload (req : UploadArg) (ulid : Ulid) (blobsDir : Bytes) : Process UploadResult := do
  let blob := utf8 (blobFileName ulid)
  tryCall (.openBlob blob)
  writeBlob blob req.data.bytes
  if req.incomplete then pure { continuation := ulid.toBytes }
  else finishUpload req blob (push blobsDir blob)

def upload (req : UploadArg) : Process UploadResult := do
  let target ← Program.orFail (.status (.invalidArgument "target is required")) req.target
  let relpath ← Program.orFail (.status .panic) (strsToPath target.path)
  let blobsDir := push (push (utf8 storagePath) relpath) (utf8 blobsDirName)
  tryCall .createBlobsDir
  let ulid ← uploadUlid req
  receiveUpload req ulid blobsDir

/-! ## Alone -/

section Agreement

variable {env}

theorem sysCall_agrees (call : FsCall) :
    Alone env (sysCall call) (FileStorage.sysCall call) := fun _ => rfl

theorem readHead_agrees : Alone env readHead FileStorage.readHead := fun _ => rfl

theorem tryCall_agrees (call : FsCall) : Alone env (tryCall call) (FileStorage.tryCall call) :=
  (sysCall_agrees call).bind fun _ => .ofExcept _

theorem uploadUlid_agrees (req : UploadArg) :
    Alone env (uploadUlid req) (FileStorage.uploadUlid env req) := by
  rw [uploadUlid, FileStorage.uploadUlid]
  split
  · exact fun _ => rfl
  · exact .orFail _ _

theorem writeBlob_agrees (blob data : Bytes) :
    Alone env (writeBlob blob data) (FileStorage.writeBlob env blob data) := by
  apply Program.Agrees.bind
  · exact fun _ => rfl
  · exact fun _ => tryCall_agrees _

theorem publish_agrees (blob major minor serialPath : Bytes) :
    Alone env (publish blob major minor serialPath)
      (FileStorage.publish blob major minor serialPath) :=
  (tryCall_agrees _).bind fun _ => (tryCall_agrees _).bind fun _ => .pure _

theorem firstVersion_agrees (blob serialPath : Bytes) :
    Alone env (firstVersion blob serialPath) (FileStorage.firstVersion blob serialPath) :=
  (tryCall_agrees _).bind fun _ => publish_agrees _ _ _ _

theorem reserveVersion_agrees (incTries : ℕ) (latestMajor : UInt64) (serialPath : Bytes) :
    Alone env (reserveVersion incTries latestMajor serialPath)
      (FileStorage.reserveVersion incTries latestMajor serialPath) := by
  induction incTries, latestMajor, serialPath using reserveVersion.induct with
  | case1 incTries latestMajor serialPath more incTries' latestMajor' serialPath' ih =>
      rw [reserveVersion, FileStorage.reserveVersion, dif_pos more, dif_pos more]
      apply (sysCall_agrees _).bind
      intro created
      rcases created with err | _
      · dsimp only
        split
        · exact .fail _
        · exact ih
      · exact .pure _
  | case2 incTries latestMajor serialPath done =>
      rw [reserveVersion, FileStorage.reserveVersion, dif_neg done, dif_neg done]
      exact .pure _

theorem nextVersion_agrees (blob headPath : Bytes) (latestMajor : UInt64) :
    Alone env (nextVersion blob headPath latestMajor)
      (FileStorage.nextVersion blob headPath latestMajor) :=
  (reserveVersion_agrees _ _ _).bind fun _ =>
    (Program.Agrees.rejectIf _ _).bind fun _ => publish_agrees _ _ _ _

theorem finishUpload_agrees (req : UploadArg) (blob blobPath : Bytes) :
    Alone env (finishUpload req blob blobPath) (FileStorage.finishUpload req blob blobPath) := by
  rw [finishUpload, FileStorage.finishUpload]
  split
  · exact firstVersion_agrees _ _
  · apply readHead_agrees.bind
    intro latestRealPath
    rcases latestRealPath with err | target
    · dsimp only
      split
      · exact .fail _
      · exact firstVersion_agrees _ _
    · exact (Program.Agrees.ofExcept _).bind fun _ => nextVersion_agrees _ _ _

theorem receiveUpload_agrees (req : UploadArg) (ulid : Ulid) (blobsDir : Bytes) :
    Alone env (receiveUpload req ulid blobsDir)
      (FileStorage.receiveUpload env req ulid blobsDir) := by
  apply (tryCall_agrees _).bind
  intro _
  apply (writeBlob_agrees _ _).bind
  intro _
  split
  · exact .pure _
  · exact finishUpload_agrees _ _ _

/-- **An upload that runs alone does what the upload does.** -/
theorem upload_agrees (req : UploadArg) : Alone env (upload req) (FileStorage.upload env req) :=
  (Program.Agrees.orFail _ _).bind fun _ => (Program.Agrees.orFail _ _).bind fun _ =>
    (tryCall_agrees _).bind fun _ => (uploadUlid_agrees _).bind fun _ =>
      receiveUpload_agrees _ _ _

end Agreement

end Process

/-! ## Uploads that start together -/

/-- Uploads that start on the same file. -/
def uploading (start : FileWorld) (reqs : List UploadArg) :
    Machine FileWorld OsCall OsCall.Reply Failure UploadResult where
  scene := { state := start }
  programs := reqs.map Process.upload

/-- What they come to when their calls are made in some order. -/
def afterSchedule (env : Env) (start : FileWorld) (reqs : List UploadArg) (schedule : List ℕ) :
    Machine FileWorld OsCall OsCall.Reply Failure UploadResult :=
  runAll (Machine.next (performOs env)) (uploading start reqs) schedule

/-- The program of an upload at the start. -/
theorem uploading_program {start : FileWorld} {reqs : List UploadArg} {upload : ℕ}
    {program : Process UploadResult}
    (there : (uploading start reqs).programs[upload]? = some program) :
    ∃ req, reqs[upload]? = some req ∧ program = Process.upload req ∧ upload < reqs.length := by
  rw [uploading, List.getElem?_map, Option.map_eq_some_iff] at there
  obtain ⟨req, found, rfl⟩ := there
  exact ⟨req, found, rfl, (List.getElem?_eq_some_iff.mp found).1⟩

/-- What an upload has returned, when it has ended. -/
def answerOf (machine : Machine FileWorld OsCall OsCall.Reply Failure UploadResult) (upload : ℕ) :
    Option (Except Failure UploadResult) :=
  match machine.programs[upload]? with
  | some (.done result) => some result
  | _ => none

theorem answerOf_eq_some {machine : Machine FileWorld OsCall OsCall.Reply Failure UploadResult}
    {upload : ℕ} {result : Except Failure UploadResult}
    (answered : answerOf machine upload = some result) :
    machine.programs[upload]? = some (.done result) := by
  rw [answerOf] at answered
  split at answered
  · rename_i found
    rw [found, Option.some_inj.mp answered]
  · cases answered

end Yeetbox.FileStorage
