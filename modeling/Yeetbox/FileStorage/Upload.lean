import Yeetbox.FileStorage.Disk
import Yeetbox.Storage.Request

/-!
# Uploading to the file driver

An upload adds its data to the blob of a ULID. The last message of an upload then makes a version of
the blob, by renaming it. The first version of a file is 1.0. For the next version the upload reads
the link to the latest one and tries to create the directories of the major versions after it, one
after the other, until it creates one: that version is reserved, and the blob is renamed into it.
`upload_run` splits the upload into receiving the data and finishing, and `reserveVersion_run` says
where the loop ends.
-/

set_option autoImplicit false

namespace Yeetbox.FileStorage

open Library Storage Handler

/-- A file by its path; a path is bytes here. -/
structure FileId where
  path : List Bytes

structure UploadArg where
  target : Option FileId
  data : Payload
  next : Bool := false
  incomplete : Bool := false
  continuation : Bytes := []

variable (env : Env)

/-! ## The upload -/

/-- `Ulid::new()` for a new upload, and the ULID of the continuation token otherwise. -/
def uploadUlid (req : UploadArg) : FileOp Ulid :=
  if req.continuation.length = 0 then
    draw (fun world => env.newUlid world.calls) fun world => { world with calls := world.calls + 1 }
  else
    orFail (.status (.invalidArgument "invalid continuation token")) (ulidOfBytes req.continuation)

/-- `AsyncWriteExt::write` on the blob. -/
def writeBlob (blob data : Bytes) : FileOp Unit := do
  let count ← draw (fun world => env.write world.calls data.length) fun world =>
    { world with calls := world.calls + 1 }
  tryCall (.writeBlob blob (data.take count))

/-- The `rename` of the blob to a version and the `symlink` to it, with which every upload ends. -/
def publish (blob major minor serialPath : Bytes) : FileOp UploadResult := do
  tryCall (.rename blob major minor)
  tryCall (.linkHead serialPath)
  pure {}

/-- The blob becomes version 1.0, whether there is one or not. -/
def firstVersion (blob serialPath : Bytes) : FileOp UploadResult := do
  let serialPath := push serialPath (utf8 majorVersion1)
  tryCall (.createDirAll (utf8 majorVersion1))
  let serialPath := push serialPath (utf8 minorVersion0)
  publish blob (utf8 majorVersion1) (utf8 minorVersion0) serialPath

/-- The loop that reserves a major version. It ends after a directory was created, or when the tries
are used up, and returns its counter, the last major version that it tried, and its path. -/
def reserveVersion (incTries : ℕ) (latestMajor : UInt64) (serialPath : Bytes) :
    FileOp (ℕ × UInt64 × Bytes) :=
  if _ : incTries ≤ 1000 then do
    let incTries := incTries + 1
    -- The number wraps around at its end.
    let latestMajor := latestMajor + 1
    let serialPath := push (pop serialPath) (utf8 (versionName latestMajor))
    let created ← sysCall (.createDir (utf8 (versionName latestMajor)))
    match created with
    | .ok () => pure (incTries, latestMajor, serialPath)
    | .error err =>
        if err ≠ .alreadyExists then fail (.io err)
        else reserveVersion incTries latestMajor serialPath
  else pure (incTries, latestMajor, serialPath)
  termination_by 1001 - incTries

/-- The failure of an upload that finds no version to reserve. -/
def failedToCreate : Failure := .status (.internal "failed to create new version")

/-- The blob becomes the first version after the latest one that can be reserved. -/
def nextVersion (blob headPath : Bytes) (latestMajor : UInt64) : FileOp UploadResult := do
  let (incTries, latestMajor, serialPath) ← reserveVersion 1 latestMajor headPath
  -- The counter is one ahead of the tries, so it stands at 1000 after 999 of them.
  rejectIf (incTries == 1000) failedToCreate
  let serialPath := push serialPath (utf8 (versionName 0))
  publish blob (utf8 (versionName latestMajor)) (utf8 (versionName 0)) serialPath

/-- The part of `upload` after the exit for incomplete uploads. -/
def finishUpload (req : UploadArg) (blob blobPath : Bytes) : FileOp UploadResult := do
  let serialPath := pop (pop blobPath)
  let headPath := push serialPath (utf8 headFileName)
  if !req.next then firstVersion blob serialPath
  else do
    let latestRealPath ← readHead
    match latestRealPath with
    | .error err =>
        if err ≠ .notFound then fail (.io err)
        else firstVersion blob serialPath
    | .ok latestRealPath => do
        let latestMajor ← ofExcept ((latestMajor latestRealPath).mapError .status)
        nextVersion blob headPath latestMajor

/-- The part of `upload` after its ULID was determined. -/
def receiveUpload (req : UploadArg) (ulid : Ulid) (blobsDir : Bytes) : FileOp UploadResult := do
  let blob := utf8 (blobFileName ulid)
  tryCall (.openBlob blob)
  writeBlob env blob req.data.bytes
  if req.incomplete then pure { continuation := ulid.toBytes }
  else finishUpload req blob (push blobsDir blob)

def upload (req : UploadArg) : FileOp UploadResult := do
  let target ← orFail (.status (.invalidArgument "target is required")) req.target
  let relpath ← orFail (.status .panic) (strsToPath target.path)
  let blobsDir := push (push (utf8 storagePath) relpath) (utf8 blobsDirName)
  tryCall .createBlobsDir
  let ulid ← uploadUlid env req
  receiveUpload env req ulid blobsDir

/-! ## Receiving the data -/

/-- The last message of an upload that can be received: its target is a path of UTF-8 names, and its
token is empty or that of a ULID. -/
structure Completing (req : UploadArg) : Prop where
  complete : req.incomplete = false
  target : ∃ target relpath, req.target = some target ∧ strsToPath target.path = some relpath
  token : req.continuation = [] ∨ ∃ ulid, ulidOfBytes req.continuation = some ulid

/-- Calls were made since, and none of them renames anything. -/
def RenamesNothing (start later : FileWorld) : Prop :=
  ∃ calls, (∀ made ∈ calls, made.target = none) ∧ later.log = start.log ++ calls

theorem RenamesNothing.refl {start later : FileWorld} (same : later.log = start.log) :
    RenamesNothing start later :=
  ⟨[], fun _ member => absurd member List.not_mem_nil, by rw [same, List.append_nil]⟩

theorem RenamesNothing.trans {start middle later : FileWorld}
    (first : RenamesNothing start middle) (second : RenamesNothing middle later) :
    RenamesNothing start later := by
  obtain ⟨calls, none, log⟩ := first
  obtain ⟨more, none', log'⟩ := second
  refine ⟨calls ++ more, fun made member => ?_, by rw [log', log, List.append_assoc]⟩
  exact (List.mem_append.mp member).elim (none made) (none' made)

/-- Another call that renames nothing. -/
theorem RenamesNothing.make {start later : FileWorld} (nothing : RenamesNothing start later)
    {call : FsCall} (other : (Made.mk call later.file).target = none) :
    RenamesNothing start (later.make call) := by
  refine nothing.trans ⟨[⟨call, later.file⟩], fun made member => ?_, rfl⟩
  rw [List.mem_singleton.mp member, other]

/-- The data of an upload is in a blob, and nothing else was changed in the directory. -/
structure Received (start later : FileWorld) (blob : Bytes) : Prop where
  blob : ∃ content, later.file.blobs[blob]? = some content
  versions : later.file.versions = start.file.versions
  head : later.file.head = start.file.head
  log : RenamesNothing start later

/-- A completing upload has a ULID, and asking for it leaves the directory alone. -/
theorem run_uploadUlid_bind {Next : Type} {req : UploadArg} (completing : Completing req)
    (next : Ulid → FileOp Next) (world : FileWorld) :
    ∃ ulid calls, (uploadUlid env req >>= next).run world =
      (next ulid).run { world with calls := calls } := by
  rw [uploadUlid]
  split
  · exact ⟨_, _, rfl⟩
  · rename_i presented
    rcases completing.token with new | ⟨ulid, token⟩
    · exact absurd (List.length_eq_zero_iff.mpr new) presented
    · rw [token]
      exact ⟨ulid, world.calls, rfl⟩

/-- The data is received by three calls that rename nothing. -/
theorem run_receiveUpload {req : UploadArg} (complete : req.incomplete = false) (ulid : Ulid)
    (blobsDir : Bytes) (world : FileWorld) :
    ∃ later stops, Received world later (utf8 (blobFileName ulid)) ∧
      (receiveUpload env req ulid blobsDir).run world =
        ((finishUpload req (utf8 (blobFileName ulid))
          (push blobsDir (utf8 (blobFileName ulid)))).run later).after stops := by
  rw [receiveUpload, run_tryCall_ok_bind rfl, writeBlob, run_bind_assoc, run_draw_bind,
    run_tryCall_ok_bind rfl, complete, if_neg Bool.false_ne_true, Outcome.after_after]
  refine ⟨_, _, ?_, rfl⟩
  refine ⟨⟨_, Table.get_insert_self _ _ _⟩, rfl, rfl, ?_⟩
  have opened : RenamesNothing world (world.make (.openBlob (utf8 (blobFileName ulid)))) :=
    (RenamesNothing.refl rfl).make rfl
  exact .make (.trans opened (.refl rfl)) rfl

/-- **A completing upload receives its data and finishes.** -/
theorem upload_run {req : UploadArg} (completing : Completing req) (world : FileWorld) :
    ∃ blob blobPath later stops, Received world later blob ∧
      (upload env req).run world = ((finishUpload req blob blobPath).run later).after stops := by
  obtain ⟨target, relpath, targeted, path⟩ := completing.target
  rw [upload, targeted, run_orFail_some_bind, path, run_orFail_some_bind]
  dsimp only
  rw [run_tryCall_ok_bind rfl]
  generalize push (push (utf8 storagePath) relpath) (utf8 blobsDirName) = blobsDir
  obtain ⟨ulid, calls, drawn⟩ := run_uploadUlid_bind env completing
    (fun ulid => receiveUpload env req ulid blobsDir) (world.make .createBlobsDir)
  obtain ⟨later, stops, received, run⟩ := run_receiveUpload env completing.complete ulid blobsDir
    { world.make .createBlobsDir with calls := calls }
  rw [drawn, run, Outcome.after_after]
  refine ⟨_, _, later, _, ⟨received.blob, received.versions, received.head, ?_⟩, rfl⟩
  have made : RenamesNothing world (world.make .createBlobsDir) :=
    (RenamesNothing.refl rfl).make rfl
  exact .trans (.trans made (.refl rfl)) received.log

/-! ## Reserving a version -/

/-- The directory of a major version that the loop tries, counted from 0. -/
def candidate (latestMajor : UInt64) (tried : ℕ) : Bytes :=
  utf8 (versionName (latestMajor + .ofNat tried + 1))

/-- The first candidate that is not there. -/
structure FirstFree (file : StoredFile) (latestMajor : UInt64) (tried : ℕ) : Prop where
  free : ¬ Taken file (candidate latestMajor tried)
  taken : ∀ earlier < tried, Taken file (candidate latestMajor earlier)

/-- All candidates after the latest major version are there. -/
def AllTaken (file : StoredFile) (latestMajor : UInt64) : Prop :=
  ∀ tried < 1000, Taken file (candidate latestMajor tried)

theorem FirstFree.unique {file : StoredFile} {latestMajor : UInt64} {first second : ℕ}
    (here : FirstFree file latestMajor first) (there : FirstFree file latestMajor second) :
    first = second := by
  rcases Nat.lt_trichotomy first second with less | same | more
  · exact absurd (there.taken first less) here.free
  · exact same
  · exact absurd (here.taken second more) there.free

theorem FirstFree.not_allTaken {file : StoredFile} {latestMajor : UInt64} {tried : ℕ}
    (first : FirstFree file latestMajor tried) (inRange : tried < 1000) :
    ¬ AllTaken file latestMajor :=
  fun all => first.free (all tried inRange)

/-- Where the loop ends: it has created the first directory that was free, or it has tried all. -/
inductive Reserves (latestMajor : UInt64) (world : FileWorld) :
    ℕ × UInt64 × Bytes → FileWorld → Prop where
  | reserved (tried : ℕ) (serialPath : Bytes) (middle later : FileWorld)
      (inRange : tried < 1000) (first : FirstFree world.file latestMajor tried)
      (same : middle.file = world.file)
      (nothing : RenamesNothing world middle)
      (result : later = middle.make (.createDir (candidate latestMajor tried))) :
      Reserves latestMajor world (tried + 2, latestMajor + .ofNat tried + 1, serialPath) later
  | exhausted (serialPath : Bytes) (later : FileWorld)
      (all : AllTaken world.file latestMajor)
      (same : later.file = world.file)
      (nothing : RenamesNothing world later) :
      Reserves latestMajor world (1001, latestMajor + .ofNat 1000, serialPath) later

/-- A round of the loop that creates its directory is the last one. -/
theorem run_reserveVersion_free {incTries : ℕ} {latestMajor : UInt64} {serialPath : Bytes}
    {world : FileWorld} {after : StoredFile} (more : incTries ≤ 1000)
    (ok : perform world.file (.createDir (utf8 (versionName (latestMajor + 1)))) = .ok after) :
    (reserveVersion incTries latestMajor serialPath).run world =
      ⟨.ok (incTries + 1, latestMajor + 1,
          push (pop serialPath) (utf8 (versionName (latestMajor + 1)))),
        world.make (.createDir (utf8 (versionName (latestMajor + 1)))),
        [world.make (.createDir (utf8 (versionName (latestMajor + 1))))]⟩ := by
  rw [reserveVersion, dif_pos more, run_sysCall_bind, ok]
  rfl

/-- A round of the loop that finds its directory taken goes on to the next one. -/
theorem run_reserveVersion_taken {incTries : ℕ} {latestMajor : UInt64} {serialPath : Bytes}
    {world : FileWorld} (more : incTries ≤ 1000)
    (failed : perform world.file (.createDir (utf8 (versionName (latestMajor + 1)))) =
      .error .alreadyExists) :
    (reserveVersion incTries latestMajor serialPath).run world =
      ((reserveVersion (incTries + 1) (latestMajor + 1)
        (push (pop serialPath) (utf8 (versionName (latestMajor + 1))))).run
          (world.make (.createDir (utf8 (versionName (latestMajor + 1)))))).after
        [world.make (.createDir (utf8 (versionName (latestMajor + 1))))] := by
  rw [reserveVersion, dif_pos more, run_sysCall_bind, failed]
  dsimp only [Except.map]
  rw [if_neg (not_not.mpr rfl)]

/-- The rest of the loop, after some directories were found taken. -/
theorem reserveVersion_run_from {latestMajor : UInt64} {world middle : FileWorld}
    {left tried : ℕ} (serialPath : Bytes) (all : tried + left = 1000)
    (taken : ∀ earlier < tried, Taken world.file (candidate latestMajor earlier))
    (same : middle.file = world.file) (nothing : RenamesNothing world middle) :
    ∃ value later stops,
      (reserveVersion (tried + 1) (latestMajor + .ofNat tried) serialPath).run middle =
        ⟨.ok value, later, stops⟩ ∧ Reserves latestMajor world value later := by
  induction left generalizing tried serialPath middle with
  | zero =>
      obtain rfl : tried = 1000 := all
      rw [reserveVersion, dif_neg (by decide)]
      exact ⟨_, _, _, rfl, .exhausted serialPath middle taken same nothing⟩
  | succ left ih =>
      by_cases here : Taken world.file (candidate latestMajor tried)
      · -- The call fails, and the loop goes on to the next directory.
        have failed := perform_createDir_of_taken (same.symm ▸ here)
        have takenNext : ∀ earlier < tried + 1,
            Taken world.file (candidate latestMajor earlier) := by
          intro earlier less
          rcases Nat.lt_succ_iff_lt_or_eq.mp less with before | rfl
          · exact taken earlier before
          · exact here
        have later := ih (push (pop serialPath) (candidate latestMajor tried)) (by omega) takenNext
          ((FileWorld.make_file_of_error failed).trans same) (nothing.make rfl)
        rw [UInt64.ofNat_add, ← UInt64.add_assoc] at later
        obtain ⟨value, reached, stops, run, ends⟩ := later
        rw [run_reserveVersion_taken (by omega) failed]
        exact ⟨value, reached, _, congrArg (Outcome.after _) run, ends⟩
      · have ok := perform_createDir_of_free (same.symm ▸ here)
        rw [run_reserveVersion_free (by omega) ok]
        exact ⟨_, _, _, rfl, .reserved tried _ middle _ (by omega) ⟨here, taken⟩ same nothing rfl⟩

/-- **The loop ends** with a directory that it has created, or with all of them tried. -/
theorem reserveVersion_run (latestMajor : UInt64) (serialPath : Bytes) (world : FileWorld) :
    ∃ value later stops,
      (reserveVersion 1 latestMajor serialPath).run world = ⟨.ok value, later, stops⟩ ∧
        Reserves latestMajor world value later := by
  have run := @reserveVersion_run_from latestMajor world world 1000 0 serialPath (Nat.zero_add _)
    (fun _ less => absurd less (Nat.not_lt_zero _)) rfl (.refl rfl)
  have start : latestMajor + .ofNat 0 = latestMajor := UInt64.add_zero latestMajor
  rwa [start, Nat.zero_add] at run

/-! ## Finishing -/

/-- A blob was renamed to a version, and then the link to the latest version was made, or could not
be made. -/
structure Publishes (world : FileWorld) (blob major minor : Bytes)
    (outcome : Outcome FileWorld Failure UploadResult) : Prop where
  log : ∃ target linked, outcome.state.log =
    world.log ++ [⟨.rename blob major minor, world.file⟩, ⟨.linkHead target, linked⟩]
  result : outcome.result ≠ .error failedToCreate

/-- The end of an upload, when the blob and the directory of the version are there. -/
theorem publish_run {world : FileWorld} {blob major content : Bytes} {minors : Table Bytes Bytes}
    (there : world.file.blobs[blob]? = some content)
    (found : world.file.versions[major]? = some minors) (minor serialPath : Bytes) :
    Publishes world blob major minor ((publish blob major minor serialPath).run world) := by
  have renamed : perform world.file (.rename blob major minor) = .ok { world.file with
      blobs := world.file.blobs.erase blob
      versions := world.file.versions.insert major (minors.insert minor content) } := by
    rw [perform, there, found]
  rw [publish, run_tryCall_ok_bind renamed]
  rcases linked : perform (world.make (.rename blob major minor)).file (.linkHead serialPath) with
    err | after
  · rw [run_tryCall_error_bind linked]
    refine ⟨⟨serialPath, (world.make (.rename blob major minor)).file, ?_⟩, fun same => ?_⟩
    · rw [Outcome.after_state, FileWorld.make_log, FileWorld.make_log, List.append_assoc]
      rfl
    · cases same
  · rw [run_tryCall_ok_bind linked]
    refine ⟨⟨serialPath, (world.make (.rename blob major minor)).file, ?_⟩, fun same => ?_⟩
    · rw [Outcome.after_state, Outcome.after_state, run_pure, FileWorld.make_log,
        FileWorld.make_log, List.append_assoc]
      rfl
    · cases same

/-- The end of an upload in a directory that was just created. -/
theorem publish_run_created {world : FileWorld} {blob major content : Bytes}
    (free : ¬ Taken world.file major) (there : world.file.blobs[blob]? = some content)
    (minor serialPath : Bytes) :
    Publishes (world.make (.createDir major)) blob major minor
      ((publish blob major minor serialPath).run (world.make (.createDir major))) := by
  have created := FileWorld.make_file_of_ok (perform_createDir_of_free free)
  apply @publish_run _ _ _ content ∅
  · rw [created]
    exact there
  · rw [created]
    exact Table.get_insert_self _ _ _

/-- The end of an upload in a directory that is there, or was just created. -/
theorem publish_run_createDirAll {world : FileWorld} {blob content : Bytes}
    (there : world.file.blobs[blob]? = some content) (major minor serialPath : Bytes) :
    Publishes (world.make (.createDirAll major)) blob major minor
      ((publish blob major minor serialPath).run (world.make (.createDirAll major))) := by
  apply @publish_run _ _ _ content (world.file.versions[major]?.getD ∅)
  · exact there
  · exact Table.get_insert_self _ _ _

/-- The major version that a valid link to the latest version names. -/
def StoredFile.headMajor (file : StoredFile) : Option UInt64 :=
  file.readLink.toOption.bind fun target => (latestMajor target).toOption

theorem StoredFile.headMajor_of_head_none {file : StoredFile} (empty : file.head = none) :
    file.headMajor = none := by
  rw [headMajor, file.readLink_notFound_iff.mpr empty]
  rfl

/-- The upload makes the first version of the file. -/
def MakesFirst (file : StoredFile) (req : UploadArg) : Prop :=
  req.next = false ∨ file.head = none

/-- What the end of an upload can do: make the first version, stop at a link that names no version,
publish a version that it reserved, refuse one that it reserved with its second but last try, or
publish in the directory that it tried last. -/
inductive FinishCases (world : FileWorld) (req : UploadArg) (blob : Bytes) :
    Outcome FileWorld Failure UploadResult → Prop where
  | first (before : FileWorld) (outcome : Outcome FileWorld Failure UploadResult)
      (way : MakesFirst world.file req)
      (kept : before.file.versionFile (utf8 majorVersion1) (utf8 minorVersion0) =
        world.file.versionFile (utf8 majorVersion1) (utf8 minorVersion0))
      (nothing : RenamesNothing world before)
      (publishes : Publishes before blob (utf8 majorVersion1) (utf8 minorVersion0) outcome) :
      FinishCases world req blob outcome
  | stopped (outcome : Outcome FileWorld Failure UploadResult)
      (next : req.next = true) (linked : world.file.head ≠ none)
      (noMajor : world.file.headMajor = none)
      (nothing : RenamesNothing world outcome.state) :
      FinishCases world req blob outcome
  | reserved (latest : UInt64) (tried : ℕ) (middle : FileWorld)
      (outcome : Outcome FileWorld Failure UploadResult)
      (next : req.next = true) (linked : world.file.headMajor = some latest)
      (inRange : tried < 1000) (counted : tried ≠ 998)
      (first : FirstFree world.file latest tried)
      (same : middle.file = world.file)
      (nothing : RenamesNothing world middle)
      (publishes : Publishes (middle.make (.createDir (candidate latest tried))) blob
        (candidate latest tried) (utf8 (versionName 0)) outcome) :
      FinishCases world req blob outcome
  | refused (latest : UInt64) (outcome : Outcome FileWorld Failure UploadResult)
      (next : req.next = true) (linked : world.file.headMajor = some latest)
      (first : FirstFree world.file latest 998)
      (nothing : RenamesNothing world outcome.state)
      (result : outcome.result = .error failedToCreate) :
      FinishCases world req blob outcome
  | exhausted (latest : UInt64) (outcome : Outcome FileWorld Failure UploadResult)
      (next : req.next = true) (linked : world.file.headMajor = some latest)
      (all : AllTaken world.file latest)
      (result : outcome.result ≠ .error failedToCreate) :
      FinishCases world req blob outcome

theorem FinishCases.after {world : FileWorld} {req : UploadArg} {blob : Bytes}
    {outcome : Outcome FileWorld Failure UploadResult}
    (finishes : FinishCases world req blob outcome) (stops : List FileWorld) :
    FinishCases world req blob (outcome.after stops) := by
  cases finishes with
  | first before outcome way kept nothing publishes =>
      exact .first before _ way kept nothing ⟨publishes.log, publishes.result⟩
  | stopped outcome next linked noMajor nothing => exact .stopped _ next linked noMajor nothing
  | reserved latest tried middle outcome next linked inRange counted first same nothing
      publishes =>
      exact .reserved latest tried middle _ next linked inRange counted first same nothing
        ⟨publishes.log, publishes.result⟩
  | refused latest outcome next linked first nothing result =>
      exact .refused latest _ next linked first nothing result
  | exhausted latest outcome next linked all result =>
      exact .exhausted latest _ next linked all result

theorem firstVersion_run {world start : FileWorld} {req : UploadArg} {blob content : Bytes}
    (serialPath : Bytes) (way : MakesFirst start.file req)
    (same : world.file = start.file) (nothing : RenamesNothing start world)
    (there : start.file.blobs[blob]? = some content) :
    FinishCases start req blob ((firstVersion blob serialPath).run world) := by
  have stays : world.file.blobs[blob]? = some content := same.symm ▸ there
  have publishes := publish_run_createDirAll stays (utf8 majorVersion1) (utf8 minorVersion0)
    (push (push serialPath (utf8 majorVersion1)) (utf8 minorVersion0))
  rw [firstVersion]
  dsimp only
  rw [run_tryCall_ok_bind rfl]
  refine .first _ _ way ?_ (nothing.make rfl) ⟨publishes.log, publishes.result⟩
  rw [← same]
  exact versionFile_createDirAll world.file _ _ _

theorem nextVersion_run {world start : FileWorld} {req : UploadArg} {blob content : Bytes}
    {latest : UInt64} (headPath : Bytes) (next : req.next = true)
    (linked : start.file.headMajor = some latest)
    (same : world.file = start.file) (nothing : RenamesNothing start world)
    (there : start.file.blobs[blob]? = some content) :
    FinishCases start req blob ((nextVersion blob headPath latest).run world) := by
  obtain ⟨value, later, stops, run, ends⟩ := reserveVersion_run latest headPath world
  rw [nextVersion, run_bind, run, resume_ok]
  cases ends with
  | reserved tried serialPath middle later inRange first kept quiet result =>
      rw [result]
      dsimp only
      by_cases last : tried = 998
      · -- The counter stands at 1000, as if no directory had been created.
        subst last
        rw [same] at first
        exact .refused latest _ next linked first ((nothing.trans quiet).make rfl) rfl
      · have counted : (tried + 2 == 1000) = false := by
          rw [beq_eq_false_iff_ne]
          omega
        have stays : middle.file.blobs[blob]? = some content := (kept.trans same).symm ▸ there
        have publishes := publish_run_created (kept.symm ▸ first.free) stays (utf8 (versionName 0))
          (push serialPath (utf8 (versionName 0)))
        rw [counted, run_rejectIf_false_bind]
        rw [same] at first
        exact .reserved latest tried middle _ next linked inRange last first (kept.trans same)
          (nothing.trans quiet) ⟨publishes.log, publishes.result⟩
  | exhausted serialPath later all kept quiet =>
      have tried : latest + .ofNat 999 + 1 = latest + .ofNat 1000 := UInt64.add_assoc _ _ _
      obtain ⟨minors, found⟩ := Option.ne_none_iff_exists'.mp (all 999 (by decide))
      rw [candidate, tried, ← kept] at found
      have stays : later.file.blobs[blob]? = some content := (kept.trans same).symm ▸ there
      have publishes := publish_run stays found (utf8 (versionName 0))
        (push serialPath (utf8 (versionName 0)))
      rw [same] at all
      exact .exhausted latest _ next linked all publishes.result

/-- **A received upload finishes in one of these ways.** -/
theorem finishUpload_cases {world : FileWorld} {req : UploadArg} {blob content : Bytes}
    (blobPath : Bytes) (there : world.file.blobs[blob]? = some content) :
    FinishCases world req blob ((finishUpload req blob blobPath).run world) := by
  rw [finishUpload]
  rcases next : req.next with _ | _
  · exact firstVersion_run _ (.inl next) rfl (.refl rfl) there
  rw [Bool.not_true, if_neg Bool.false_ne_true, run_readHead_bind]
  have same := world.make_readHead_file
  have nothing : RenamesNothing world (world.make .readHead) := (RenamesNothing.refl rfl).make rfl
  rcases link : world.file.readLink with err | target
  · have noMajor : world.file.headMajor = none := by
      rw [StoredFile.headMajor, link]
      rfl
    dsimp only
    split
    · rename_i otherwise
      refine .stopped _ next (fun empty => otherwise ?_) noMajor nothing
      exact Except.error.inj (link.symm.trans (world.file.readLink_notFound_iff.mpr empty))
    · rename_i notFound
      rw [not_not.mp notFound, StoredFile.readLink_notFound_iff] at link
      exact (firstVersion_run _ (.inr link) same nothing there).after _
  · have linked : world.file.head ≠ none := by
      intro empty
      rw [world.file.readLink_notFound_iff.mpr empty] at link
      cases link
    have major : world.file.headMajor = (latestMajor target).toOption := by
      rw [StoredFile.headMajor, link]
      rfl
    dsimp only
    rcases named : latestMajor target with err | latest
    · rw [named] at major
      exact .stopped _ next linked major nothing
    · rw [named] at major
      exact (nextVersion_run _ next major same nothing there).after _

end Yeetbox.FileStorage
