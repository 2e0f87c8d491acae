import Yeetbox.FileStorage.Ownership
import Yeetbox.FileStorage.Links

/-!
# Receiving the data of an upload while others run

An upload of one message draws a ULID, creates the blob of that name and writes its data to it. No
other upload touches that blob, so it has the data of the upload when the upload goes on to make a
version of it (`secured_upload`).
-/

set_option autoImplicit false

namespace Yeetbox.FileStorage

open Library Storage

/-- An upload that consists of one message. -/
structure OneMessage (req : UploadArg) : Prop extends Completing req where
  new : req.continuation = []

/-- The upload goes to the file of this path. -/
def GoesTo (relpath : Bytes) (req : UploadArg) : Prop :=
  ∃ target, req.target = some target ∧ strsToPath target.path = some relpath

theorem OneMessage.goesTo {req : UploadArg} (oneMessage : OneMessage req) :
    ∃ relpath, GoesTo relpath req := by
  obtain ⟨target, relpath, targeted, path⟩ := oneMessage.target
  exact ⟨relpath, target, targeted, path⟩

/-- The path of a blob in the directory of a file. -/
structure InBlobsDir (dir blobPath : Bytes) : Prop where
  absolute : Absolute (pop (pop blobPath))
  components : components (pop (pop blobPath)) = components dir

theorem inBlobsDir_push (relpath : Bytes) (ulid : Ulid) :
    InBlobsDir (fileDir relpath)
      (push (push (fileDir relpath) (utf8 blobsDirName)) (utf8 (blobFileName ulid))) where
  absolute := (((absolute_fileDir relpath).push _).push _).pop.pop
  components := components_pop_pop (absolute_fileDir relpath) isName_blobsDirName
    (isName_blobFileName ulid)

section Race

variable {env : Env} {race : Race} {horizon upload : ℕ} {scene : RaceScene} {call : OsCall}

/-! ## What an upload knows -/

/-- The upload has not created a directory and has not made the link. -/
structure Unpublished (upload : ℕ) (scene : RaceScene) : Prop where
  reserved : ∀ major, ¬ scene.Did upload (Reserving major)
  linked : ¬ scene.Did upload Linking

/-- The blob is that of the upload, and has the contents that the upload gave it. -/
structure Holding (env : Env) (horizon upload : ℕ) (blob : Bytes) (content : Option Bytes)
    (scene : RaceScene) : Prop where
  owns : OwnsBlob env scene upload blob
  content : scene.state.calls ≤ horizon → scene.state.file.blobs[blob]? = content

variable {blob : Bytes} {content : Option Bytes}

theorem Unpublished.later {later : RaceScene} (unpublished : Unpublished upload scene)
    (relied : Relied env race horizon upload scene later) : Unpublished upload later where
  reserved := fun major did => unpublished.reserved major ((relied.did _).mp did)
  linked := fun did => unpublished.linked ((relied.did _).mp did)

/-- A call that creates no directory and makes no link. -/
def isQuiet : OsCall → Bool
  | .sys (.createDir _) | .sys (.linkHead _) => false
  | _ => true

theorem Unpublished.make (unpublished : Unpublished upload scene) (quiet : isQuiet call = true) :
    Unpublished upload (scene.make (performOs env) upload call) where
  reserved := by
    intro major did
    rcases Scene.did_make.mp did with earlier | ⟨_, rfl, _⟩
    · exact unpublished.reserved major earlier
    · cases quiet
  linked := by
    intro did
    rcases Scene.did_make.mp did with earlier | ⟨_, ⟨target, rfl⟩, _⟩
    · exact unpublished.linked earlier
    · cases quiet

theorem Holding.later {later : RaceScene} (holding : Holding env horizon upload blob content scene)
    (relied : Relied env race horizon upload scene later) :
    Holding env horizon upload blob content later where
  owns := relied.owns holding.owns
  content := fun inTime => (relied.blob inTime holding.owns).trans
    (holding.content (relied.calls.trans inTime))

theorem Holding.make (holding : Holding env horizon upload blob content scene)
    (elsewhere : call.blob = none) :
    Holding env horizon upload blob content (scene.make (performOs env) upload call) where
  owns := holding.owns.make
  content := by
    have other : call.blob ≠ some blob := elsewhere ▸ (Option.some_ne_none blob).symm
    exact fun inTime => (scene_blobs other).trans
      (holding.content ((scene_calls scene upload call).trans inTime))

/-- Opening a blob that is not there creates it. -/
theorem Holding.opened (holding : Holding env horizon upload blob none scene) :
    Holding env horizon upload blob (some [])
      (scene.make (performOs env) upload (.sys (.openBlob blob))) := by
  refine ⟨holding.owns.make, fun inTime => ?_⟩
  refine (Table.get_insert_self _ _ _).trans ?_
  rw [holding.content inTime]
  rfl

/-- Data is written to the end of a blob. -/
theorem Holding.write {before : Bytes}
    (holding : Holding env horizon upload blob (some before) scene) (data : Bytes) :
    Holding env horizon upload blob (some (before ++ data))
      (scene.make (performOs env) upload (.sys (.writeBlob blob data))) := by
  refine ⟨holding.owns.make, fun inTime => ?_⟩
  refine (Table.get_insert_self _ _ _).trans ?_
  rw [holding.content inTime]
  rfl

/-- A ULID that is drawn in time names no blob that is there. -/
theorem RaceSound.fresh_blob (sound : RaceSound env race scene)
    (fresh : FreshFrom env race.start horizon) (inTime : scene.state.calls < horizon) :
    scene.state.file.blobs[drawnBlob env scene.state.calls]? = none := by
  by_contra there
  rcases sound.blobs there with before | ⟨owner, number, drew, same⟩
  · exact before (fresh.unused _ sound.calls inTime)
  · have below := sound.drawn drew
    obtain rfl := fresh.drawnBlob_inj inTime (below.trans inTime) same
    exact Nat.lt_irrefl _ below

/-! ## Receiving the data -/

variable {fresh : FreshFrom env race.start horizon}
  {post : Except Failure UploadResult → RaceScene → Prop}

/-- A call of the operating system and what comes after it. -/
theorem secured_tryCall {call : FsCall} {next : Unit → Process UploadResult}
    (holds : ∀ later, Relied env race horizon upload scene later → RaceSound env race later →
      ((upload < race.count ∧ Permits env race upload later (.sys call)) ∧
          race.rule upload later (.sys call)) ∧
        (RaceSound env race (later.make (performOs env) upload (.sys call)) →
          match perform later.state.file call with
          | .ok _ => (racing race fresh).Secured upload post (next ())
              (later.make (performOs env) upload (.sys call))
          | .error err => (racing race fresh).Secured upload post (.done (.error (.io err)))
              (later.make (performOs env) upload (.sys call)))) :
    (racing race fresh).Secured upload post (Process.tryCall call >>= next) scene := by
  rw [Process.tryCall, Program.bind_assoc]
  apply Discipline.Secured.make_bind
  intro later relied sound
  obtain ⟨permitted, onwards⟩ := holds later relied sound
  refine ⟨permitted, fun still => ?_⟩
  have rest := onwards still
  simp only [performOs]
  rcases result : perform later.state.file call with err | after
  · rw [result] at rest
    exact rest
  · rw [result] at rest
    exact rest

/-- The calls of an upload of one message before it finishes. -/
theorem upload_eq {req : UploadArg} (oneMessage : OneMessage req) {relpath : Bytes}
    (goesTo : GoesTo relpath req) : Process.upload req = (do
      Process.tryCall .createBlobsDir
      let ulid ← Process.newUlid
      Process.tryCall (.openBlob (utf8 (blobFileName ulid)))
      let count ← Process.transfer req.data.bytes.length
      Process.tryCall (.writeBlob (utf8 (blobFileName ulid)) (req.data.bytes.take count))
      Process.finishUpload req (utf8 (blobFileName ulid))
        (push (push (fileDir relpath) (utf8 blobsDirName)) (utf8 (blobFileName ulid)))) := by
  obtain ⟨target, targeted, path⟩ := goesTo
  rw [Process.upload, targeted, Program.orFail_some_bind, path, Program.orFail_some_bind,
    Process.uploadUlid, oneMessage.new, if_pos List.length_nil]
  simp only [Process.receiveUpload, Process.writeBlob, oneMessage.complete, Program.bind_assoc,
    Bool.false_eq_true, if_false, fileDir]

/-- An upload that has drawn its ULID knows its blob, which is not there yet. -/
theorem RaceSound.holding (sound : RaceSound env race scene)
    (fresh : FreshFrom env race.start horizon) (upload : ℕ) :
    Holding env horizon upload (drawnBlob env scene.state.calls) none
      (scene.make (performOs env) upload .newUlid) where
  owns := ⟨_, Scene.did_make.mpr (.inr ⟨rfl, rfl, rfl⟩), rfl⟩
  content := fun inTime => sound.fresh_blob fresh inTime

/-- The end of receiving: the data is written to the blob. -/
theorem secured_write {req : UploadArg} {blobPath : Bytes} (inRange : upload < race.count)
    (unpublished : Unpublished upload scene)
    (holding : Holding env horizon upload blob (some []) scene)
    (finish : ∀ content later, Unpublished upload later →
      Holding env horizon upload blob (some content) later →
      ((∀ call size, env.write call size = size) → content = req.data.bytes) →
      (racing race fresh).Secured upload post (Process.finishUpload req blob blobPath) later) :
    (racing race fresh).Secured upload post (do
      let count ← Process.transfer req.data.bytes.length
      Process.tryCall (.writeBlob blob (req.data.bytes.take count))
      Process.finishUpload req blob blobPath) scene := by
  apply Discipline.Secured.make_bind
  intro asked relied sound
  refine ⟨⟨⟨inRange, trivial⟩, race.lenient rfl⟩, fun _ => ?_⟩
  have unpublished : Unpublished upload (asked.make (performOs env) upload _) :=
    (unpublished.later relied).make (Eq.refl (isQuiet (.transfer req.data.bytes.length)))
  have holding : Holding env horizon upload blob (some [])
      (asked.make (performOs env) upload (.transfer req.data.bytes.length)) :=
    (holding.later relied).make rfl
  apply secured_tryCall
  intro later relied sound
  have holding := holding.later relied
  refine ⟨⟨⟨inRange, holding.owns⟩, race.lenient rfl⟩, fun _ => ?_⟩
  apply finish
  · exact (unpublished.later relied).make rfl
  · exact holding.write _
  · intro transfers
    rw [List.nil_append]
    apply List.take_of_length_le
    exact Nat.le_of_eq (transfers _ _).symm

/-- **An upload receives its data in a blob of its own**, and then finishes. -/
theorem secured_upload {req : UploadArg} (oneMessage : OneMessage req) {relpath : Bytes}
    (goesTo : GoesTo relpath req) (inRange : upload < race.count)
    (unpublished : Unpublished upload scene)
    (finish : ∀ blob blobPath content later, InBlobsDir (fileDir relpath) blobPath →
      Unpublished upload later → Holding env horizon upload blob (some content) later →
      ((∀ call size, env.write call size = size) → content = req.data.bytes) →
      (racing race fresh).Secured upload post (Process.finishUpload req blob blobPath) later) :
    (racing race fresh).Secured upload post (Process.upload req) scene := by
  rw [upload_eq oneMessage goesTo]
  apply secured_tryCall
  intro start relied sound
  refine ⟨⟨⟨inRange, trivial⟩, race.lenient rfl⟩, fun _ => ?_⟩
  have unpublished : Unpublished upload (start.make (performOs env) upload _) :=
    (unpublished.later relied).make (Eq.refl (isQuiet (.sys .createBlobsDir)))
  apply Discipline.Secured.make_bind
  intro drawn relied sound
  refine ⟨⟨⟨inRange, trivial⟩, race.lenient rfl⟩, fun _ => ?_⟩
  have unpublished : Unpublished upload (drawn.make (performOs env) upload _) :=
    (unpublished.later relied).make (Eq.refl (isQuiet .newUlid))
  have holding := sound.holding fresh upload
  apply secured_tryCall
  intro opened relied sound
  have holding := holding.later relied
  refine ⟨⟨⟨inRange, holding.owns⟩, race.lenient rfl⟩, fun _ => ?_⟩
  apply secured_write inRange ((unpublished.later relied).make rfl) holding.opened
  exact fun content later => finish _ _ content later (inBlobsDir_push relpath _)

/-! ## Reserving a version -/

/-- An upload that finds a directory taken has created none. -/
theorem Unpublished.make_taken {major : Bytes} (unpublished : Unpublished upload scene)
    (taken : Taken scene.state.file major) :
    Unpublished upload (scene.make (performOs env) upload (.sys (.createDir major))) where
  reserved := by
    intro other did
    rcases Scene.did_make.mp did with earlier | ⟨_, same, free⟩
    · exact unpublished.reserved other earlier
    · cases same
      exact free taken
  linked := by
    intro did
    rcases Scene.did_make.mp did with earlier | ⟨_, ⟨target, same⟩, _⟩
    · exact unpublished.linked earlier
    · cases same

/-- A round of the loop that reserves a version, while others run: it finds the directory taken and
goes on to the next one, or creates it. -/
theorem secured_round {incTries : ℕ} {latestMajor : UInt64} {serialPath : Bytes}
    {post : Except Failure (ℕ × UInt64 × Bytes) → RaceScene → Prop} (more : incTries ≤ 1000)
    (inRange : upload < race.count) (unpublished : Unpublished upload scene)
    (goesOn : ∀ later, Relied env race horizon upload scene later → RaceSound env race later →
      Taken later.state.file (utf8 (versionName (latestMajor + 1))) →
      (racing race fresh).Secured upload post
        (Process.reserveVersion (incTries + 1) (latestMajor + 1)
          (push (pop serialPath) (utf8 (versionName (latestMajor + 1)))))
        (later.make (performOs env) upload
          (.sys (.createDir (utf8 (versionName (latestMajor + 1)))))))
    (ends : ∀ later, Relied env race horizon upload scene later → RaceSound env race later →
      ¬ Taken later.state.file (utf8 (versionName (latestMajor + 1))) →
      (racing race fresh).Secured upload post
        (.done (.ok (incTries + 1, latestMajor + 1,
          push (pop serialPath) (utf8 (versionName (latestMajor + 1))))))
        (later.make (performOs env) upload
          (.sys (.createDir (utf8 (versionName (latestMajor + 1))))))) :
    (racing race fresh).Secured upload post
      (Process.reserveVersion incTries latestMajor serialPath) scene := by
  rw [Process.reserveVersion, dif_pos more]
  apply Discipline.Secured.make_bind
  intro later relied sound
  refine ⟨⟨⟨inRange, (unpublished.later relied).reserved⟩, race.lenient rfl⟩, fun _ => ?_⟩
  by_cases taken : Taken later.state.file (utf8 (versionName (latestMajor + 1)))
  · have rest := goesOn later relied sound taken
    rw [performOs, perform_createDir_of_taken taken]
    exact rest
  · have rest := ends later relied sound taken
    rw [performOs, perform_createDir_of_free taken]
    exact rest

end Race

end Yeetbox.FileStorage
