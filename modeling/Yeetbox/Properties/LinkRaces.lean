import Yeetbox.FileStorage.Receiving
import Yeetbox.Properties.Reservations

/-!
# Uploads that race for the link

An upload makes the link to the latest version last, and no call ever replaces it. So of the uploads
that run at the same time at most one succeeds, the one that makes the link, and none when there was
a link before (`one_upload_links`). What an upload links to is the version that it has just made.
-/

set_option autoImplicit false

namespace Yeetbox.FileStorage

open Library Storage

section Race

variable {env : Env} {race : Race} {horizon upload : ℕ} {scene : RaceScene}
  {fresh : FreshFrom env race.start horizon}

/-- An upload succeeds exactly when it has made the link, and there is a link when it ends. -/
def EndsLinked (horizon upload : ℕ) (result : Except Failure UploadResult) (scene : RaceScene) :
    Prop :=
  ((∃ value, result = .ok value) ↔ scene.Did upload Linking) ∧
    (scene.state.calls ≤ horizon → scene.state.file.head ≠ none)

/-- The upload has not made the link, and there is one. -/
structure Beaten (horizon upload : ℕ) (scene : RaceScene) : Prop where
  linked : ¬ scene.Did upload Linking
  head : scene.state.calls ≤ horizon → scene.state.file.head ≠ none

theorem Beaten.later {later : RaceScene} (beaten : Beaten horizon upload scene)
    (relied : Relied env race horizon upload scene later) : Beaten horizon upload later where
  linked := fun did => beaten.linked ((relied.did _).mp did)
  head := by
    intro inTime
    have linked := beaten.head (relied.calls.trans inTime)
    rw [relied.head linked]
    exact linked

theorem Beaten.ends (beaten : Beaten horizon upload scene) (err : Failure) :
    EndsLinked horizon upload (.error err) scene := by
  refine ⟨iff_of_false ?_ beaten.linked, beaten.head⟩
  rintro ⟨value, same⟩
  cases same

theorem Beaten.failed (beaten : Beaten horizon upload scene) (err : Failure) :
    (racing race fresh).Secured upload (EndsLinked horizon upload) (.done (.error err)) scene :=
  Discipline.Secured.done fun _ relied _ => (beaten.later relied).ends err

/-- An upload that has not made the link, after others went on and it made another call. -/
theorem unlinked_make {call : OsCall} {later : RaceScene} (unlinked : ¬ scene.Did upload Linking)
    (relied : Relied env race horizon upload scene later) (other : ¬ Linking call later.state) :
    ¬ (later.make (performOs env) upload call).Did upload Linking := by
  intro did
  rcases Scene.did_make.mp did with earlier | ⟨_, linking⟩
  · exact unlinked ((relied.did _).mp earlier)
  · exact other linking

theorem not_linking {call : OsCall} {before : FileWorld}
    (other : ∀ target, call ≠ .sys (.linkHead target)) : ¬ Linking call before :=
  fun linking => linking.1.elim other

/-! ## What an upload makes seen -/

variable {dir blob major minor content serialPath : Bytes}

/-- The target leads to a version that is there, as long as the link can still be made. -/
def ReadyToLink (horizon : ℕ) (dir target : Bytes) (scene : RaceScene) : Prop :=
  scene.state.calls ≤ horizon → scene.state.file.head = none →
    LeadsToVersion dir target scene.state.file

theorem ReadyToLink.later {later : RaceScene} {target : Bytes}
    (ready : ReadyToLink horizon dir target scene)
    (relied : Relied env race horizon upload scene later) :
    ReadyToLink horizon dir target later := by
  intro inTime missing
  have before : scene.state.file.head = none := by
    by_contra linked
    rw [relied.head linked] at missing
    exact linked missing
  obtain ⟨version, leads, there⟩ := ready (relied.calls.trans inTime) before
  exact ⟨version, leads, relied.files there⟩

/-- The rule of the race lets an upload rename the blob that it holds, and link to a version. -/
structure Obeys (env : Env) (race : Race) (horizon upload : ℕ) (dir content : Bytes) : Prop where
  rename : ∀ {scene blob} major minor, Holding env horizon upload blob (some content) scene →
    race.rule upload scene (.sys (.rename blob major minor))
  link : ∀ {scene target}, ReadyToLink horizon dir target scene →
    race.rule upload scene (.sys (.linkHead target))

/-- The last call of an upload. -/
theorem secured_link (inRange : upload < race.count)
    (obeys : Obeys env race horizon upload dir content)
    (unlinked : ¬ scene.Did upload Linking) {target : Bytes}
    (ready : ReadyToLink horizon dir target scene) :
    (racing race fresh).Secured upload (EndsLinked horizon upload) (do
      Process.tryCall (.linkHead target)
      pure {}) scene := by
  apply secured_tryCall
  intro later relied sound
  refine ⟨⟨⟨inRange, trivial⟩, obeys.link (ready.later relied)⟩, fun _ => ?_⟩
  rcases head : later.state.file.head with _ | entry
  · have linking : Linking (.sys (.linkHead target)) later.state := ⟨⟨target, rfl⟩, head⟩
    rw [perform, head]
    apply Discipline.Secured.done
    intro last further _
    refine ⟨iff_of_true ⟨_, rfl⟩ ?_, fun _ => ?_⟩
    · exact (further.did _).mpr (Scene.did_make.mpr (.inr ⟨rfl, linking⟩))
    · rw [further.head (scene_head_of_linking linking)]
      exact scene_head_of_linking linking
  · rw [perform, head]
    refine Beaten.failed ⟨unlinked_make unlinked relied fun linking => ?_, fun _ => ?_⟩ _
    · exact Option.some_ne_none entry (head.symm.trans linking.2)
    · have linked : later.state.file.head ≠ none := head ▸ Option.some_ne_none entry
      rw [scene_head_of_linked linked]
      exact linked

/-- A `rename` of a blob that the upload holds to a directory that is there. -/
theorem Holding.renamed (holding : Holding env horizon upload blob (some content) scene)
    (taken : Taken scene.state.file major) {err : IoError}
    (failed : perform scene.state.file (.rename blob major minor) = .error err) :
    ¬ scene.state.calls ≤ horizon := by
  intro inTime
  obtain ⟨minors, found⟩ := Option.ne_none_iff_exists'.mp taken
  rw [perform_rename (holding.content inTime) found] at failed
  cases failed

/-- The end of an upload that renames its blob to a directory that is there, or that comes too late
for the link. -/
theorem secured_publish (inRange : upload < race.count)
    (obeys : Obeys env race horizon upload dir content) (opened : race.opened major)
    (holding : Holding env horizon upload blob (some content) scene)
    (unlinked : ¬ scene.Did upload Linking)
    (ready : Taken scene.state.file major ∧ versionAt dir serialPath = some (major, minor) ∨
      scene.state.file.head ≠ none) :
    (racing race fresh).Secured upload (EndsLinked horizon upload)
      (Process.publish blob major minor serialPath) scene := by
  apply secured_tryCall
  intro later relied sound
  have holding := holding.later relied
  refine ⟨⟨⟨inRange, holding.owns, .inl opened⟩, obeys.rename major minor holding⟩, fun _ => ?_⟩
  have unlinked : ¬ (later.make (performOs env) upload (.sys (.rename blob major minor))).Did upload
      Linking := unlinked_make unlinked relied (not_linking nofun)
  have stillLinked : scene.state.file.head ≠ none →
      (later.make (performOs env) upload (.sys (.rename blob major minor))).state.file.head ≠
        none := by
    intro linked
    have still : later.state.file.head ≠ none := by
      rw [relied.head linked]
      exact linked
    rw [scene_head_of_linked still]
    exact still
  rcases renamed : perform later.state.file (.rename blob major minor) with err | after
  · refine Beaten.failed ⟨unlinked, fun inTime => ?_⟩ _
    rcases ready with ⟨taken, _⟩ | linked
    · exact absurd inTime (holding.renamed (relied.taken taken) renamed)
    · exact stillLinked linked
  · refine secured_link inRange obeys unlinked fun _ missing => ?_
    rcases ready with ⟨_, leads⟩ | linked
    · -- The version was just made.
      refine ⟨_, leads, ?_⟩
      have file := FileWorld.make_file_of_ok renamed
      exact file ▸ versionFile_of_renamed renamed
    · exact absurd missing (stillLinked linked)

theorem secured_firstVersion (inRange : upload < race.count)
    (obeys : Obeys env race horizon upload dir content)
    (opened : race.opened (utf8 majorVersion1)) (absolute : Absolute serialPath)
    (same : components serialPath = components dir)
    (holding : Holding env horizon upload blob (some content) scene)
    (unlinked : ¬ scene.Did upload Linking) :
    (racing race fresh).Secured upload (EndsLinked horizon upload)
      (Process.firstVersion blob serialPath) scene := by
  apply secured_tryCall
  intro later relied sound
  refine ⟨⟨⟨inRange, opened⟩, race.lenient rfl⟩, fun _ => ?_⟩
  apply secured_publish inRange obeys opened
  · exact (holding.later relied).make rfl
  · exact unlinked_make unlinked relied (not_linking nofun)
  · refine .inl ⟨taken_createDirAll later.state _, ?_⟩
    exact versionAt_push absolute same isName_majorVersion1 isName_minorVersion0

/-- The upload holds its blob and comes too late for the link. -/
structure Late (env : Env) (horizon upload : ℕ) (blob content : Bytes) (scene : RaceScene) : Prop
    extends Holding env horizon upload blob (some content) scene where
  unlinked : ¬ scene.Did upload Linking
  head : scene.state.file.head ≠ none

theorem Late.later {later : RaceScene} (late : Late env horizon upload blob content scene)
    (relied : Relied env race horizon upload scene later) :
    Late env horizon upload blob content later where
  toHolding := late.toHolding.later relied
  unlinked := fun did => late.unlinked ((relied.did _).mp did)
  head := by
    rw [relied.head late.head]
    exact late.head

/-- An upload that comes too late makes another call. -/
theorem Late.make {call : OsCall} (late : Late env horizon upload blob content scene)
    (elsewhere : call.blob = none) :
    Late env horizon upload blob content (scene.make (performOs env) upload call) where
  toHolding := late.toHolding.make elsewhere
  unlinked := fun did => (Scene.did_make.mp did).elim late.unlinked fun latest =>
    late.head latest.2.2
  head := by
    rw [scene_head_of_linked late.head]
    exact late.head

theorem Late.beaten (late : Late env horizon upload blob content scene) :
    Beaten horizon upload scene :=
  ⟨late.unlinked, fun _ => late.head⟩

/-- The loop creates at most one directory, and the upload still comes too late. -/
theorem secured_reserveVersion (inRange : upload < race.count) {incTries left : ℕ}
    {latestMajor : UInt64} (all : incTries + left = 1001)
    (unpublished : Unpublished upload scene)
    (late : Late env horizon upload blob content scene) :
    (racing race fresh).Secured upload (fun _ => Late env horizon upload blob content)
      (Process.reserveVersion incTries latestMajor serialPath) scene := by
  induction left generalizing incTries latestMajor serialPath scene with
  | zero =>
      rw [Process.reserveVersion, dif_neg (by omega)]
      apply Discipline.Secured.done
      exact fun later relied _ => late.later relied
  | succ left ih =>
      apply secured_round (by omega) inRange unpublished
      · intro later relied _ taken
        apply ih
        · omega
        · exact (unpublished.later relied).make_taken taken
        · exact (late.later relied).make rfl
      · intro later relied _ _
        apply Discipline.Secured.done
        intro last further _
        exact ((late.later relied).make rfl).later further

/-- An upload of the next version comes too late for the link. -/
theorem secured_nextVersion (inRange : upload < race.count)
    (obeys : Obeys env race horizon upload dir content) (opened : ∀ major, race.opened major)
    {headPath : Bytes} {latestMajor : UInt64} (unpublished : Unpublished upload scene)
    (late : Late env horizon upload blob content scene) :
    (racing race fresh).Secured upload (EndsLinked horizon upload)
      (Process.nextVersion blob headPath latestMajor) scene := by
  apply Discipline.Secured.bind
    (secured_reserveVersion inRange (Nat.add_comm 1 1000) unpublished late)
  · exact fun err later late => late.beaten.ends err
  · rintro ⟨incTries, reserved, serialPath⟩ later late _
    dsimp only
    cases exhausted : incTries == 1000 with
    | true => exact late.beaten.failed failedToCreate
    | false =>
        exact secured_publish inRange obeys (opened _) late.toHolding late.unlinked (.inr late.head)

/-- The end of an upload. -/
theorem secured_finishUpload (inRange : upload < race.count)
    (obeys : Obeys env race horizon upload dir content) (opened : ∀ major, race.opened major)
    {req : UploadArg} {blobPath : Bytes} (path : InBlobsDir dir blobPath)
    (unpublished : Unpublished upload scene)
    (holding : Holding env horizon upload blob (some content) scene) :
    (racing race fresh).Secured upload (EndsLinked horizon upload)
      (Process.finishUpload req blob blobPath) scene := by
  rw [Process.finishUpload]
  split
  · exact secured_firstVersion inRange obeys (opened _) path.absolute path.components holding
      unpublished.linked
  · apply Discipline.Secured.make_bind
    intro later relied _
    refine ⟨⟨⟨inRange, trivial⟩, race.lenient rfl⟩, fun _ => ?_⟩
    have unpublished : Unpublished upload (later.make (performOs env) upload .readLink) :=
      (unpublished.later relied).make rfl
    have holding : Holding env horizon upload blob (some content)
        (later.make (performOs env) upload .readLink) := (holding.later relied).make rfl
    have late : later.state.file.head ≠ none → Late env horizon upload blob content
        (later.make (performOs env) upload .readLink) := by
      intro head
      refine ⟨holding, unpublished.linked, ?_⟩
      rw [scene_head_of_linked head]
      exact head
    rw [performOs]
    rcases link : later.state.file.readLink with err | target
    · have found : err ≠ .notFound → later.state.file.head ≠ none := by
        intro other none
        rw [later.state.file.readLink_notFound_iff.mpr none] at link
        cases link
        exact other rfl
      dsimp only
      split
      · rename_i other
        exact (late (found other)).beaten.failed (.io err)
      · exact secured_firstVersion inRange obeys (opened _) path.absolute path.components holding
          unpublished.linked
    · have found : later.state.file.head ≠ none := by
        intro none
        rw [later.state.file.readLink_notFound_iff.mpr none] at link
        cases link
      dsimp only
      rcases latestMajor target with err | latest
      · exact (late found).beaten.failed (.status err)
      · exact secured_nextVersion inRange obeys opened unpublished (late found)

end Race

/-! ## The uploads together -/

variable {env : Env} {start : FileWorld} {reqs : List UploadArg}

theorem raceSound_start (race : Race) : RaceSound env race { state := race.start } := by
  have nothing : ∀ {upload what}, ¬ ({ state := race.start } : RaceScene).Did upload what := by
    rintro upload what ⟨event, member, _⟩
    cases member
  exact {
    uploads := fun did => absurd did nothing
    calls := Nat.le_refl _
    drawn := fun did => absurd did nothing
    one_drawer := fun did => absurd did nothing
    blobs := .inl
    taken := id
    reserved := fun did => absurd did nothing
    one_reserver := fun did => absurd did nothing
    one_reservation := fun did => absurd did nothing
    not_before := fun did => absurd did nothing
    of_taken := .inl
    linked := fun did => absurd did nothing
    no_link := fun did => absurd did nothing
    one_linker := fun did => absurd did nothing
    head := fun _ => rfl
    of_head := .inl }

theorem unpublished_start (start : FileWorld) (upload : ℕ) :
    Unpublished upload { state := start } where
  reserved := by
    rintro major ⟨event, member, _⟩
    cases member
  linked := by
    rintro ⟨event, member, _⟩
    cases member

/-- The uploads that have succeeded. -/
def succeeded (machine : Machine FileWorld OsCall OsCall.Reply Failure UploadResult) : Set ℕ :=
  { upload | ∃ value, answerOf machine upload = some (.ok value) }

/-- An upload that has ended, has ended as it should. -/
theorem ended {race : Race} {horizon upload : ℕ} {fresh : FreshFrom env race.start horizon}
    {post : ℕ → Except Failure UploadResult → RaceScene → Prop}
    {machine : Machine FileWorld OsCall OsCall.Reply Failure UploadResult}
    (secured : (racing race fresh).SecuredAll post machine) {result : Except Failure UploadResult}
    (answered : answerOf machine upload = some result) : post upload result machine.scene :=
  secured.each upload _ (answerOf_eq_some answered) machine.scene (.refl _) secured.sound

/-- The race of uploads of any kind. -/
def anyUploads (start : FileWorld) (reqs : List UploadArg) : Race where
  start := start
  count := reqs.length
  opened := fun _ => True

theorem linked_in_time {horizon : ℕ} (fresh : FreshFrom env start horizon)
    (each : ∀ req ∈ reqs, OneMessage req) (schedule : List ℕ) :
    (racing (anyUploads start reqs) fresh).SecuredAll (EndsLinked horizon)
      (afterSchedule env start reqs schedule) := by
  apply Discipline.SecuredAll.interleaved
  refine ⟨raceSound_start _, fun upload program there => ?_⟩
  obtain ⟨req, found, rfl, inRange⟩ := uploading_program there
  have oneMessage := each req (List.mem_of_getElem? found)
  obtain ⟨relpath, goesTo⟩ := oneMessage.goesTo
  apply secured_upload oneMessage goesTo inRange (unpublished_start start upload)
  intro blob blobPath content later path unpublished holding _
  apply secured_finishUpload inRange _ (fun _ => trivial) path unpublished holding
  exact ⟨fun _ _ _ => trivial, fun _ => trivial⟩

/-- **Among uploads that run at the same time, at most one succeeds**: none when there was a link
before, and one when there was none and all have ended. -/
theorem one_upload_links (env : Env) {start : FileWorld} {reqs : List UploadArg}
    (each : ∀ req ∈ reqs, OneMessage req) (schedule : List ℕ)
    (fresh : FreshFrom env start (afterSchedule env start reqs schedule).scene.state.calls) :
    (succeeded (afterSchedule env start reqs schedule)).Subsingleton ∧
      (start.file.head ≠ none → succeeded (afterSchedule env start reqs schedule) = ∅) ∧
      (start.file.head = none → reqs ≠ [] → (∀ upload < reqs.length,
          answerOf (afterSchedule env start reqs schedule) upload ≠ none) →
        (succeeded (afterSchedule env start reqs schedule)).Nonempty) := by
  have secured := linked_in_time fresh each schedule
  have sound := secured.sound
  have linked : ∀ upload ∈ succeeded (afterSchedule env start reqs schedule),
      (afterSchedule env start reqs schedule).scene.Did upload Linking := by
    rintro upload ⟨value, answered⟩
    exact (ended secured answered).1.mp ⟨value, rfl⟩
  refine ⟨fun first here second there => ?_, fun before => ?_, fun before nonempty all => ?_⟩
  · exact sound.one_linker (linked first here) (linked second there)
  · apply Set.eq_empty_of_forall_notMem
    intro upload member
    exact before (sound.no_link (linked upload member))
  · -- The first upload has ended, so there is a link, and an upload has made it.
    obtain ⟨result, answered⟩ := Option.ne_none_iff_exists'.mp
      (all 0 (List.length_pos_iff.mpr nonempty))
    have head := (ended secured answered).2 (Nat.le_refl _)
    rcases sound.of_head head with link | ⟨linker, did⟩
    · exact absurd before link
    · obtain ⟨won, wonAnswer⟩ := Option.ne_none_iff_exists'.mp (all linker (sound.uploads did))
      obtain ⟨value, rfl⟩ := (ended secured wonAnswer).1.mpr did
      exact ⟨linker, value, wonAnswer⟩

/-! ## Two uploads that alternate -/

/-- Two uploads of one message to the same file. -/
def uploadTwice : List UploadArg :=
  [{ uploadOnce with data := { bytes := [114] } }, { uploadOnce with data := { bytes := [115] } }]

theorem uploadTwice_oneMessage : ∀ req ∈ uploadTwice, OneMessage req := by
  intro req member
  rcases List.mem_pair.mp member with rfl | rfl
  · exact ⟨⟨rfl, uploadOnce_completing.target, .inl rfl⟩, rfl⟩
  · exact ⟨⟨rfl, uploadOnce_completing.target, .inl rfl⟩, rfl⟩

/-- The two take turns. -/
def alternately : List ℕ := (List.replicate 12 [0, 1]).flatten

/-- With numbered ULIDs, a directory without blobs is fresh. -/
theorem freshFrom_numbered {start : FileWorld} (noBlobs : start.file.blobs = ∅) {horizon : ℕ}
    (bounded : horizon ≤ 2 ^ 128) : FreshFrom (.numbered .unchanged) start horizon where
  fresh := Env.numbered_freshBelow _ bounded
  unused := by
    intro number _ _
    rw [noBlobs]
    exact Std.ExtTreeMap.getElem?_empty

/-- Both write to version 1.0 of the new file, and one of them makes the link. -/
theorem uploadTwice_linked : ∃! upload,
    upload ∈ succeeded (afterSchedule (.numbered .unchanged) {} uploadTwice alternately) := by
  have race := one_upload_links (.numbered .unchanged) uploadTwice_oneMessage alternately
    (@freshFrom_numbered {} rfl _ (by decide +kernel))
  obtain ⟨winner, won⟩ := race.2.2 rfl (by decide) (by decide +kernel)
  exact ⟨winner, won, fun other also => race.1 also won⟩

end Yeetbox.FileStorage
