import Yeetbox.Properties.LinkRaces
import Yeetbox.Properties.Reservations
import Mathlib.Data.Finset.Card

/-!
# Uploads that race for versions

An upload of a further version tries the major versions after the latest one until it creates a
directory. No upload writes to a directory that it has not created, so no version is overwritten,
and the uploads that end have made different versions (`next_uploads_lose_nothing`). That the loop
ends with a directory before its last try but one is an argument of counting: every candidate that
is found taken was there before or belongs to another upload, and each of them has at most one
(`room`).
-/

set_option autoImplicit false

namespace Yeetbox.FileStorage

open Library Storage

variable {env : Env} {start : FileWorld} {reqs : List UploadArg} {horizon upload : ℕ}
  {scene : RaceScene} {latest : UInt64}

/-- The race of uploads of further versions: they write only to directories that they create. -/
def nextUploads (start : FileWorld) (reqs : List UploadArg) : Race where
  start := start
  count := reqs.length
  opened := fun _ => False

/-! ## Versions are kept -/

/-- **No call that is permitted changes a version that is there.** -/
theorem versionFile_kept {call : OsCall}
    (permitted : Permits env (nextUploads start reqs) upload scene call)
    {major minor content : Bytes}
    (there : scene.state.file.versionFile major minor = some content) :
    (scene.make (performOs env) upload call).state.file.versionFile major minor =
      some content := by
  rcases @scene_versionFile env scene upload call major minor with same | ⟨blob, _, rfl, _, _⟩
  · rw [same]
    exact there
  · -- An upload renames its blob only to where nothing is.
    obtain ⟨_, free⟩ := permitted.2.resolve_left id
    rw [free] at there
    cases there

/-! ## There is room for all -/

/-- The candidates after the latest version that are there, counted from 0. -/
def takenCandidates (file : StoredFile) (latest : UInt64) : Finset ℕ :=
  (Finset.range 1000).filter fun tried => file.versions[candidate latest tried]? ≠ none

/-- **An upload that has not created a directory finds a free one in time**: each candidate before
it was there at the start, or was created by another upload, and no upload creates two. -/
theorem room {tried : ℕ} (sound : RaceSound env (nextUploads start reqs) scene)
    (inRange : upload < reqs.length) (unpublished : Unpublished upload scene)
    (few : (takenCandidates start.file latest).card + reqs.length ≤ 998) (small : tried ≤ 998)
    (taken : ∀ earlier < tried, Taken scene.state.file (candidate latest earlier)) :
    tried < 998 := by
  classical
  have creator : ∀ earlier ∈ Finset.range tried \ takenCandidates start.file latest,
      ∃ other, scene.Did other (Reserving (candidate latest earlier)) := by
    intro earlier member
    obtain ⟨inside, free⟩ := Finset.mem_sdiff.mp member
    have less := Finset.mem_range.mp inside
    rcases sound.of_taken (taken earlier less) with before | opened | created
    · have there : earlier ∈ takenCandidates start.file latest :=
        Finset.mem_filter.mpr ⟨Finset.mem_range.mpr (by omega), before⟩
      exact absurd there free
    · exact opened.elim
    · exact created
  choose! owner owns using creator
  -- Different candidates were created by different uploads, none of them this one.
  have others : (Finset.range tried \ takenCandidates start.file latest).card ≤
      ((Finset.range reqs.length).erase upload).card := by
    apply Finset.card_le_card_of_injOn owner
    · intro earlier member
      have did := owns earlier member
      apply Finset.mem_erase.mpr
      refine ⟨fun same => ?_, Finset.mem_range.mpr (sound.uploads did)⟩
      exact unpublished.reserved _ (same ▸ did)
    · intro earlier member also alsoMember same
      have here := Finset.mem_range.mp (Finset.mem_sdiff.mp member).1
      have there := Finset.mem_range.mp (Finset.mem_sdiff.mp alsoMember).1
      have did := owns also alsoMember
      rw [← same] at did
      exact candidate_inj (by omega) (by omega)
        (sound.one_reservation (owns earlier member) did)
  have split := Finset.le_card_sdiff (takenCandidates start.file latest) (Finset.range tried)
  rw [Finset.card_erase_of_mem (Finset.mem_range.mpr inRange), Finset.card_range] at others
  rw [Finset.card_range] at split
  omega

/-! ## An upload of a further version -/

section Race

variable {blob major content serialPath : Bytes}
  {fresh : FreshFrom env (nextUploads start reqs).start horizon}

/-- The upload has made a version of its data. -/
def EndsPublished (horizon upload : ℕ) (data : Bytes) (scene : RaceScene) : Prop :=
  ∃ major, scene.Did upload (Reserving major) ∧ (scene.state.calls ≤ horizon →
    scene.state.file.versionFile major (utf8 (versionName 0)) = some data)

theorem EndsPublished.later {later : RaceScene} (ends : EndsPublished horizon upload content scene)
    (relied : Relied env (nextUploads start reqs) horizon upload scene later) :
    EndsPublished horizon upload content later := by
  obtain ⟨major, did, version⟩ := ends
  refine ⟨major, (relied.did _).mpr did, fun inTime => ?_⟩
  rw [StoredFile.versionFile, relied.versions did id]
  exact version (relied.calls.trans inTime)

/-- The upload holds its blob and has created the directory of its version. -/
structure Reserved (env : Env) (horizon upload : ℕ) (blob content major : Bytes)
    (scene : RaceScene) : Prop extends Holding env horizon upload blob (some content) scene where
  did : scene.Did upload (Reserving major)
  empty : scene.state.file.versions[major]? = some (∅ : Table Bytes Bytes)

theorem Reserved.later {later : RaceScene}
    (reserved : Reserved env horizon upload blob content major scene)
    (relied : Relied env (nextUploads start reqs) horizon upload scene later) :
    Reserved env horizon upload blob content major later where
  toHolding := reserved.toHolding.later relied
  did := (relied.did _).mpr reserved.did
  empty := (relied.versions reserved.did id).trans reserved.empty

/-- The last call of an upload changes no version. -/
theorem secured_lastCall (inRange : upload < reqs.length)
    (ends : EndsPublished horizon upload content scene) (target : Bytes) :
    (racing (nextUploads start reqs) fresh).Secured upload
      (fun _ => EndsPublished horizon upload content) (do
        Process.tryCall (.linkHead target)
        pure ({} : UploadResult)) scene := by
  apply secured_tryCall
  intro later relied _
  refine ⟨⟨⟨inRange, trivial⟩, trivial⟩, fun _ => ?_⟩
  have still : EndsPublished horizon upload content
      (later.make (performOs env) upload (.sys (.linkHead target))) := by
    obtain ⟨major, did, version⟩ := ends.later relied
    refine ⟨major, Scene.did_make.mpr (.inl did), fun inTime => ?_⟩
    rw [StoredFile.versionFile, scene_versions]
    · exact version inTime
    · exact (Option.some_ne_none major).symm
  rcases perform later.state.file (.linkHead target) with err | after
  · exact Discipline.Secured.done fun last further _ => still.later further
  · exact Discipline.Secured.done fun last further _ => still.later further

/-- The end of an upload: its blob becomes the version that it has reserved. -/
theorem secured_publish_reserved (inRange : upload < reqs.length)
    (reserved : Reserved env horizon upload blob content major scene) :
    (racing (nextUploads start reqs) fresh).Secured upload
      (fun _ => EndsPublished horizon upload content)
      (Process.publish blob major (utf8 (versionName 0)) serialPath) scene := by
  apply secured_tryCall
  intro later relied _
  have reserved := reserved.later relied
  have free : later.state.file.versionFile major (utf8 (versionName 0)) = none := by
    rw [StoredFile.versionFile, reserved.empty]
    exact Std.ExtTreeMap.getElem?_empty
  refine ⟨⟨⟨inRange, reserved.owns, .inr ⟨reserved.did, free⟩⟩, trivial⟩, fun _ => ?_⟩
  have still : EndsPublished horizon upload content (later.make (performOs env) upload
      (.sys (.rename blob major (utf8 (versionName 0))))) := by
    refine ⟨major, Scene.did_make.mpr (.inl reserved.did), fun inTime => ?_⟩
    have renamed := perform_rename (reserved.content inTime) reserved.empty
      (utf8 (versionName 0))
    have file := FileWorld.make_file_of_ok renamed
    refine (congrArg (StoredFile.versionFile · major (utf8 (versionName 0))) file).trans ?_
    rw [StoredFile.versionFile, Table.get_insert_self]
    exact Table.get_insert_self _ _ _
  rcases perform later.state.file (.rename blob major (utf8 (versionName 0))) with err | after
  · exact Discipline.Secured.done fun last further _ => still.later further
  · exact secured_lastCall inRange still serialPath

/-- What the loop comes to: it has created a directory, and not with its last try but one. -/
def EndsReserved (env : Env) (horizon upload : ℕ) (blob content : Bytes)
    (result : Except Failure (ℕ × UInt64 × Bytes)) (scene : RaceScene) : Prop :=
  ∃ incTries latestMajor serialPath, result = .ok (incTries, latestMajor, serialPath) ∧
    incTries ≠ 1000 ∧
    Reserved env horizon upload blob content (utf8 (versionName latestMajor)) scene

theorem secured_reserve (inRange : upload < reqs.length)
    (few : (takenCandidates start.file latest).card + reqs.length ≤ 998) {left tried : ℕ}
    (all : tried + left = 998) (unpublished : Unpublished upload scene)
    (holding : Holding env horizon upload blob (some content) scene)
    (taken : ∀ earlier < tried, Taken scene.state.file (candidate latest earlier)) :
    (racing (nextUploads start reqs) fresh).Secured upload
      (EndsReserved env horizon upload blob content)
      (Process.reserveVersion (tried + 1) (latest + .ofNat tried) serialPath) scene := by
  induction left generalizing tried serialPath scene with
  | zero =>
      apply Discipline.Secured.of_later
      intro later relied sound
      have inTime := room sound inRange (unpublished.later relied) few (Nat.le_of_eq all)
        fun earlier less => relied.taken (taken earlier less)
      omega
  | succ left ih =>
      apply secured_round (by omega) inRange unpublished
      · intro later relied sound here
        have next : latest + .ofNat tried + 1 = latest + .ofNat (tried + 1) := by
          rw [UInt64.ofNat_add, ← UInt64.add_assoc]
          rfl
        rw [next]
        apply ih
        · omega
        · rw [← next]
          exact (unpublished.later relied).make_taken here
        · exact (holding.later relied).make rfl
        · intro earlier less
          apply scene_taken
          rcases Nat.lt_succ_iff_lt_or_eq.mp less with before | rfl
          · exact relied.taken (taken earlier before)
          · exact here
      · intro later relied sound free
        apply Discipline.Secured.done
        intro last further _
        refine ⟨_, _, _, rfl, by omega, Reserved.later ⟨?_, ?_, ?_⟩ further⟩
        · exact (holding.later relied).make rfl
        · exact Scene.did_make.mpr (.inr ⟨rfl, rfl, free⟩)
        · exact make_createDir_of_free free

theorem ok_of_toOption {Err Value : Type} {result : Except Err Value} {value : Value}
    (same : result.toOption = some value) : result = .ok value := by
  cases result with
  | error err => cases same
  | ok other => exact congrArg Except.ok (Option.some_inj.mp same)

/-- A file with a valid link. -/
theorem headMajor_eq_some {file : StoredFile} (linked : file.headMajor = some latest) :
    file.head ≠ none ∧ ∃ target, file.readLink = .ok target ∧ latestMajor target = .ok latest := by
  refine ⟨fun none => ?_, ?_⟩
  · rw [StoredFile.headMajor_of_head_none none] at linked
    cases linked
  · rw [StoredFile.headMajor, Option.bind_eq_some_iff] at linked
    obtain ⟨target, link, major⟩ := linked
    exact ⟨target, ok_of_toOption link, ok_of_toOption major⟩

theorem secured_nextVersion_reserved (inRange : upload < reqs.length)
    (few : (takenCandidates start.file latest).card + reqs.length ≤ 998)
    (unpublished : Unpublished upload scene)
    (holding : Holding env horizon upload blob (some content) scene) {headPath : Bytes} :
    (racing (nextUploads start reqs) fresh).Secured upload
      (fun _ => EndsPublished horizon upload content)
      (Process.nextVersion blob headPath latest) scene := by
  have loop : (racing (nextUploads start reqs) fresh).Secured upload
      (EndsReserved env horizon upload blob content)
      (Process.reserveVersion 1 latest headPath) scene := by
    have start : latest + .ofNat 0 = latest := UInt64.add_zero latest
    rw [← Nat.zero_add 1, ← start]
    apply secured_reserve inRange few (Nat.zero_add 998) unpublished holding
    exact fun _ less => absurd less (Nat.not_lt_zero _)
  apply Discipline.Secured.bind loop
  · rintro err later ⟨_, _, _, same, _⟩
    cases same
  · rintro value later ⟨incTries, reserved, serialPath, same, counted, owned⟩ _
    cases same
    have notExhausted : (incTries == 1000) = false := beq_eq_false_iff_ne.mpr counted
    dsimp only
    rw [notExhausted]
    exact secured_publish_reserved inRange owned

/-- The end of an upload of the next version of a file with a link. -/
theorem secured_finish (inRange : upload < reqs.length) {req : UploadArg} (next : req.next = true)
    (linked : start.file.headMajor = some latest)
    (few : (takenCandidates start.file latest).card + reqs.length ≤ 998)
    (unpublished : Unpublished upload scene)
    (holding : Holding env horizon upload blob (some content) scene) {blobPath : Bytes} :
    (racing (nextUploads start reqs) fresh).Secured upload
      (fun _ => EndsPublished horizon upload content)
      (Process.finishUpload req blob blobPath) scene := by
  rw [Process.finishUpload, next]
  apply Discipline.Secured.make_bind
  intro later relied sound
  refine ⟨⟨⟨inRange, trivial⟩, trivial⟩, fun _ => ?_⟩
  obtain ⟨before, target, link, major⟩ := headMajor_eq_some linked
  have sameLink : later.state.file.readLink = .ok target := by
    rw [StoredFile.readLink, sound.head before]
    exact link
  rw [performOs, sameLink]
  dsimp only
  rw [major]
  apply secured_nextVersion_reserved inRange few
  · exact (unpublished.later relied).make rfl
  · exact (holding.later relied).make rfl

end Race

/-! ## The uploads together -/

/-- The data of an upload. -/
def dataOf (reqs : List UploadArg) (upload : ℕ) : Bytes :=
  (reqs[upload]?.map fun req => req.data.bytes).getD []

/-- The upload has made a version of what it has received, which is its data when every write
transfers all bytes. -/
def EndsReceived (env : Env) (reqs : List UploadArg) (horizon upload : ℕ) (scene : RaceScene) :
    Prop :=
  ∃ content, EndsPublished horizon upload content scene ∧
    ((∀ call size, env.write call size = size) → content = dataOf reqs upload)

theorem published_in_time (fresh : FreshFrom env start horizon)
    (each : ∀ req ∈ reqs, OneMessage req ∧ req.next = true)
    (linked : start.file.headMajor = some latest)
    (few : (takenCandidates start.file latest).card + reqs.length ≤ 998) :
    (racing (nextUploads start reqs) fresh).SecuredAll
      (fun upload _ => EndsReceived env reqs horizon upload) (uploading start reqs) := by
  refine ⟨raceSound_start _, fun upload program there => ?_⟩
  obtain ⟨req, found, rfl, inRange⟩ := uploading_program there
  obtain ⟨oneMessage, next⟩ := each req (List.mem_of_getElem? found)
  have data : dataOf reqs upload = req.data.bytes := by
    rw [dataOf, found]
    rfl
  obtain ⟨relpath, goesTo⟩ := oneMessage.goesTo
  apply secured_upload oneMessage goesTo inRange (unpublished_start start upload)
  intro blob blobPath content later _ unpublished holding received
  apply (secured_finish inRange next linked few unpublished holding).mono
  exact fun _ last ends => ⟨content, ends, fun transfers => (received transfers).trans data.symm⟩

/-- **A version that is there stays as it is** while further versions are uploaded. -/
theorem version_stays (env : Env) (each : ∀ req ∈ reqs, OneMessage req ∧ req.next = true)
    (linked : start.file.headMajor = some latest)
    (few : (takenCandidates start.file latest).card + reqs.length ≤ 998) (first second : List ℕ)
    {major minor content : Bytes}
    (there : (afterSchedule env start reqs first).scene.state.file.versionFile major minor =
      some content) :
    (afterSchedule env start reqs (first ++ second)).scene.state.file.versionFile major minor =
      some content := by
  have secured := (published_in_time (freshFrom_zero env start) each linked few).interleaved first
  rw [afterSchedule, runAll_append]
  apply secured.keeps fun scene => scene.state.file.versionFile major minor = some content
  · exact fun upload scene call _ permitted => versionFile_kept permitted.1.2
  · exact there

/-- **Uploads of further versions that run at the same time lose nothing**, as long as there are
enough free directories for all of them. A version that is there stays as it is, and each upload
that has ended has made a version of its own with its data. -/
theorem next_uploads_lose_nothing (env : Env) (transfers : ∀ call size, env.write call size = size)
    {start : FileWorld} {reqs : List UploadArg} {latest : UInt64}
    (each : ∀ req ∈ reqs, OneMessage req ∧ req.next = true)
    (linked : start.file.headMajor = some latest)
    (few : (takenCandidates start.file latest).card + reqs.length ≤ 998) (first second : List ℕ)
    (fresh : FreshFrom env start
      (afterSchedule env start reqs (first ++ second)).scene.state.calls) :
    (∀ major minor content,
        (afterSchedule env start reqs first).scene.state.file.versionFile major minor =
          some content →
        (afterSchedule env start reqs (first ++ second)).scene.state.file.versionFile major minor =
          some content) ∧
      ∃ major : ℕ → Bytes,
        Set.InjOn major { upload |
          answerOf (afterSchedule env start reqs (first ++ second)) upload ≠ none } ∧
        ∀ upload req, reqs[upload]? = some req →
          answerOf (afterSchedule env start reqs (first ++ second)) upload ≠ none →
          ¬ Taken start.file (major upload) ∧
            (afterSchedule env start reqs (first ++ second)).scene.state.file.versionFile
              (major upload) (utf8 (versionName 0)) = some req.data.bytes := by
  have secured := published_in_time fresh each linked few
  have last := secured.interleaved (first ++ second)
  constructor
  · intro major minor content there
    exact version_stays env each linked few first second there
  · have own : ∀ upload, answerOf (afterSchedule env start reqs (first ++ second)) upload ≠ none →
        EndsPublished (afterSchedule env start reqs (first ++ second)).scene.state.calls upload
          (dataOf reqs upload) (afterSchedule env start reqs (first ++ second)).scene := by
      intro upload answered
      obtain ⟨result, answer⟩ := Option.ne_none_iff_exists'.mp answered
      obtain ⟨content, published, received⟩ := ended last answer
      exact received transfers ▸ published
    choose! major did version using own
    refine ⟨major, fun here hereAnswered there thereAnswered same => ?_, ?_⟩
    · have also := did there thereAnswered
      rw [← same] at also
      exact last.sound.one_reserver (did here hereAnswered) also
    · intro upload req found answered
      refine ⟨last.sound.not_before (did upload answered), ?_⟩
      rw [version upload answered (Nat.le_refl _), dataOf, found]
      rfl

/-- Two uploads of a further version of the same file. -/
def uploadNextTwice : List UploadArg :=
  [{ uploadNext with data := { bytes := [116] } }, { uploadNext with data := { bytes := [117] } }]

theorem uploadNextTwice_each : ∀ req ∈ uploadNextTwice, OneMessage req ∧ req.next = true := by
  intro req member
  rcases List.mem_pair.mp member with rfl | rfl
  · exact ⟨⟨⟨rfl, uploadOnce_completing.target, .inl rfl⟩, rfl⟩, rfl⟩
  · exact ⟨⟨⟨rfl, uploadOnce_completing.target, .inl rfl⟩, rfl⟩, rfl⟩

/-- Two uploads of a further version take turns, and both versions are made. -/
theorem uploadNextTwice_published : ∃ first second, first ≠ second ∧
    (afterSchedule (.numbered .unchanged) { file := oneVersion } uploadNextTwice
      alternately).scene.state.file.versionFile first (utf8 (versionName 0)) = some [116] ∧
    (afterSchedule (.numbered .unchanged) { file := oneVersion } uploadNextTwice
      alternately).scene.state.file.versionFile second (utf8 (versionName 0)) = some [117] := by
  have ended : ∀ upload < 2, answerOf (afterSchedule (.numbered .unchanged)
      { file := oneVersion } uploadNextTwice alternately) upload ≠ none := by decide +kernel
  obtain ⟨major, distinct, made⟩ := (@next_uploads_lose_nothing (.numbered .unchanged)
    (fun _ _ => rfl) { file := oneVersion } uploadNextTwice _ uploadNextTwice_each
    (show oneVersion.headMajor = some 1 by decide +kernel) (by decide +kernel) [] alternately
    (freshFrom_numbered (by decide +kernel) (by decide +kernel))).2
  have first := ended 0 (by decide)
  have second := ended 1 (by decide)
  refine ⟨major 0, major 1, fun same => ?_, (made 0 _ rfl first).2, (made 1 _ rfl second).2⟩
  exact absurd (distinct first second same) (by decide)

end Yeetbox.FileStorage
