import Yeetbox.FileStorage.Download
import Yeetbox.Properties.VersionRaces

/-!
# Downloads while uploads run

An upload writes to a blob of its own, gives the blob a name in the directory of a version when all
of its data is there, and makes the link after that. So at any moment the link, if there is one,
leads to a version, and a version has the data of one upload. A download that comes in between
returns a page of it, and never a part of an upload (`downloads_are_whole`).

An upload of a further version neither moves the link nor replaces a version, so a client that asks
for page after page while further versions are uploaded has the pages of one version
(`pages_of_one_version`). It never gets to see the further ones.
-/

set_option autoImplicit false

namespace Yeetbox.FileStorage

open Library Storage

variable {env : Env} {start : FileWorld} {reqs : List UploadArg} {horizon : ℕ} {dir : Bytes}
  {scene : RaceScene}

/-! ## What may be seen -/

/-- The contents of a version that was there at the start, or the data of an upload. -/
def Offered (start : FileWorld) (reqs : List UploadArg) (content : Bytes) : Prop :=
  (∃ major minor, start.file.versionFile major minor = some content) ∨
    ∃ req ∈ reqs, req.data.bytes = content

/-- The link to the latest version is missing, or leads to a version. -/
def LinkSound (dir : Bytes) (file : StoredFile) : Prop :=
  ∀ entry, file.head = some entry → ∃ target, entry = .link target ∧ LeadsToVersion dir target file

/-- As long as no ULID was drawn twice, all versions were offered, and the link leads to one. -/
structure Whole (start : FileWorld) (reqs : List UploadArg) (dir : Bytes) (horizon : ℕ)
    (scene : RaceScene) : Prop where
  versions : scene.state.calls ≤ horizon → ∀ {major minor content},
    scene.state.file.versionFile major minor = some content → Offered start reqs content
  link : scene.state.calls ≤ horizon → LinkSound dir scene.state.file

/-- An upload makes a version of data that was uploaded only, and links to a version only. -/
def SeenWhole (reqs : List UploadArg) (dir : Bytes) (horizon : ℕ) (scene : RaceScene) :
    OsCall → Prop
  | .sys (.rename blob _ _) => scene.state.calls ≤ horizon → ∀ content,
      scene.state.file.blobs[blob]? = some content → ∃ req ∈ reqs, req.data.bytes = content
  | .sys (.linkHead target) => ReadyToLink horizon dir target scene
  | _ => True

/-- The race of uploads of any kind to one file. -/
def wholeUploads (start : FileWorld) (reqs : List UploadArg) (dir : Bytes) (horizon : ℕ) :
    Race where
  start := start
  count := reqs.length
  opened := fun _ => True
  rule := fun _ => SeenWhole reqs dir horizon
  lenient := by
    intro upload scene call quiet
    cases call with
    | sys call =>
        cases call with
        | rename blob major minor | linkHead target => cases quiet
        | _ => trivial
    | _ => trivial

/-- An upload keeps to the rule when what it has received is its data. -/
theorem obeys_whole {upload : ℕ} {req : UploadArg} (member : req ∈ reqs) :
    Obeys env (wholeUploads start reqs dir horizon) horizon upload dir req.data.bytes where
  rename := by
    intro scene blob major minor holding inTime content there
    refine ⟨req, member, Option.some_inj.mp ?_⟩
    rw [← holding.content inTime, there]
  link := id

/-! ## Every call keeps it -/

theorem LeadsToVersion.make {target : Bytes} (leads : LeadsToVersion dir target scene.state.file)
    (upload : ℕ) (call : OsCall) :
    LeadsToVersion dir target (scene.make (performOs env) upload call).state.file := by
  obtain ⟨version, same, there⟩ := leads
  exact ⟨version, same, scene_versionFile_ne there upload call⟩

/-- **What is seen stays whole**, whatever call is made next. -/
theorem Whole.make {upload : ℕ} {call : OsCall} (whole : Whole start reqs dir horizon scene)
    (seen : SeenWhole reqs dir horizon scene call) :
    Whole start reqs dir horizon (scene.make (performOs env) upload call) where
  versions := by
    intro inTime major minor content there
    have before := (scene_calls scene upload call).trans inTime
    rcases @scene_versionFile env scene upload call major minor with
      same | ⟨blob, renamed, rfl, held, version⟩
    · rw [same] at there
      exact whole.versions before there
    · rw [version] at there
      obtain rfl := Option.some_inj.mp there
      exact .inr (seen before renamed held)
  link := by
    intro inTime entry there
    have before := (scene_calls scene upload call).trans inTime
    rcases @scene_head env scene upload call with same | ⟨⟨target, rfl⟩, missing⟩
    · rw [same] at there
      obtain ⟨target, isLink, leads⟩ := whole.link before entry there
      exact ⟨target, isLink, leads.make upload call⟩
    · rw [scene_head_of_linkHead missing] at there
      obtain rfl := Option.some_inj.mp there
      exact ⟨target, rfl, LeadsToVersion.make (seen before missing) upload _⟩

/-! ## The uploads together -/

/-- Uploads to one file keep to the rule, and end with a link. -/
theorem secured_whole (fresh : FreshFrom env start horizon)
    (transfers : ∀ call size, env.write call size = size) {relpath : Bytes}
    (each : ∀ req ∈ reqs, OneMessage req ∧ GoesTo relpath req) :
    (racing (wholeUploads start reqs (fileDir relpath) horizon) fresh).SecuredAll
      (EndsLinked horizon) (uploading start reqs) := by
  refine ⟨raceSound_start _, fun upload program there => ?_⟩
  obtain ⟨req, found, rfl, inRange⟩ := uploading_program there
  have member := List.mem_of_getElem? found
  obtain ⟨oneMessage, goesTo⟩ := each req member
  apply secured_upload oneMessage goesTo inRange (unpublished_start start upload)
  intro blob blobPath content later path unpublished holding received
  obtain rfl := received transfers
  exact secured_finishUpload inRange (obeys_whole member) (fun _ => trivial) path unpublished
    holding

/-- **A download that comes while uploads run returns a page of a whole version**, one that was
there before or the data of one upload. It fails only when there is no link yet, and then no upload
has succeeded. -/
theorem downloads_are_whole (env : Env) (transfers : ∀ call size, env.write call size = size)
    (elsewhere : Elsewhere) {start : FileWorld} {reqs : List UploadArg} {relpath : Bytes}
    (each : ∀ req ∈ reqs, OneMessage req ∧ GoesTo relpath req)
    (sound : LinkSound (fileDir relpath) start.file) (schedule : List ℕ)
    (fresh : FreshFrom env start (afterSchedule env start reqs schedule).scene.state.calls)
    {req : DownloadArg} (asks : AsksLatest relpath req) :
    (((download env elsewhere req).run
        (afterSchedule env start reqs schedule).scene.state).result = .error (.io .notFound) ∧
        start.file.head = none ∧ succeeded (afterSchedule env start reqs schedule) = ∅) ∨
      ∃ content page, Offered start reqs content ∧ IsPage req content page ∧
        ((download env elsewhere req).run
          (afterSchedule env start reqs schedule).scene.state).result = .ok page := by
  have secured := secured_whole fresh transfers each
  have still := secured.interleaved schedule
  have whole : Whole start reqs (fileDir relpath)
      (afterSchedule env start reqs schedule).scene.state.calls
      (afterSchedule env start reqs schedule).scene := by
    apply secured.keeps (Whole start reqs (fileDir relpath) _)
    · exact fun upload scene call _ permitted whole => whole.make permitted.2
    · exact ⟨fun _ major minor _ there => .inl ⟨major, minor, there⟩, fun _ => sound⟩
  rcases head : (afterSchedule env start reqs schedule).scene.state.file.head with _ | entry
  · refine .inl ⟨download_unlinked asks head, ?_, ?_⟩
    · by_contra linked
      have same := still.sound.head linked
      exact linked (same.symm.trans head)
    · apply Set.eq_empty_of_forall_notMem
      rintro upload ⟨value, answered⟩
      exact (ended still answered).2 (Nat.le_refl _) head
  · obtain ⟨target, rfl, version, leads, there⟩ := whole.link (Nat.le_refl _) entry head
    obtain ⟨content, found⟩ := Option.ne_none_iff_exists'.mp there
    obtain ⟨page, returned, isPage⟩ := @download_linked env elsewhere _ _ _ asks _ _ _ head leads
      found
    exact .inr ⟨content, page, whole.versions (Nat.le_refl _) found, isPage, returned⟩

/-! ## A download between two uploads -/

/-- A download of the latest version of the file `a`. -/
def downloadLatest : DownloadArg := { target := some { path := [[0x61]] } }

theorem downloadLatest_asks : AsksLatest [0x61] downloadLatest where
  target := ⟨_, rfl, by decide, rfl⟩
  seekable := by decide

theorem uploadTwice_each : ∀ req ∈ uploadTwice, OneMessage req ∧ GoesTo [0x61] req := by
  intro req member
  refine ⟨uploadTwice_oneMessage req member, ?_⟩
  rcases List.mem_pair.mp member with rfl | rfl
  · exact ⟨_, rfl, by decide⟩
  · exact ⟨_, rfl, by decide⟩

/-- The first upload has ended, and the second one has put its blob in the place of the version. -/
def replacedBetween : List ℕ := List.replicate 8 0 ++ List.replicate 7 1

/-- A page of a single byte from the start. -/
theorem IsPage.single {byte : UInt8} {req : DownloadArg} {page : DownloadResult}
    (isPage : IsPage req [byte] page) (fromStart : req.offset.toNat = 0) : page.data = [byte] := by
  have data := isPage.data
  rw [fromStart, List.drop_zero] at data
  rcases found : page.data with _ | ⟨first, rest⟩
  · have atEnd := isPage.progress found
    rw [fromStart] at atEnd
    cases atEnd
  · rw [found] at data
    obtain ⟨rfl, empty⟩ := List.cons_prefix_cons.mp data
    rw [List.prefix_nil.mp empty]

/-- Nothing but the file is found. -/
def nothingElsewhere : Elsewhere := fun _ => .error .notFound

/-- One of the two uploads is downloaded, though one of them has not ended. -/
theorem replacedBetween_downloaded : ∃ page,
    ((download (.numbered .unchanged) nothingElsewhere downloadLatest).run
      (afterSchedule (.numbered .unchanged) {} uploadTwice replacedBetween).scene.state).result =
        .ok page ∧ (page.data = [114] ∨ page.data = [115]) := by
  have won : 0 ∈ succeeded
      (afterSchedule (.numbered .unchanged) {} uploadTwice replacedBetween) :=
    ⟨{}, by decide +kernel⟩
  rcases downloads_are_whole (.numbered .unchanged) (fun _ _ => rfl) nothingElsewhere
      uploadTwice_each (fun _ there => by cases there) replacedBetween
      (@freshFrom_numbered {} rfl _ (by decide +kernel)) downloadLatest_asks with
    ⟨_, _, nobody⟩ | ⟨content, page, offered, isPage, returned⟩
  · rw [nobody] at won
    exact won.elim
  · refine ⟨page, returned, ?_⟩
    rcases offered with ⟨_, _, before⟩ | ⟨req, member, rfl⟩
    · cases before
    · rcases List.mem_pair.mp member with rfl | rfl
      · exact .inl (isPage.single rfl)
      · exact .inr (isPage.single rfl)

/-! ## Page by page -/

/-- The link leads to a version with these contents, whose number is that of the latest version. -/
def LatestIs (dir : Bytes) (latest : UInt64) (content : Bytes) (file : StoredFile) : Prop :=
  ∃ target version, file.head = some (.link target) ∧ latestMajor target = .ok latest ∧
    versionAt dir target = some version ∧ file.versionFile version.1 version.2 = some content

theorem LatestIs.headMajor {latest : UInt64} {content : Bytes} {file : StoredFile}
    (is : LatestIs dir latest content file) : file.headMajor = some latest := by
  obtain ⟨target, _, link, major, _⟩ := is
  rw [StoredFile.headMajor, StoredFile.readLink, link]
  dsimp only [Except.toOption, Option.bind]
  rw [major]

/-- **The latest version stays the latest** while further versions are uploaded. -/
theorem latest_stays (env : Env) {latest : UInt64} {content : Bytes}
    (each : ∀ req ∈ reqs, OneMessage req ∧ req.next = true)
    (is : LatestIs dir latest content start.file)
    (few : (takenCandidates start.file latest).card + reqs.length ≤ 998) (schedule : List ℕ) :
    LatestIs dir latest content (afterSchedule env start reqs schedule).scene.state.file := by
  have linked := is.headMajor
  obtain ⟨target, version, link, major, leads, there⟩ := is
  have secured := (published_in_time (freshFrom_zero env start) each linked few).interleaved
    schedule
  refine ⟨target, version, ?_, major, leads, ?_⟩
  · rw [← link]
    apply secured.sound.head
    exact link ▸ Option.some_ne_none _
  · exact version_stays env each linked few [] schedule there

/-- The page that goes on where the data that was gathered ends. -/
def nextPage (path : List Bytes) (length : UInt64) (gathered : Bytes) : DownloadArg where
  target := some { path }
  offset := .ofNat gathered.length
  length := length

/-- What a client gathers that asks for page after page, each at another moment. -/
def gatherPages (env : Env) (elsewhere : Elsewhere) (path : List Bytes) (length : UInt64) :
    Bytes → List FileWorld → Bytes :=
  runAll fun gathered world =>
    match ((download env elsewhere (nextPage path length gathered)).run world).result with
    | .ok page => gathered ++ page.data
    | .error _ => gathered

/-- **Pages of the same contents add up**: they are a beginning of it, and all of it when there are
enough of them. -/
theorem gatherPages_latest {elsewhere : Elsewhere} {path : List Bytes} {relpath content : Bytes}
    (named : strsToPath path = some relpath) (long : content.length < 2 ^ 63) (length : UInt64)
    {latest : UInt64} {moments : List FileWorld}
    (each : ∀ world ∈ moments, LatestIs (fileDir relpath) latest content world.file)
    {gathered : Bytes} (begins : gathered <+: content) :
    gatherPages env elsewhere path length gathered moments <+: content ∧
      (content.length ≤ gathered.length + moments.length →
        gatherPages env elsewhere path length gathered moments = content) := by
  induction moments generalizing gathered with
  | nil => exact ⟨begins, begins.eq_of_length_le⟩
  | cons world rest ih =>
      have fits := begins.length_le
      have offset : (UInt64.ofNat gathered.length).toNat = gathered.length :=
        UInt64.toNat_ofNat_of_lt' (fits.trans_lt (long.trans (by decide)))
      have asks : AsksLatest relpath (nextPage path length gathered) :=
        ⟨⟨_, rfl, named, rfl⟩, offset.trans_lt (fits.trans_lt long)⟩
      obtain ⟨target, version, link, _, leads, there⟩ := each world List.mem_cons_self
      obtain ⟨page, returned, isPage⟩ := @download_linked env elsewhere _ _ _ asks _ _ _ link leads
        there
      have onwards : gathered ++ page.data <+: content := by
        obtain ⟨left, rfl⟩ := begins
        have data : page.data <+: (gathered ++ left).drop gathered.length := offset ▸ isPage.data
        rw [List.drop_left] at data
        exact (List.prefix_append_right_inj gathered).mpr data
      have progress : page.data = [] → content.length ≤ gathered.length :=
        fun empty => offset ▸ isPage.progress empty
      have step : gatherPages env elsewhere path length gathered (world :: rest) =
          gatherPages env elsewhere path length (gathered ++ page.data) rest := by
        rw [gatherPages, runAll_cons, returned]
      obtain ⟨restBegins, restWhole⟩ :=
        ih (fun later member => each later (List.mem_cons_of_mem _ member)) onwards
      rw [step]
      refine ⟨restBegins, fun enough => restWhole ?_⟩
      rw [List.length_cons] at enough
      rw [List.length_append]
      rcases Nat.eq_zero_or_pos page.data.length with empty | more
      · have atEnd := progress (List.length_eq_zero_iff.mp empty)
        omega
      · omega

/-- **Pages that are downloaded while further versions are uploaded are pages of one version**,
whatever moments they are downloaded at. As many pages as the version has bytes are enough to have
all of it. -/
theorem pages_of_one_version (env : Env) (elsewhere : Elsewhere) {start : FileWorld}
    {reqs : List UploadArg} {path : List Bytes} {relpath content : Bytes} {latest : UInt64}
    (named : strsToPath path = some relpath)
    (each : ∀ req ∈ reqs, OneMessage req ∧ req.next = true)
    (is : LatestIs (fileDir relpath) latest content start.file)
    (few : (takenCandidates start.file latest).card + reqs.length ≤ 998)
    (long : content.length < 2 ^ 63) (length : UInt64) (schedules : List (List ℕ)) :
    gatherPages env elsewhere path length [] (schedules.map fun schedule =>
        (afterSchedule env start reqs schedule).scene.state) <+: content ∧
      (content.length ≤ schedules.length →
        gatherPages env elsewhere path length [] (schedules.map fun schedule =>
          (afterSchedule env start reqs schedule).scene.state) = content) := by
  have same : ∀ world ∈ schedules.map (fun schedule =>
      (afterSchedule env start reqs schedule).scene.state),
        LatestIs (fileDir relpath) latest content world.file := by
    intro world member
    obtain ⟨schedule, _, rfl⟩ := List.mem_map.mp member
    exact latest_stays env each is few schedule
  obtain ⟨begins, whole⟩ := @gatherPages_latest env elsewhere _ _ _ named long length _ _ same []
    List.nil_prefix
  refine ⟨begins, fun enough => whole ?_⟩
  rw [List.length_map, List.length_nil, Nat.zero_add]
  exact enough

/-- The file `a` after an upload of two bytes. -/
def twoBytes : StoredFile :=
  ((upload (.numbered .unchanged) { uploadOnce with data := { bytes := [118, 119] } }).run
    {}).state.file

theorem twoBytes_latest : LatestIs (fileDir [0x61]) 1 [118, 119] twoBytes :=
  ⟨push (push (fileDir [0x61]) (utf8 majorVersion1)) (utf8 minorVersion0),
    (utf8 majorVersion1, utf8 minorVersion0), by rfl, by decide +kernel, by decide +kernel,
    by decide +kernel⟩

/-- One byte is downloaded before two further versions are uploaded, and one byte after that. -/
theorem twoBytes_gathered :
    gatherPages (.numbered .unchanged) nothingElsewhere [[0x61]] 1 []
      ([[], alternately].map fun schedule => (afterSchedule (.numbered .unchanged)
        { file := twoBytes } uploadNextTwice schedule).scene.state) = [118, 119] := by
  have named : strsToPath [[0x61]] = some [0x61] := by decide
  have long : List.length ([118, 119] : Bytes) < 2 ^ 63 := by decide
  have pages := @pages_of_one_version (.numbered .unchanged) nothingElsewhere { file := twoBytes }
    uploadNextTwice _ _ _ _ named uploadNextTwice_each twoBytes_latest (by decide +kernel) long 1
    [[], alternately]
  exact pages.2 (by decide)

end Yeetbox.FileStorage
