import Yeetbox.FileStorage.Upload

/-!
# Versions that are overwritten

The file driver makes a version by renaming a blob. It keeps the versions that are there as long as
it renames into a directory that it has just created. The first version of a file is renamed into a
directory that may have been there before, and the loop that reserves the directory of the next one
leaves it to its counter whether it succeeded. So an upload is safe exactly when it finds no version
1.0 where it makes one, and finds a directory to create with another try than the last but one
(`upload_neverOverwrites_iff`).
-/

set_option autoImplicit false

namespace Yeetbox.FileStorage

open Library Storage

/-! ## What should hold of an upload -/

/-- No call renames a blob to a version that is there. -/
def OverwritesNone (log : List Made) : Prop :=
  ∀ made ∈ log, ∀ major minor, made.target = some (major, minor) →
    made.before.versionFile major minor = none

/-- A blob is renamed, and every blob that is renamed goes into a directory that an earlier
`create_dir` has made. -/
def ReservesTarget (log : List Made) : Prop :=
  (∃ made ∈ log, made.target ≠ none) ∧
  ∀ made ∈ log, ∀ major minor, made.target = some (major, minor) →
    ∃ reservation : Made, reservation.call = .createDir major ∧ reservation.Succeeded ∧
      [reservation, made].Sublist log

/-- An upload never overwrites a version. For the next version it fails to create one exactly when
all candidates are there, and otherwise has reserved the one that it makes. -/
structure NeverOverwrites (file : StoredFile) (req : UploadArg)
    (outcome : Outcome FileWorld Failure UploadResult) : Prop where
  keeps : OverwritesNone outcome.state.log
  fails : req.next = true → ∀ latest, file.headMajor = some latest →
    (outcome.result = .error failedToCreate ↔ AllTaken file latest)
  reserves : req.next = true → ∀ latest, file.headMajor = some latest → ¬ AllTaken file latest →
    ReservesTarget outcome.state.log

/-- There is no version 1.0 where the upload makes one, and the first candidate that is not there is
another one than the last but one. -/
structure Reservable (file : StoredFile) (req : UploadArg) : Prop where
  first : MakesFirst file req →
    file.versionFile (utf8 majorVersion1) (utf8 minorVersion0) = none
  next : req.next = true → ∀ latest, file.headMajor = some latest →
    ∃ tried < 1000, tried ≠ 998 ∧ FirstFree file latest tried

/-! ## The calls of an upload -/

section Calls

variable {start before : FileWorld} {blob major minor : Bytes}
  {outcome : Outcome FileWorld Failure UploadResult}

/-- Calls that rename nothing overwrite nothing. -/
theorem RenamesNothing.overwritesNone {later : FileWorld} (nothing : RenamesNothing start later)
    (fresh : start.log = []) : OverwritesNone later.log := by
  obtain ⟨calls, none, log⟩ := nothing
  rw [log, fresh, List.nil_append]
  intro made member major minor target
  rw [none made member] at target
  cases target

/-- The one call that renames something. -/
theorem Publishes.of_mem (publishes : Publishes before blob major minor outcome)
    (nothing : RenamesNothing start before) (fresh : start.log = []) {made : Made}
    (member : made ∈ outcome.state.log) (renames : made.target ≠ none) :
    made = ⟨.rename blob major minor, before.file⟩ := by
  obtain ⟨calls, none, log⟩ := nothing
  obtain ⟨target, linked, published⟩ := publishes.log
  rw [published, log, fresh, List.nil_append, List.mem_append, List.mem_pair] at member
  rcases member with earlier | rfl | rfl
  · exact absurd (none made earlier) renames
  · rfl
  · exact absurd rfl renames

/-- A blob that is published overwrites nothing exactly when its version was not there. -/
theorem Publishes.overwritesNone_iff (publishes : Publishes before blob major minor outcome)
    (nothing : RenamesNothing start before) (fresh : start.log = []) :
    OverwritesNone outcome.state.log ↔ before.file.versionFile major minor = none := by
  constructor
  · intro keeps
    obtain ⟨target, linked, published⟩ := publishes.log
    refine keeps ⟨.rename blob major minor, before.file⟩ ?_ major minor rfl
    rw [published]
    exact List.mem_append_right _ List.mem_cons_self
  · intro free made member major' minor' target
    have same := publishes.of_mem nothing fresh member (target ▸ Option.some_ne_none _)
    rw [same] at target ⊢
    cases target
    exact free

end Calls

/-- A blob that is published in a directory that was just created is in a reserved one. -/
theorem Publishes.reservesTarget {start middle : FileWorld} {blob major minor : Bytes}
    {outcome : Outcome FileWorld Failure UploadResult}
    (publishes : Publishes (middle.make (.createDir major)) blob major minor outcome)
    (nothing : RenamesNothing start middle) (fresh : start.log = [])
    (free : ¬ Taken middle.file major) : ReservesTarget outcome.state.log := by
  obtain ⟨target, linked, published⟩ := publishes.log
  rw [FileWorld.make_log, List.append_assoc] at published
  have here : (⟨.rename blob major minor, (middle.make (.createDir major)).file⟩ : Made) ∈
      outcome.state.log := by
    rw [published]
    simp
  refine ⟨⟨_, here, Option.some_ne_none _⟩, fun made member major' minor' renames => ?_⟩
  have same := publishes.of_mem (nothing.make rfl) fresh member
    (renames ▸ Option.some_ne_none _)
  rw [same] at renames ⊢
  cases renames
  refine ⟨⟨.createDir major, middle.file⟩, rfl, ⟨_, perform_createDir_of_free free⟩, ?_⟩
  · rw [published]
    exact (List.Sublist.cons_cons _ (List.Sublist.cons_cons _ (List.nil_sublist _))).trans
      (List.sublist_append_right _ _)

/-! ## The end of an upload -/

/-- An upload of the next version of a file with a link makes no first version. -/
theorem not_makesFirst {file : StoredFile} {req : UploadArg} (next : req.next = true)
    (linked : file.head ≠ none) : ¬ MakesFirst file req := by
  rintro (notNext | noHead)
  · rw [next] at notNext
    cases notNext
  · exact linked noHead

/-- An upload of the next version that makes the first one finds no major version. -/
theorem MakesFirst.noMajor {file : StoredFile} {req : UploadArg} (way : MakesFirst file req)
    (next : req.next = true) (latest : UInt64) : file.headMajor ≠ some latest := by
  intro linked
  refine not_makesFirst next (fun noHead => ?_) way
  rw [StoredFile.headMajor_of_head_none noHead] at linked
  cases linked

/-- The end of an upload decides. -/
theorem FinishCases.neverOverwrites_iff {start world : FileWorld} {req : UploadArg} {blob : Bytes}
    {outcome : Outcome FileWorld Failure UploadResult}
    (finishes : FinishCases world req blob outcome) (nothing : RenamesNothing start world)
    (fresh : start.log = []) :
    NeverOverwrites world.file req outcome ↔ Reservable world.file req := by
  cases finishes with
  | first before outcome way kept quiet publishes =>
      have overwrites : OverwritesNone outcome.state.log ↔
          world.file.versionFile (utf8 majorVersion1) (utf8 minorVersion0) = none := by
        rw [publishes.overwritesNone_iff (nothing.trans quiet) fresh, kept]
      constructor
      · exact fun never => ⟨fun _ => overwrites.mp never.keeps,
          fun next latest linked => absurd linked (way.noMajor next latest)⟩
      · exact fun reservable => ⟨overwrites.mpr (reservable.first way),
          fun next latest linked => absurd linked (way.noMajor next latest),
          fun next latest linked => absurd linked (way.noMajor next latest)⟩
  | stopped outcome next linked noMajor quiet =>
      have none : ∀ latest, world.file.headMajor ≠ some latest := by
        intro latest major
        rw [noMajor] at major
        cases major
      refine iff_of_true ⟨(nothing.trans quiet).overwritesNone fresh, ?_, ?_⟩ ⟨?_, ?_⟩
      · exact fun _ latest major => absurd major (none latest)
      · exact fun _ latest major => absurd major (none latest)
      · exact fun way => absurd way (not_makesFirst next linked)
      · exact fun _ latest major => absurd major (none latest)
  | reserved latest tried middle outcome next linked inRange counted first same quiet
      publishes =>
      have unique : ∀ major, world.file.headMajor = some major → major = latest :=
        fun major other => Option.some_inj.mp (other.symm.trans linked)
      have free : ¬ Taken middle.file (candidate latest tried) := same.symm ▸ first.free
      refine iff_of_true ⟨?_, ?_, ?_⟩ ⟨?_, ?_⟩
      · exact (publishes.overwritesNone_iff ((nothing.trans quiet).make rfl) fresh).mpr
          (versionFile_createDir free _)
      · intro _ major other
        rw [unique major other]
        exact iff_of_false publishes.result (first.not_allTaken inRange)
      · exact fun _ _ _ _ => publishes.reservesTarget (nothing.trans quiet) fresh free
      · exact fun way => absurd linked (way.noMajor next latest)
      · intro _ major other
        rw [unique major other]
        exact ⟨tried, inRange, counted, first⟩
  | refused latest outcome next linked first quiet result =>
      refine iff_of_false (fun never => ?_) fun reservable => ?_
      · exact first.not_allTaken (by decide) ((never.fails next latest linked).mp result)
      · obtain ⟨tried, _, counted, other⟩ := reservable.next next latest linked
        exact counted (other.unique first)
  | exhausted latest outcome next linked all result =>
      refine iff_of_false (fun never => ?_) fun reservable => ?_
      · exact result ((never.fails next latest linked).mpr all)
      · obtain ⟨tried, inRange, _, other⟩ := reservable.next next latest linked
        exact other.not_allTaken inRange all

/-! ## The blobs of a file do not matter -/

section Congr

variable {file other : StoredFile} {req : UploadArg}

theorem FirstFree.congr {latest : UInt64} {tried : ℕ} (first : FirstFree file latest tried)
    (versions : file.versions = other.versions) : FirstFree other latest tried := by
  have same : Taken file = Taken other := by
    funext major
    rw [Taken, Taken, versions]
  exact ⟨same ▸ first.free, same ▸ first.taken⟩

theorem headMajor_congr (head : file.head = other.head) : file.headMajor = other.headMajor := by
  rw [StoredFile.headMajor, StoredFile.readLink, head]
  rfl

theorem Reservable.congr (reservable : Reservable file req)
    (versions : file.versions = other.versions) (head : file.head = other.head) :
    Reservable other req where
  first := by
    rw [MakesFirst, StoredFile.versionFile, ← versions, ← head]
    exact reservable.first
  next := by
    intro next latest linked
    rw [← headMajor_congr head] at linked
    obtain ⟨tried, inRange, counted, first⟩ := reservable.next next latest linked
    exact ⟨tried, inRange, counted, first.congr versions⟩

theorem NeverOverwrites.congr {outcome : Outcome FileWorld Failure UploadResult}
    (never : NeverOverwrites file req outcome) (versions : file.versions = other.versions)
    (head : file.head = other.head) : NeverOverwrites other req outcome := by
  have same : AllTaken file = AllTaken other := by
    funext latest
    simp only [AllTaken, Taken, versions]
  refine ⟨never.keeps, ?_, ?_⟩
  · rw [← headMajor_congr head, ← same]
    exact never.fails
  · rw [← headMajor_congr head, ← same]
    exact never.reserves

end Congr

/-! ## A file with one version, and a file with many -/

/-- An upload of one message to the file `a`. -/
def uploadOnce : UploadArg := { target := some ⟨[[0x61]]⟩, data := { bytes := [81] } }

theorem uploadOnce_completing : Completing uploadOnce where
  complete := rfl
  target := ⟨_, [0x61], rfl, by decide⟩
  token := .inl rfl

/-- The file after that upload. -/
def oneVersion : StoredFile := ((upload (.numbered .unchanged) uploadOnce).run {}).state.file

/-- An upload of the next version. -/
def uploadNext : UploadArg := { uploadOnce with next := true }

theorem uploadNext_completing : Completing uploadNext :=
  ⟨rfl, uploadOnce_completing.target, .inl rfl⟩

/-- A file with the major versions 1 to 999 and a link to the first of them. -/
def crowded : StoredFile where
  versions := .ofKeys ((List.range 999).map (candidate 0)) ∅
  head := some (.link (push (push (utf8 storagePath) (utf8 majorVersion1)) (utf8 minorVersion0)))

/-- Different tries have different candidates. -/
theorem candidate_inj {latest : UInt64} {first second : ℕ} (firstFits : first < 2 ^ 64)
    (secondFits : second < 2 ^ 64) (same : candidate latest first = candidate latest second) :
    first = second := by
  have numbers := versionName_injective (utf8_injective same)
  rw [UInt64.add_left_inj, UInt64.add_right_inj] at numbers
  have values := congrArg UInt64.toNat numbers
  rwa [UInt64.toNat_ofNat_of_lt' firstFits, UInt64.toNat_ofNat_of_lt' secondFits] at values

theorem candidate_succ (latest : UInt64) (tried : ℕ) :
    candidate (latest + 1) tried = candidate latest (tried + 1) := by
  have next : latest + 1 + .ofNat tried = latest + .ofNat (tried + 1) := by
    rw [UInt64.ofNat_add, UInt64.add_assoc, UInt64.add_comm 1]
    rfl
  rw [candidate, candidate, next]

/-- An upload that creates its directory with the last try but one says that it has failed. -/
theorem upload_refused (env : Env) {req : UploadArg} (completing : Completing req)
    {file : StoredFile} (calls : ℕ) {latest : UInt64} (next : req.next = true)
    (linked : file.headMajor = some latest) (first : FirstFree file latest 998) :
    ((upload env req).run { file := file, calls := calls }).result = .error failedToCreate := by
  obtain ⟨blob, blobPath, later, stops, received, run⟩ :=
    upload_run env completing { file := file, calls := calls }
  obtain ⟨content, there⟩ := received.blob
  have major : later.file.headMajor = some latest := (headMajor_congr received.head).trans linked
  have here : FirstFree later.file latest 998 := first.congr received.versions.symm
  have finishes := @finishUpload_cases _ req _ _ blobPath there
  rw [run, Outcome.after_result]
  generalize (finishUpload req blob blobPath).run later = outcome at finishes ⊢
  cases finishes with
  | first before outcome way kept nothing publishes =>
      exact absurd major (way.noMajor next latest)
  | stopped outcome next head noMajor nothing =>
      rw [noMajor] at major
      cases major
  | reserved other tried middle outcome next linked inRange counted free same nothing publishes =>
      cases linked.symm.trans major
      exact absurd (free.unique here) counted
  | refused other outcome next linked free nothing result => exact result
  | exhausted other outcome next linked all result =>
      cases linked.symm.trans major
      exact absurd all (here.not_allTaken (by decide))

theorem crowded_headMajor : crowded.headMajor = some 1 := by
  have link : crowded.readLink =
      .ok (push (push (utf8 storagePath) (utf8 majorVersion1)) (utf8 minorVersion0)) := rfl
  have nonempty : utf8 storagePath ≠ [] := by decide
  rw [StoredFile.headMajor, link, majorVersion1_eq, minorVersion0_eq]
  exact congrArg Except.toOption (latestMajor_link nonempty 1 0)

theorem crowded_taken_iff {tried : ℕ} (inRange : tried < 1000) :
    Taken crowded (candidate 1 tried) ↔ tried < 998 := by
  have next : candidate 1 tried = candidate 0 (tried + 1) := candidate_succ 0 tried
  rw [next, Taken, crowded]
  by_cases earlier : tried < 998
  · have member : candidate 0 (tried + 1) ∈ (List.range 999).map (candidate 0) :=
      List.mem_map_of_mem (List.mem_range.mpr (by omega))
    rw [Table.get_ofKeys_of_mem member]
    exact iff_of_true (Option.some_ne_none _) earlier
  · have outside : candidate 0 (tried + 1) ∉ (List.range 999).map (candidate 0) := by
      intro member
      obtain ⟨other, inside, same⟩ := List.mem_map.mp member
      have less := List.mem_range.mp inside
      have equal := candidate_inj (by omega) (by omega) same
      omega
    rw [Table.get_ofKeys_of_not_mem outside]
    exact iff_of_false (fun found => found rfl) earlier

theorem crowded_firstFree : FirstFree crowded 1 998 where
  free := by
    rw [crowded_taken_iff (by decide)]
    exact Nat.lt_irrefl 998
  taken := fun earlier less => (crowded_taken_iff (by omega)).mpr less

/-! ## The uploads that never overwrite a version -/

/-- **An upload never overwrites a version exactly when the file that it finds is reservable.** -/
theorem upload_neverOverwrites_iff (env : Env) {req : UploadArg} (completing : Completing req)
    (file : StoredFile) (calls : ℕ) :
    NeverOverwrites file req ((upload env req).run { file := file, calls := calls }) ↔
      Reservable file req := by
  obtain ⟨blob, blobPath, later, stops, received, run⟩ :=
    upload_run env completing { file := file, calls := calls }
  obtain ⟨content, there⟩ := received.blob
  have finishes := (@finishUpload_cases _ req _ _ blobPath there).after stops
  have decided := finishes.neverOverwrites_iff received.log rfl
  rw [run]
  constructor
  · intro never
    have reservable := decided.mp (never.congr received.versions.symm received.head.symm)
    exact reservable.congr received.versions received.head
  · intro reservable
    have never := decided.mpr (reservable.congr received.versions.symm received.head.symm)
    exact never.congr received.versions received.head

/-- The first upload of a file overwrites nothing. -/
theorem upload_neverOverwrites_iff_first : NeverOverwrites {} uploadOnce
    ((upload (.numbered .unchanged) uploadOnce).run {}) :=
  (upload_neverOverwrites_iff (.numbered .unchanged) uploadOnce_completing {} 0).mpr
    ⟨fun _ => by decide, fun next => by cases next⟩

/-- A second upload without `next` replaces version 1.0, and an upload after 999 versions reserves
the next one and says that there is none. -/
theorem upload_overwrites_and_refuses :
    (Completing uploadOnce ∧ ¬ NeverOverwrites oneVersion uploadOnce
      ((upload (.numbered .unchanged) uploadOnce).run { file := oneVersion })) ∧
    (Completing uploadNext ∧ ¬ NeverOverwrites crowded uploadNext
      ((upload (.numbered .unchanged) uploadNext).run { file := crowded })) := by
  refine ⟨⟨uploadOnce_completing, ?_⟩, uploadNext_completing, ?_⟩
  · -- The fifth call is the `rename`, and version 1.0 is there when it is made.
    intro never
    have there : OverwritesNone _ := never.keeps
    have missing := there (List.get _ ⟨4, by decide⟩) (List.get_mem _ _) (utf8 majorVersion1)
      (utf8 minorVersion0) (by decide)
    exact absurd missing (by decide)
  · intro never
    have refused := upload_refused (.numbered .unchanged) uploadNext_completing 0 rfl
      crowded_headMajor crowded_firstFree
    exact crowded_firstFree.not_allTaken (by decide)
      ((never.fails rfl 1 crowded_headMajor).mp refused)

end Yeetbox.FileStorage
