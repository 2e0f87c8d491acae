import Yeetbox.FileStorage.Processes

/-!
# What uploads that run at the same time own

Uploads of the same file share its directory without a lock. What keeps them apart is that a ULID is
drawn by one of them only, so that its blob belongs to the upload that has drawn it, and that a
directory is created by one of them only, so that it belongs to the upload that has created it. The
link to the latest version is made by one of them only. These are invariants of every interleaving
(`RaceSound`), as long as each upload makes the calls that are its own (`Permits`). Then it can rely
on its blob, its directory and the link (`Relied`).
-/

set_option autoImplicit false

namespace Yeetbox.FileStorage

open Library Storage

/-! ## What a call changes -/

section Changes

variable {world : FileWorld} {call : FsCall}

/-- Only a `symlink` changes the link, and only when there is none. -/
theorem make_head (world : FileWorld) (call : FsCall) :
    (world.make call).file.head = world.file.head ∨
      ∃ target, call = .linkHead target ∧ world.file.head = none := by
  cases call with
  | linkHead target =>
      rcases none : world.file.head with _ | entry
      · exact .inr ⟨target, rfl, rfl⟩
      · rw [FileWorld.make, perform, none]
        exact .inl none
  | rename blob major minor =>
      rw [FileWorld.make, perform]
      rcases world.file.blobs[blob]? with _ | content
      · exact .inl rfl
      · rcases world.file.versions[major]? with _ | minors <;> exact .inl rfl
  | createDir major =>
      rw [FileWorld.make, perform]
      rcases world.file.versions[major]? with _ | minors <;> exact .inl rfl
  | readHead => exact .inl (congrArg StoredFile.head world.make_readHead_file)
  | _ => exact .inl rfl

/-- The blob that a call works on. -/
def FsCall.blob : FsCall → Option Bytes
  | openBlob blob | writeBlob blob _ | rename blob _ _ => some blob
  | _ => none

/-- A call leaves alone the blobs that it does not work on. -/
theorem make_blobs {blob : Bytes} (other : call.blob ≠ some blob) :
    (world.make call).file.blobs[blob]? = world.file.blobs[blob]? := by
  cases call with
  | openBlob touched | writeBlob touched data =>
      have different : blob ≠ touched := fun same => other (congrArg some same.symm)
      exact Table.get_insert_ne _ _ different
  | rename touched major minor =>
      have different : blob ≠ touched := fun same => other (congrArg some same.symm)
      rw [FileWorld.make, perform]
      rcases world.file.blobs[touched]? with _ | content
      · rfl
      · rcases world.file.versions[major]? with _ | minors
        · rfl
        · exact Table.get_erase_ne _ different
  | createDir major =>
      rw [FileWorld.make, perform]
      rcases world.file.versions[major]? with _ | minors <;> rfl
  | linkHead target =>
      rw [FileWorld.make, perform]
      rcases world.file.head with _ | entry <;> rfl
  | readHead => exact congrArg (fun file => file.blobs[blob]?) world.make_readHead_file
  | _ => rfl

/-- The directory of a major version that a call works on. -/
def FsCall.major : FsCall → Option Bytes
  | createDirAll major | createDir major | rename _ major _ => some major
  | _ => none

/-- A call leaves alone the directories that it does not work on. -/
theorem make_versions {major : Bytes} (other : call.major ≠ some major) :
    (world.make call).file.versions[major]? = world.file.versions[major]? := by
  cases call with
  | createDirAll touched =>
      have different : major ≠ touched := fun same => other (congrArg some same.symm)
      exact Table.get_insert_ne _ _ different
  | createDir touched =>
      have different : major ≠ touched := fun same => other (congrArg some same.symm)
      rw [FileWorld.make, perform]
      rcases world.file.versions[touched]? with _ | minors
      · exact Table.get_insert_ne _ _ different
      · rfl
  | rename blob touched minor =>
      have different : major ≠ touched := fun same => other (congrArg some same.symm)
      rw [FileWorld.make, perform]
      rcases world.file.blobs[blob]? with _ | content
      · rfl
      · rcases world.file.versions[touched]? with _ | minors
        · rfl
        · exact Table.get_insert_ne _ _ different
  | linkHead target =>
      rw [FileWorld.make, perform]
      rcases world.file.head with _ | entry <;> rfl
  | readHead => exact congrArg (fun file => file.versions[major]?) world.make_readHead_file
  | _ => rfl

/-- A `create_dir` of a directory that is there fails and changes nothing. -/
theorem make_createDir_of_taken {major : Bytes} (taken : Taken world.file major) :
    (world.make (.createDir major)).file = world.file :=
  FileWorld.make_file_of_error (perform_createDir_of_taken taken)

theorem make_createDir_of_free {major : Bytes} (free : ¬ Taken world.file major) :
    (world.make (.createDir major)).file.versions[major]? = some ∅ := by
  rw [FileWorld.make_file_of_ok (perform_createDir_of_free free)]
  exact Table.get_insert_self _ _ _

/-- A `rename` of a blob to a version, when both the blob and the directory are there. -/
theorem perform_rename {file : StoredFile} {blob major content : Bytes}
    {minors : Table Bytes Bytes} (there : file.blobs[blob]? = some content)
    (found : file.versions[major]? = some minors) (minor : Bytes) :
    perform file (.rename blob major minor) = .ok { file with
      blobs := file.blobs.erase blob
      versions := file.versions.insert major (minors.insert minor content) } := by
  rw [perform, there, found]

/-- A `rename` that succeeds has made the version. -/
theorem versionFile_of_renamed {file after : StoredFile} {blob major minor : Bytes}
    (renamed : perform file (.rename blob major minor) = .ok after) :
    after.versionFile major minor ≠ none := by
  rw [perform] at renamed
  split at renamed
  · cases renamed
    rw [StoredFile.versionFile, Table.get_insert_self, Option.bind_some, Table.get_insert_self]
    exact Option.some_ne_none _
  · cases renamed

/-- What a `rename` makes of the directory that it goes to. -/
theorem make_rename_versions (world : FileWorld) (blob major minor : Bytes) :
    (world.make (.rename blob major minor)).file.versions[major]? =
        world.file.versions[major]? ∨
      ∃ minors content, world.file.versions[major]? = some minors ∧
        world.file.blobs[blob]? = some content ∧
        (world.make (.rename blob major minor)).file.versions[major]? =
          some (minors.insert minor content) := by
  rcases there : world.file.blobs[blob]? with _ | content
  · refine .inl ?_
    rw [FileWorld.make, perform, there]
    rfl
  · rcases found : world.file.versions[major]? with _ | minors
    · refine .inl ?_
      rw [FileWorld.make, perform, there, found]
      exact found
    · refine .inr ⟨minors, content, rfl, rfl, ?_⟩
      rw [FileWorld.make_file_of_ok (perform_rename there found minor)]
      exact Table.get_insert_self _ _ _

theorem taken_createDirAll (world : FileWorld) (major : Bytes) :
    Taken (world.make (.createDirAll major)).file major := by
  rw [Taken, FileWorld.make_file_of_ok rfl, Table.get_insert_self]
  exact Option.some_ne_none _

/-- **No call removes a directory.** -/
theorem make_taken {major : Bytes} (taken : Taken world.file major) (call : FsCall) :
    Taken (world.make call).file major := by
  by_cases touched : call.major = some major
  · cases call with
    | createDirAll made =>
        obtain rfl := Option.some_inj.mp touched
        exact taken_createDirAll world _
    | createDir made =>
        obtain rfl := Option.some_inj.mp touched
        rw [make_createDir_of_taken taken]
        exact taken
    | rename blob target minor =>
        obtain rfl := Option.some_inj.mp touched
        rcases make_rename_versions world blob _ minor with same | ⟨_, _, _, _, changed⟩
        · rw [Taken, same]
          exact taken
        · rw [Taken, changed]
          exact Option.some_ne_none _
    | _ => cases touched
  · rw [Taken, make_versions touched]
    exact taken

/-- A version that is not there after its directory was created was not there before. -/
theorem versionFile_of_free {file : StoredFile} {major : Bytes} (free : ¬ Taken file major)
    (minor : Bytes) : file.versionFile major minor = none := by
  rw [StoredFile.versionFile, not_not.mp free]
  rfl

/-- **Only a `rename` makes a version, with the contents of its blob.** -/
theorem make_versionFile (world : FileWorld) (call : FsCall) (major minor : Bytes) :
    (world.make call).file.versionFile major minor = world.file.versionFile major minor ∨
      ∃ blob content, call = .rename blob major minor ∧
        world.file.blobs[blob]? = some content ∧
        (world.make call).file.versionFile major minor = some content := by
  by_cases touched : call.major = some major
  · cases call with
    | createDirAll made => exact .inl (versionFile_createDirAll world.file made major minor)
    | createDir made =>
        obtain rfl := Option.some_inj.mp touched
        by_cases taken : Taken world.file made
        · rw [make_createDir_of_taken taken]
          exact .inl rfl
        · rw [versionFile_createDir taken, versionFile_of_free taken]
          exact .inl rfl
    | rename blob target renamed =>
        obtain rfl := Option.some_inj.mp touched
        rw [StoredFile.versionFile, StoredFile.versionFile]
        rcases make_rename_versions world blob _ renamed with
          same | ⟨minors, content, found, there, changed⟩
        · exact .inl (by rw [same])
        · rw [changed, found, Option.bind_some, Option.bind_some]
          by_cases same : minor = renamed
          · subst same
            exact .inr ⟨blob, content, rfl, there, Table.get_insert_self _ _ _⟩
          · exact .inl (Table.get_insert_ne _ _ same)
    | _ => cases touched
  · rw [StoredFile.versionFile, make_versions touched]
    exact .inl rfl

/-- A directory that a call has added. -/
theorem taken_of_make {major : Bytes} (taken : Taken (world.make call).file major) :
    Taken world.file major ∨ call = .createDirAll major ∨ call = .createDir major := by
  by_cases touched : call.major = some major
  · cases call with
    | createDirAll made => exact .inr (.inl (congrArg _ (Option.some_inj.mp touched)))
    | createDir made => exact .inr (.inr (congrArg _ (Option.some_inj.mp touched)))
    | rename blob target minor =>
        obtain rfl := Option.some_inj.mp touched
        rcases make_rename_versions world blob _ minor with same | ⟨minors, _, found, _⟩
        · rw [Taken, same] at taken
          exact .inl taken
        · rw [Taken, found]
          exact .inl (Option.some_ne_none minors)
    | _ => cases touched
  · rw [Taken, make_versions touched] at taken
    exact .inl taken

end Changes

/-! ## What an upload owns -/

/-- The state of a directory that uploads share, with the calls that they have made. -/
abbrev RaceScene := Scene FileWorld OsCall

/-- The call draws a ULID, and it is the call of that number. -/
def Draws (number : ℕ) (call : OsCall) (before : FileWorld) : Prop :=
  call = .newUlid ∧ before.calls = number

/-- The call creates the directory of a major version. -/
def Reserving (major : Bytes) (call : OsCall) (before : FileWorld) : Prop :=
  call = .sys (.createDir major) ∧ ¬ Taken before.file major

/-- The call makes the link to the latest version. -/
def Linking (call : OsCall) (before : FileWorld) : Prop :=
  (∃ target, call = .sys (.linkHead target)) ∧ before.file.head = none

section Owning

variable (env : Env)

/-- The name of the blob of a ULID that was drawn. -/
def drawnBlob (number : ℕ) : Bytes := utf8 (blobFileName (env.newUlid number))

/-- The upload has drawn the ULID that names the blob. -/
def OwnsBlob (scene : RaceScene) (upload : ℕ) (blob : Bytes) : Prop :=
  ∃ number, scene.Did upload (Draws number) ∧ blob = drawnBlob env number

/-- A call that can make the data of an upload seen. -/
def isPublishing : OsCall → Bool
  | .sys (.rename _ _ _) | .sys (.linkHead _) => true
  | _ => false

/-- What uploads that run at the same time start from, how many they are, the directories that they
write to without having created them, and what else they keep to when they make their data seen. -/
structure Race where
  start : FileWorld
  count : ℕ
  opened : Bytes → Prop
  rule : ℕ → RaceScene → OsCall → Prop := fun _ _ _ => True
  lenient : ∀ {upload scene call}, isPublishing call = false → rule upload scene call := by
    intros
    trivial

/-- No ULID is drawn twice among the first calls, and none of them names a blob that was there. -/
structure FreshFrom (start : FileWorld) (horizon : ℕ) : Prop where
  fresh : env.FreshBelow horizon
  unused : ∀ number, start.calls ≤ number → number < horizon →
    start.file.blobs[drawnBlob env number]? = none

/-- What does not depend on the ULIDs needs none of them to be fresh. -/
theorem freshFrom_zero (start : FileWorld) : FreshFrom env start 0 where
  fresh := fun _ _ less => absurd less (Nat.not_lt_zero _)
  unused := fun _ _ less => absurd less (Nat.not_lt_zero _)

/-- Different calls draw names of different blobs. -/
theorem FreshFrom.drawnBlob_inj {env : Env} {start : FileWorld} {horizon first second : ℕ}
    (fresh : FreshFrom env start horizon) (firstBelow : first < horizon)
    (secondBelow : second < horizon) (same : drawnBlob env first = drawnBlob env second) :
    first = second := by
  have names := utf8_injective same
  rw [blobFileName, blobFileName, List.append_cancel_right_eq] at names
  exact fresh.fresh firstBelow secondBelow (Ulid.toName_injective names)

variable (race : Race)

/-- What holds in every interleaving: nothing is owned by two uploads, what is owned was not there
before, and what is there and was not there before is owned. -/
structure RaceSound (scene : RaceScene) : Prop where
  uploads : ∀ {upload what}, scene.Did upload what → upload < race.count
  calls : race.start.calls ≤ scene.state.calls
  drawn : ∀ {upload number}, scene.Did upload (Draws number) → number < scene.state.calls
  one_drawer : ∀ {first second number}, scene.Did first (Draws number) →
    scene.Did second (Draws number) → first = second
  blobs : ∀ {blob}, scene.state.file.blobs[blob]? ≠ none →
    race.start.file.blobs[blob]? ≠ none ∨ ∃ upload, OwnsBlob env scene upload blob
  taken : ∀ {major}, Taken race.start.file major → Taken scene.state.file major
  reserved : ∀ {upload major}, scene.Did upload (Reserving major) → Taken scene.state.file major
  one_reserver : ∀ {first second major}, scene.Did first (Reserving major) →
    scene.Did second (Reserving major) → first = second
  one_reservation : ∀ {upload first second}, scene.Did upload (Reserving first) →
    scene.Did upload (Reserving second) → first = second
  not_before : ∀ {upload major}, scene.Did upload (Reserving major) →
    ¬ Taken race.start.file major
  of_taken : ∀ {major}, Taken scene.state.file major → Taken race.start.file major ∨
    race.opened major ∨ ∃ upload, scene.Did upload (Reserving major)
  linked : ∀ {upload}, scene.Did upload Linking → scene.state.file.head ≠ none
  no_link : ∀ {upload}, scene.Did upload Linking → race.start.file.head = none
  one_linker : ∀ {first second}, scene.Did first Linking → scene.Did second Linking →
    first = second
  head : race.start.file.head ≠ none → scene.state.file.head = race.start.file.head
  of_head : scene.state.file.head ≠ none → race.start.file.head ≠ none ∨
    ∃ upload, scene.Did upload Linking

/-- The calls that an upload may make. -/
def Permits (upload : ℕ) (scene : RaceScene) : OsCall → Prop
  | .sys (.openBlob blob) | .sys (.writeBlob blob _) => OwnsBlob env scene upload blob
  | .sys (.createDirAll major) => race.opened major
  | .sys (.createDir _) => ∀ major, ¬ scene.Did upload (Reserving major)
  | .sys (.rename blob major minor) => OwnsBlob env scene upload blob ∧
      (race.opened major ∨ scene.Did upload (Reserving major) ∧
        scene.state.file.versionFile major minor = none)
  | _ => True

/-- What an upload relies on while others make the calls that they may. -/
structure Relied (horizon upload : ℕ) (scene later : RaceScene) : Prop where
  did : ∀ what, later.Did upload what ↔ scene.Did upload what
  calls : scene.state.calls ≤ later.state.calls
  blob : ∀ {blob}, later.state.calls ≤ horizon → OwnsBlob env scene upload blob →
    later.state.file.blobs[blob]? = scene.state.file.blobs[blob]?
  taken : ∀ {major}, Taken scene.state.file major → Taken later.state.file major
  versions : ∀ {major}, scene.Did upload (Reserving major) → ¬ race.opened major →
    later.state.file.versions[major]? = scene.state.file.versions[major]?
  files : ∀ {major minor}, scene.state.file.versionFile major minor ≠ none →
    later.state.file.versionFile major minor ≠ none
  head : scene.state.file.head ≠ none → later.state.file.head = scene.state.file.head

end Owning

/-! ## What a call changes in a scene -/

section Kept

variable {env : Env} {race : Race} {scene : RaceScene} {upload : ℕ} {call : OsCall}

theorem OwnsBlob.make {other : ℕ} {blob : Bytes} (owns : OwnsBlob env scene upload blob) :
    OwnsBlob env (scene.make (performOs env) other call) upload blob := by
  obtain ⟨number, drew, named⟩ := owns
  exact ⟨number, Scene.did_make.mpr (.inl drew), named⟩

/-- The blob and the directory that a call works on. -/
def OsCall.blob : OsCall → Option Bytes
  | sys call => call.blob
  | _ => none

def OsCall.major : OsCall → Option Bytes
  | sys call => call.major
  | _ => none

theorem scene_calls (scene : RaceScene) (upload : ℕ) (call : OsCall) :
    scene.state.calls ≤ (scene.make (performOs env) upload call).state.calls := by
  cases call with
  | newUlid | transfer size => exact Nat.le_succ _
  | sys call | readLink => exact Nat.le_refl _

theorem scene_head (scene : RaceScene) (upload : ℕ) (call : OsCall) :
    (scene.make (performOs env) upload call).state.file.head = scene.state.file.head ∨
      Linking call scene.state := by
  cases call with
  | newUlid | transfer size => exact .inl rfl
  | readLink => exact .inl (congrArg StoredFile.head scene.state.make_readHead_file)
  | sys call =>
      rcases make_head scene.state call with same | ⟨target, rfl, none⟩
      · exact .inl same
      · exact .inr ⟨⟨target, rfl⟩, none⟩

theorem scene_head_of_linkHead (missing : scene.state.file.head = none) (target : Bytes) :
    (scene.make (performOs env) upload (.sys (.linkHead target))).state.file.head =
      some (.link target) := by
  have linked : perform scene.state.file (.linkHead target) =
      .ok { scene.state.file with head := some (.link target) } := by rw [perform, missing]
  exact congrArg StoredFile.head (FileWorld.make_file_of_ok linked)

theorem scene_head_of_linking (linking : Linking call scene.state) :
    (scene.make (performOs env) upload call).state.file.head ≠ none := by
  obtain ⟨⟨target, rfl⟩, missing⟩ := linking
  rw [scene_head_of_linkHead missing]
  exact Option.some_ne_none _

theorem scene_head_of_linked (linked : scene.state.file.head ≠ none) (upload : ℕ)
    (call : OsCall) :
    (scene.make (performOs env) upload call).state.file.head = scene.state.file.head := by
  rcases @scene_head env scene upload call with same | linking
  · exact same
  · exact absurd linking.2 linked

theorem scene_blobs {blob : Bytes} (other : call.blob ≠ some blob) :
    (scene.make (performOs env) upload call).state.file.blobs[blob]? =
      scene.state.file.blobs[blob]? := by
  cases call with
  | newUlid | transfer size => rfl
  | readLink =>
      exact congrArg (fun file => file.blobs[blob]?) scene.state.make_readHead_file
  | sys call => exact make_blobs other

theorem scene_versions {major : Bytes} (other : call.major ≠ some major) :
    (scene.make (performOs env) upload call).state.file.versions[major]? =
      scene.state.file.versions[major]? := by
  cases call with
  | newUlid | transfer size => rfl
  | readLink =>
      exact congrArg (fun file => file.versions[major]?) scene.state.make_readHead_file
  | sys call => exact make_versions other

theorem scene_versionFile (scene : RaceScene) (upload : ℕ) (call : OsCall) (major minor : Bytes) :
    (scene.make (performOs env) upload call).state.file.versionFile major minor =
        scene.state.file.versionFile major minor ∨
      ∃ blob content, call = .sys (.rename blob major minor) ∧
        scene.state.file.blobs[blob]? = some content ∧
        (scene.make (performOs env) upload call).state.file.versionFile major minor =
          some content := by
  cases call with
  | newUlid | transfer size => exact .inl rfl
  | readLink =>
      exact .inl (congrArg (StoredFile.versionFile · major minor) scene.state.make_readHead_file)
  | sys call =>
      refine (make_versionFile scene.state call major minor).imp_right ?_
      rintro ⟨blob, content, rfl, there, version⟩
      exact ⟨blob, content, rfl, there, version⟩

/-- No call removes a version. -/
theorem scene_versionFile_ne {major minor : Bytes}
    (there : scene.state.file.versionFile major minor ≠ none) (upload : ℕ) (call : OsCall) :
    (scene.make (performOs env) upload call).state.file.versionFile major minor ≠ none := by
  rcases @scene_versionFile env scene upload call major minor with
    same | ⟨_, content, _, _, version⟩
  · rw [same]
    exact there
  · rw [version]
    exact Option.some_ne_none content

theorem scene_taken {major : Bytes} (taken : Taken scene.state.file major) (upload : ℕ)
    (call : OsCall) : Taken (scene.make (performOs env) upload call).state.file major := by
  cases call with
  | newUlid | transfer size => exact taken
  | readLink => exact make_taken taken .readHead
  | sys call => exact make_taken taken call

theorem taken_of_scene {major : Bytes}
    (taken : Taken (scene.make (performOs env) upload call).state.file major) :
    Taken scene.state.file major ∨ call = .sys (.createDirAll major) ∨
      Reserving major call scene.state := by
  by_cases before : Taken scene.state.file major
  · exact .inl before
  · cases call with
    | newUlid | transfer size => exact .inl taken
    | readLink =>
        rcases taken_of_make taken with there | made | made
        · exact .inl there
        · cases made
        · cases made
    | sys call =>
        rcases taken_of_make taken with there | rfl | rfl
        · exact .inl there
        · exact .inr (.inl rfl)
        · exact .inr (.inr ⟨rfl, before⟩)

theorem taken_of_reserving {major : Bytes} (reserving : Reserving major call scene.state) :
    Taken (scene.make (performOs env) upload call).state.file major := by
  obtain ⟨rfl, free⟩ := reserving
  have created : (scene.make (performOs env) upload (.sys (.createDir major))).state.file.versions[
      major]? = some ∅ := make_createDir_of_free free
  rw [Taken, created]
  exact Option.some_ne_none _

/-- An upload works only on blobs that are its own. -/
theorem Permits.owns {blob : Bytes} (permitted : Permits env race upload scene call)
    (touched : call.blob = some blob) : OwnsBlob env scene upload blob := by
  cases call with
  | newUlid | transfer size | readLink => cases touched
  | sys call =>
      cases call with
      | openBlob other | writeBlob other data => exact Option.some_inj.mp touched ▸ permitted
      | rename other major minor => exact Option.some_inj.mp touched ▸ permitted.1
      | _ => cases touched

/-- An upload works only on directories that are open to it, or that it has created or creates. -/
theorem Permits.opened {major : Bytes} (permitted : Permits env race upload scene call)
    (touched : call.major = some major) : race.opened major ∨
      scene.Did upload (Reserving major) ∨ call = .sys (.createDir major) := by
  cases call with
  | newUlid | transfer size | readLink => cases touched
  | sys call =>
      cases call with
      | createDirAll other => exact .inl (Option.some_inj.mp touched ▸ permitted)
      | createDir other =>
          obtain rfl := Option.some_inj.mp touched
          exact .inr (.inr rfl)
      | rename blob other minor =>
          obtain rfl := Option.some_inj.mp touched
          exact permitted.2.imp_right fun reserved => .inl reserved.1
      | _ => cases touched

/-! ## The invariant -/

/-- **A call that is permitted keeps what holds in every interleaving.** -/
theorem RaceSound.make (sound : RaceSound env race scene) (inRange : upload < race.count)
    (permitted : Permits env race upload scene call) :
    RaceSound env race (scene.make (performOs env) upload call) where
  uploads := by
    intro other what did
    rcases Scene.did_make.mp did with earlier | ⟨rfl, _⟩
    · exact sound.uploads earlier
    · exact inRange
  calls := sound.calls.trans (scene_calls scene upload call)
  drawn := by
    intro other number did
    rcases Scene.did_make.mp did with earlier | ⟨rfl, rfl, rfl⟩
    · exact (sound.drawn earlier).trans_le (scene_calls scene upload call)
    · exact Nat.lt_succ_self _
  one_drawer := by
    intro first second number here there
    rcases Scene.did_make.mp here with earlier | ⟨rfl, _, rfl⟩
    · rcases Scene.did_make.mp there with also | ⟨rfl, _, rfl⟩
      · exact sound.one_drawer earlier also
      · exact absurd (sound.drawn earlier) (Nat.lt_irrefl _)
    · rcases Scene.did_make.mp there with earlier | ⟨rfl, _⟩
      · exact absurd (sound.drawn earlier) (Nat.lt_irrefl _)
      · rfl
  blobs := by
    intro blob there
    by_cases touched : call.blob = some blob
    · exact .inr ⟨upload, (permitted.owns touched).make⟩
    · rw [scene_blobs touched] at there
      exact (sound.blobs there).imp_right fun ⟨owner, owns⟩ => ⟨owner, owns.make⟩
  taken := fun taken => scene_taken (sound.taken taken) upload call
  reserved := by
    intro other major did
    rcases Scene.did_make.mp did with earlier | ⟨rfl, reserving⟩
    · exact scene_taken (sound.reserved earlier) upload call
    · exact taken_of_reserving reserving
  one_reserver := by
    intro first second major here there
    rcases Scene.did_make.mp here with earlier | ⟨rfl, reserving⟩
    · rcases Scene.did_make.mp there with also | ⟨rfl, reserving⟩
      · exact sound.one_reserver earlier also
      · exact absurd (sound.reserved earlier) reserving.2
    · rcases Scene.did_make.mp there with earlier | ⟨rfl, _⟩
      · exact absurd (sound.reserved earlier) reserving.2
      · rfl
  one_reservation := by
    intro other first second here there
    rcases Scene.did_make.mp here with earlier | ⟨rfl, rfl, _⟩
    · rcases Scene.did_make.mp there with also | ⟨rfl, rfl, _⟩
      · exact sound.one_reservation earlier also
      · exact absurd earlier (permitted first)
    · rcases Scene.did_make.mp there with earlier | ⟨_, same, _⟩
      · exact absurd earlier (permitted second)
      · cases same
        rfl
  not_before := by
    intro other major did before
    rcases Scene.did_make.mp did with earlier | ⟨rfl, reserving⟩
    · exact sound.not_before earlier before
    · exact reserving.2 (sound.taken before)
  of_taken := by
    intro major taken
    rcases taken_of_scene taken with there | rfl | reserving
    · refine (sound.of_taken there).imp_right fun known => ?_
      exact known.imp_right fun ⟨owner, did⟩ => ⟨owner, Scene.did_make.mpr (.inl did)⟩
    · exact .inr (.inl permitted)
    · exact .inr (.inr ⟨upload, Scene.did_make.mpr (.inr ⟨rfl, reserving⟩)⟩)
  linked := by
    intro other did
    rcases Scene.did_make.mp did with earlier | ⟨rfl, linking⟩
    · rw [scene_head_of_linked (sound.linked earlier)]
      exact sound.linked earlier
    · exact scene_head_of_linking linking
  no_link := by
    intro other did
    rcases Scene.did_make.mp did with earlier | ⟨rfl, linking⟩
    · exact sound.no_link earlier
    · by_contra before
      exact before ((sound.head before).symm.trans linking.2)
  one_linker := by
    intro first second here there
    rcases Scene.did_make.mp here with earlier | ⟨rfl, linking⟩
    · rcases Scene.did_make.mp there with also | ⟨rfl, linking⟩
      · exact sound.one_linker earlier also
      · exact absurd linking.2 (sound.linked earlier)
    · rcases Scene.did_make.mp there with earlier | ⟨rfl, _⟩
      · exact absurd linking.2 (sound.linked earlier)
      · rfl
  head := by
    intro before
    rw [scene_head_of_linked, sound.head before]
    rw [sound.head before]
    exact before
  of_head := by
    intro linked
    rcases @scene_head env scene upload call with same | linking
    · rw [same] at linked
      refine (sound.of_head linked).imp_right fun ⟨linker, did⟩ => ?_
      exact ⟨linker, Scene.did_make.mpr (.inl did)⟩
    · exact .inr ⟨upload, Scene.did_make.mpr (.inr ⟨rfl, linking⟩)⟩

end Kept

/-! ## What an upload relies on -/

section Relying

variable {env : Env} {race : Race} {horizon upload other : ℕ} {scene : RaceScene} {call : OsCall}

theorem Relied.refl (scene : RaceScene) : Relied env race horizon upload scene scene where
  did := fun _ => Iff.rfl
  calls := Nat.le_refl _
  blob := fun _ _ => rfl
  taken := id
  versions := fun _ _ => rfl
  files := id
  head := fun _ => rfl

theorem Relied.owns {later : RaceScene} (relied : Relied env race horizon upload scene later)
    {blob : Bytes} (owns : OwnsBlob env scene upload blob) : OwnsBlob env later upload blob := by
  obtain ⟨number, drew, named⟩ := owns
  exact ⟨number, (relied.did _).mpr drew, named⟩

theorem Relied.trans {second third : RaceScene} (here : Relied env race horizon upload scene second)
    (onwards : Relied env race horizon upload second third) :
    Relied env race horizon upload scene third where
  did := fun what => (onwards.did what).trans (here.did what)
  calls := here.calls.trans onwards.calls
  blob := fun inTime owns => (onwards.blob inTime (here.owns owns)).trans
    (here.blob (onwards.calls.trans inTime) owns)
  taken := fun taken => onwards.taken (here.taken taken)
  versions := fun reserved closed => (onwards.versions ((here.did _).mpr reserved) closed).trans
    (here.versions reserved closed)
  files := fun there => onwards.files (here.files there)
  head := by
    intro linked
    have same := here.head linked
    rw [← same]
    apply onwards.head
    rw [same]
    exact linked

/-- An upload keeps its blob while another makes a call that is permitted. -/
theorem RaceSound.blob_kept (sound : RaceSound env race scene)
    (fresh : FreshFrom env race.start horizon) (different : upload ≠ other)
    (permitted : Permits env race other scene call) {blob : Bytes}
    (inTime : scene.state.calls ≤ horizon) (owns : OwnsBlob env scene upload blob) :
    (scene.make (performOs env) other call).state.file.blobs[blob]? =
      scene.state.file.blobs[blob]? := by
  apply scene_blobs
  intro touched
  obtain ⟨number, drew, rfl⟩ := owns
  obtain ⟨also, alsoDrew, same⟩ := permitted.owns touched
  have below := (sound.drawn drew).trans_le inTime
  have alsoBelow := (sound.drawn alsoDrew).trans_le inTime
  obtain rfl := fresh.drawnBlob_inj below alsoBelow same
  exact different (sound.one_drawer drew alsoDrew)

/-- An upload keeps the directory that it has created while another makes a call that is
permitted. -/
theorem RaceSound.versions_kept (sound : RaceSound env race scene) (different : upload ≠ other)
    (permitted : Permits env race other scene call) {major : Bytes}
    (reserved : scene.Did upload (Reserving major)) (closed : ¬ race.opened major) :
    (scene.make (performOs env) other call).state.file.versions[major]? =
      scene.state.file.versions[major]? := by
  by_cases touched : call.major = some major
  · rcases permitted.opened touched with opened | also | rfl
    · exact absurd opened closed
    · exact absurd (sound.one_reserver reserved also) different
    · exact congrArg (fun file => file.versions[major]?)
        (make_createDir_of_taken (sound.reserved reserved))
  · exact scene_versions touched

theorem RaceSound.relied (sound : RaceSound env race scene)
    (fresh : FreshFrom env race.start horizon) (different : upload ≠ other)
    (permitted : Permits env race other scene call) :
    Relied env race horizon upload scene (scene.make (performOs env) other call) where
  did := fun _ => Scene.did_make.trans
    (or_iff_left fun latest => different latest.1.symm)
  calls := scene_calls scene other call
  blob := fun inTime owns => sound.blob_kept fresh different permitted
    ((scene_calls scene other call).trans inTime) owns
  taken := fun taken => scene_taken taken other call
  versions := fun reserved closed => sound.versions_kept different permitted reserved closed
  files := fun there => scene_versionFile_ne there other call
  head := fun linked => scene_head_of_linked linked other call

/-- The discipline of uploads that run at the same time. -/
def racing (race : Race) (fresh : FreshFrom env race.start horizon) :
    Discipline (performOs env) where
  sound := RaceSound env race
  permits := fun upload scene call =>
    (upload < race.count ∧ Permits env race upload scene call) ∧ race.rule upload scene call
  rely := Relied env race horizon
  rely_refl := fun _ scene => .refl scene
  rely_trans := Relied.trans
  kept := fun sound permitted => sound.make permitted.1.1 permitted.1.2
  others := fun different sound permitted => sound.relied fresh different permitted.1.2

end Relying

end Yeetbox.FileStorage
