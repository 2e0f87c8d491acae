import Yeetbox.Storage.Entries

/-!
# Versions

An append should add a version to its file, and so should an upload that asks for the next one.
Neither does. An append leaves every table alone, so a sequence of appends accumulates as versions
exactly when it is empty (`appendsAccumulate_iff`). An upload with `next` is rejected at a key that
is taken, so it never extends the history of a file (`nextUpload_never_extends`).
-/

set_option autoImplicit false

namespace Yeetbox.Storage

open Library

variable (env : Env)

/-! ## Appending -/

/-- What an append adds, and the version that it names. -/
structure Piece where
  version : Option RequestedFileVersion := none
  data : Payload

/-- The append of a piece to a path. -/
def Piece.appendTo (path : List Name) (piece : Piece) : AppendArg where
  target := some ⟨path, piece.version⟩
  data := piece.data

/-- The world after a piece was appended to a path. -/
def afterAppend (path : List Name) (world : World) (piece : Piece) : World :=
  ((append env (piece.appendTo path)).run world).state

/-- The bytes of some pieces, one after the other. -/
def Piece.bytes (pieces : List Piece) : Bytes := pieces.flatMap fun piece => piece.data.bytes

/-- What a sequence of appends to a file is for: each one adds a version, which reads as the content
before and what was appended so far. -/
structure AppendsAccumulate (world : World) (path : List Name) (key : Bytes)
    (record : FsRecordValue) (content : Bytes) (pieces : List Piece) : Prop where
  latest : ∃ record', RecordAt (runAll (afterAppend env path) world pieces).db.fs key record' ∧
    record'.latestVersion.toNat = record.latestVersion.toNat + pieces.length
  head : Reads env (runAll (afterAppend env path) world pieces) path none
    (content ++ Piece.bytes pieces)
  versions : ∀ count ≤ pieces.length, Reads env (runAll (afterAppend env path) world pieces) path
    (some (record.latestVersion + .ofNat count)) (content ++ Piece.bytes (pieces.take count))

variable {env}

/-- An append leaves the tables alone. -/
theorem append_db (world : World) (req : AppendArg) :
    ((append env req).run world).state.db = world.db := by
  have outcome := append_cases env world req
  generalize (append env req).run world = done at outcome
  cases outcome with
  | refused err => rfl
  | appended _ _ _ _ _ later _ _ _ _ result => rw [result]; rfl

theorem runAll_afterAppend_db (world : World) (path : List Name) (pieces : List Piece) :
    (runAll (afterAppend env path) world pieces).db = world.db := by
  have kept : ∀ (reached : World) (piece : Piece), reached.db = world.db →
      (afterAppend env path reached piece).db = world.db := by
    intro reached piece same
    exact (append_db reached (piece.appendTo path)).trans same
  exact runAll_invariant kept pieces rfl

/-- Without a version, a download asks for the latest one. -/
theorem Reads.latest {world : World} {path : List Name} {key : Bytes} {record : FsRecordValue}
    {content : Bytes} (file : FileAt env.toNormalization world.db.fs path key record)
    (reads : Reads env world path none content) :
    Reads env world path (some record.latestVersion) content := by
  intro offset length inside noWrap
  obtain ⟨more, served⟩ := reads offset length inside noWrap
  have same := run_download_latest env file.resolved file.there offset length
  exact ⟨more, (congrArg Outcome.result same).trans served⟩

/-- **Appends accumulate as versions exactly when there are none.** -/
theorem appendsAccumulate_iff (world : World) (path : List Name) (key : Bytes)
    (record : FsRecordValue) (content : Bytes) (pieces : List Piece)
    (file : FileAt env.toNormalization world.db.fs path key record)
    (reads : Reads env world path none content) :
    AppendsAccumulate env world path key record content pieces ↔ pieces = [] := by
  constructor
  · intro accumulate
    obtain ⟨record', there', latest⟩ := accumulate.latest
    rw [runAll_afterAppend_db] at there'
    rw [there'.unique file.there] at latest
    exact List.eq_nil_of_length_eq_zero (by omega)
  · rintro rfl
    refine ⟨⟨record, file.there, rfl⟩, ?_, ?_⟩
    · simpa [Piece.bytes] using reads
    · intro count none
      have zero : count = 0 := Nat.le_zero.mp none
      subst zero
      simpa [Piece.bytes] using reads.latest file

/-- An append of one byte to the one file, and what it is expected to do. -/
theorem oneFile_appendsAccumulate_iff :
    AppendsAccumulate (.numbered .unchanged) oneFile [['a']] (entryKey rootFsid ['a'])
      oneFileRecord [1, 2] [⟨none, { bytes := [3] }⟩] ↔
        [⟨none, { bytes := [3] }⟩] = ([] : List Piece) :=
  appendsAccumulate_iff oneFile [['a']] (entryKey rootFsid ['a']) oneFileRecord [1, 2] _
    oneFile_there oneFile_reads

/-- The append returns `Ok`, and the file has no new version. -/
theorem oneFile_append_lost :
    ((append (.numbered .unchanged) (Piece.appendTo [['a']] ⟨none, { bytes := [3] }⟩)).run
        oneFile).result = .ok () ∧
      ¬ AppendsAccumulate (.numbered .unchanged) oneFile [['a']] (entryKey rootFsid ['a'])
        oneFileRecord [1, 2] [⟨none, { bytes := [3] }⟩] := by
  refine ⟨by decide, fun accumulate => ?_⟩
  obtain ⟨record, there, latest⟩ := accumulate.latest
  have same : RecordAt oneFile.db.fs (entryKey rootFsid ['a']) record := by
    rw [runAll_afterAppend_db] at there
    exact there
  rw [same.unique oneFile_there.there] at latest
  exact absurd latest (by decide)

/-! ## Uploading the next version -/

variable (env)

/-- What an upload of the next version of a file is for: the file keeps its id and creation time
and gets a version more, which reads as the data, and the older versions read as before. -/
structure ExtendsHistory (world : World) (req : UploadArg) (path : List Name) (key : Bytes)
    (record : FsRecordValue) (content : Bytes) : Prop where
  accepted : ∃ result, ((upload env req).run world).result = .ok result
  entry : ∃ record', RecordAt ((upload env req).run world).state.db.fs key record' ∧
    record'.id = record.id ∧ record'.createTime = record.createTime ∧
    record'.latestVersion.toNat = record.latestVersion.toNat + 1
  head : Reads env ((upload env req).run world).state path none content
  next : Reads env ((upload env req).run world).state path (some (record.latestVersion + 1)) content
  older : ∀ version : FsVersion, 1 ≤ version.toNat → version ≤ record.latestVersion →
    ∀ before, Reads env world path (some version) before →
      Reads env ((upload env req).run world).state path (some version) before

variable {env}

/-- An upload that returns `Ok` leaves every entry alone that was there. -/
theorem upload_keeps_records {world : World} {req : UploadArg} {result : UploadResult}
    {key : Bytes} {record : FsRecordValue}
    (ok : ((upload env req).run world).result = .ok result)
    (there : RecordAt world.db.fs key record) :
    RecordAt ((upload env req).run world).state.db.fs key record := by
  have done := upload_ok ok
  generalize ((upload env req).run world).state = later at done ⊢
  cases done with
  | fragment ulid drawn token incomplete =>
      have db : (withReceived env drawn req ulid).db = world.db := token.db
      rw [db]
      exact there
  | committed target lastName ulid drawn parentId saved moved stops targeted named token complete
      walked free save =>
      refine recordAt_insert_iff.mpr (.inr ⟨?_, there⟩)
      rintro rfl
      exact there.not_free free

/-- **No upload, with `next` or without, extends the history of a file.** -/
theorem nextUpload_never_extends (world : World) (req : UploadArg) (path : List Name)
    (key : Bytes) (record : FsRecordValue) (content : Bytes)
    (file : FileAt env.toNormalization world.db.fs path key record) :
    ¬ ExtendsHistory env world req path key record content := by
  intro extended
  obtain ⟨result, ok⟩ := extended.accepted
  obtain ⟨record', there, _, _, latest⟩ := extended.entry
  rw [there.unique (upload_keeps_records ok file.there)] at latest
  omega

/-- An upload of the next version of the one file. -/
def uploadNext : UploadArg := { uploadOneFile with data := { bytes := [3] }, next := true }

theorem oneFile_not_extended :
    ¬ ExtendsHistory (.numbered .unchanged) oneFile uploadNext [['a']] (entryKey rootFsid ['a'])
      oneFileRecord [3] :=
  nextUpload_never_extends oneFile uploadNext [['a']] _ oneFileRecord [3] oneFile_there

/-- The upload is rejected, although it asks for the next version. -/
theorem uploadNext_rejected :
    ((upload (.numbered .unchanged) uploadNext).run oneFile).result =
        .error (.internal "replaced existing folder") ∧
      ¬ ExtendsHistory (.numbered .unchanged) oneFile uploadNext [['a']] (entryKey rootFsid ['a'])
        oneFileRecord [3] := by
  have rejected : ((upload (.numbered .unchanged) uploadNext).run oneFile).result =
      .error (.internal "replaced existing folder") := by
    decide
  refine ⟨rejected, fun extended => ?_⟩
  obtain ⟨result, accepted⟩ := extended.accepted
  rw [rejected] at accepted
  cases accepted

end Yeetbox.Storage
