import Yeetbox.Storage.Request
import Yeetbox.Storage.Walk

/-!
# Downloading

`download` finds the row of the requested version, opens the blob that the row names, and reads
once from the requested offset. A recorded length bounds what is requested; without one
(`UNKNOWN_SIZE`) only the file itself does.

`run_download` says what a download of a row that is in order does.
-/

set_option autoImplicit false

namespace Yeetbox.Storage

open Library Handler

variable (env : Env)

/-- `MAX_READ_SIZE`. -/
def maxReadSize : ℕ := 8 * 1024 * 1024

/-- The key that `download` looks up. -/
def downloadKey (normalization : Normalization) (parentId : FileSystemId) (fileName : Name) :
    Bytes :=
  makeKey normalization parentId fileName

/-- The part of `download` after the row of the requested version was read. -/
def downloadVersion (offset length : UInt64) (versionRecBytes : Bytes) : Op DownloadResult := do
  let versionRec ← orFail .panic (versionValueFromBytes versionRecBytes)
  let knownSize : Bool := versionRec.length != unknownSize
  rejectIf (offset > 0 && knownSize && offset > versionRec.length)
    (.invalidArgument "offset beyond end of file")
  let versionBlob ← fromUtf8Unchecked (versionRecBytes.drop versionValueSize)
  let content ← openExisting (inBlobs versionBlob)
  if offset > 0 then seek offset else pure ()
  -- The requested length is truncated to the recorded one. The sum wraps around.
  let reqLength := if knownSize && offset + length > versionRec.length then
    versionRec.length - offset else length
  let allocSize := min reqLength.toNat maxReadSize
  let data ← read env allocSize (content.drop offset.toNat)
  pure { data := data, more := data.length == allocSize }

def download (req : DownloadArg) : Op DownloadResult := do
  let target ← orFail (.invalidArgument "target is required") req.target
  let fileName ← orFail (.invalidArgument "target may not be empty") target.path.getLast?
  let world ← get
  let parentId ← ofExcept (descendPath env.toNormalization world.db.fs target.path.dropLast)
  let fileKey := downloadKey env.toNormalization parentId fileName
  let fileRecBytes ← orFail (.invalidArgument "no such file") world.db.fs[fileKey]?
  let fileRec ← orFail .panic (fsRecordFromBytes fileRecBytes)
  rejectIf (!isReadableObjType fileRec.type) (.invalidArgument "not a readable object")
  -- `OBJ_TYPE_FILE` is no constant, so the first arm of the match takes every type.
  let requestedVersion :=
    (target.version.map RequestedFileVersion.major).getD fileRec.latestVersion
  let versionKey := rowKey fileRec.id requestedVersion
  rejectIf (!world.db.verCreated) (.internal "could not read from versions table")
  let versionRecBytes ← orFail (.internal "database corrupted: missing version")
    world.db.ver[versionKey]?
  downloadVersion env req.offset req.length versionRecBytes

/-! ## What a download does -/

/-- What `download` can do: it changes nothing but the count of the reads. -/
inductive DownloadCases (world : World) : Outcome World Status DownloadResult → Prop where
  | refused (err : Status) : DownloadCases world ⟨.error err, world, []⟩
  | served (result : DownloadResult) : DownloadCases world ⟨.ok result, world.advance 1, []⟩

theorem downloadVersion_cases (world : World) (offset length : UInt64)
    (versionRecBytes : Bytes) :
    DownloadCases world ((downloadVersion env offset length versionRecBytes).run world) := by
  rw [downloadVersion]
  rcases versionValueFromBytes versionRecBytes with _ | versionRec
  · exact .refused _
  rw [run_orFail_some_bind]
  dsimp only
  cases (decide (offset > 0) && versionRec.length != unknownSize &&
    decide (offset > versionRec.length)) with
  | true => exact .refused _
  | false =>
      rw [run_rejectIf_false_bind]
      rcases run_fromUtf8Unchecked_bind (versionRecBytes.drop versionValueSize) _ world with
        bad | text
      · rw [bad]
        exact .refused _
      rw [text]
      rcases there : world.blobs[inBlobs (versionRecBytes.drop versionValueSize)]? with
        _ | content
      · rw [run_openExisting_bind_missing there]
        exact .refused _
      rw [run_openExisting_bind_found there]
      split
      · rw [seek]
        cases decide (2 ^ 63 ≤ offset.toNat) with
        | true => exact .refused _
        | false => exact .served _
      · exact .served _

theorem download_cases (world : World) (req : DownloadArg) :
    DownloadCases world ((download env req).run world) := by
  rw [download]
  rcases req.target with _ | target
  · exact .refused _
  rw [run_orFail_some_bind]
  rcases target.path.getLast? with _ | fileName
  · exact .refused _
  rw [run_orFail_some_bind, run_get_bind]
  rcases descendPath env.toNormalization world.db.fs target.path.dropLast with err | parentId
  · exact .refused _
  rw [run_ofExcept_ok_bind]
  dsimp only [downloadKey]
  rcases world.db.fs[makeKey env.toNormalization parentId fileName]? with _ | value
  · exact .refused _
  rw [run_orFail_some_bind]
  rcases fsRecordFromBytes value with _ | record
  · exact .refused _
  rw [run_orFail_some_bind]
  rcases isReadableObjType record.type with _ | _
  · exact .refused _
  rw [Bool.not_true, run_rejectIf_false_bind]
  rcases world.db.verCreated with _ | _
  · exact .refused _
  rw [Bool.not_true, run_rejectIf_false_bind]
  rcases world.db.ver[rowKey record.id ((target.version.map RequestedFileVersion.major).getD
    record.latestVersion)]? with _ | versionRecBytes
  · exact .refused _
  exact downloadVersion_cases env world req.offset req.length versionRecBytes

/-! ## Downloading what is in order -/

/-- A download of a path that resolves goes on with the record that it finds. -/
theorem run_download_record {world : World} {req : DownloadArg} {target : RequestedFileId}
    {fileKey : Bytes} {record : FsRecordValue} (targeted : req.target = some target)
    (resolved : keyOfPath env.toNormalization world.db.fs target.path = some fileKey)
    (there : RecordAt world.db.fs fileKey record) :
    (download env req).run world = (do
      rejectIf (!isReadableObjType record.type) (.invalidArgument "not a readable object")
      rejectIf (!world.db.verCreated) (.internal "could not read from versions table")
      let versionRecBytes ← orFail (.internal "database corrupted: missing version")
        world.db.ver[rowKey record.id
          ((target.version.map RequestedFileVersion.major).getD record.latestVersion)]?
      downloadVersion env req.offset req.length versionRecBytes : Op DownloadResult).run world := by
  obtain ⟨fileName, parentId, named, walked, rfl⟩ := keyOfPath_eq_some_iff.mp resolved
  obtain ⟨value, found, decoded⟩ := there
  rw [download, targeted, run_orFail_some_bind, named, run_orFail_some_bind, run_get_bind, walked,
    run_ofExcept_ok_bind]
  dsimp only [downloadKey]
  rw [found, run_orFail_some_bind, decoded, run_orFail_some_bind]

/-- A download finds the row of the version that it asks for. -/
theorem run_download {world : World} {req : DownloadArg} {target : RequestedFileId}
    {fileKey versionRecBytes : Bytes} {record : FsRecordValue}
    (targeted : req.target = some target)
    (resolved : keyOfPath env.toNormalization world.db.fs target.path = some fileKey)
    (there : RecordAt world.db.fs fileKey record)
    (readable : isReadableObjType record.type = true) (created : world.db.verCreated = true)
    (row : world.db.ver[rowKey record.id ((target.version.map RequestedFileVersion.major).getD
      record.latestVersion)]? = some versionRecBytes) :
    (download env req).run world =
      (downloadVersion env req.offset req.length versionRecBytes).run world := by
  rw [run_download_record env targeted resolved there, readable, Bool.not_true,
    run_rejectIf_false_bind, created, Bool.not_true, run_rejectIf_false_bind, row,
    run_orFail_some_bind]

/-- Reading a version does not look at the database. -/
theorem downloadVersion_commutes (db : Db) (offset length : UInt64) (versionRecBytes : Bytes) :
    Commutes (World.withDb · db) (downloadVersion env offset length versionRecBytes) := by
  refine .bind (.orFail _ _) fun versionRec => .bind (.rejectIf _ _) fun _ =>
    .bind (fromUtf8Unchecked_commutes db _) fun versionBlob =>
      .bind (openExisting_commutes db _) fun content => ?_
  dsimp only
  split
  · exact .bind (.rejectIf _ _) fun _ => .bind (read_commutes env db _ _) fun _ => .pure _
  · exact .bind (read_commutes env db _ _) fun _ => .pure _

/-- **A download depends on the table of entries through the record alone.** -/
theorem download_of_same_record {world : World} {fs : Table Bytes Bytes} {path path' : List Name}
    {key key' : Bytes} {record : FsRecordValue}
    (resolved : keyOfPath env.toNormalization world.db.fs path = some key)
    (there : RecordAt world.db.fs key record)
    (resolved' : keyOfPath env.toNormalization fs path' = some key')
    (there' : RecordAt fs key' record) (version : Option RequestedFileVersion)
    (offset length : UInt64) :
    ((download env ⟨some ⟨path', version⟩, offset, length⟩).run
        (world.withDb { world.db with fs := fs })).result =
      ((download env ⟨some ⟨path, version⟩, offset, length⟩).run world).result := by
  have moved : keyOfPath env.toNormalization (world.withDb { world.db with fs := fs }).db.fs path' =
      some key' := resolved'
  rw [run_download_record env rfl resolved there, run_download_record env rfl moved there']
  have commutes := fun versionRecBytes =>
    downloadVersion_commutes env { world.db with fs := fs } offset length versionRecBytes
  exact (Commutes.bind (.rejectIf _ _) fun _ => .bind (.rejectIf _ _) fun _ =>
    .bind (.orFail _ _) commutes).result world

/-- Asking for the latest version is asking for none. -/
theorem run_download_latest {world : World} {path : List Name} {fileKey : Bytes}
    {record : FsRecordValue}
    (resolved : keyOfPath env.toNormalization world.db.fs path = some fileKey)
    (there : RecordAt world.db.fs fileKey record) (offset length : UInt64) :
    (download env ⟨some ⟨path, some ⟨record.latestVersion⟩⟩, offset, length⟩).run world =
      (download env ⟨some ⟨path, none⟩, offset, length⟩).run world := by
  obtain ⟨fileName, parentId, named, walked, rfl⟩ := keyOfPath_eq_some_iff.mp resolved
  obtain ⟨value, found, decoded⟩ := there
  simp only [download, run_orFail_some_bind, named, run_get_bind, walked, run_ofExcept_ok_bind,
    downloadKey, found, decoded, Option.map_some, Option.map_none, Option.getD_some,
    Option.getD_none]

/-- The page of a file that a download with an offset and a length is to return. -/
def pageOf (content : Bytes) (offset length : UInt64) : Bytes :=
  content.extract offset.toNat
    (min (offset.toNat + length.toNat) (min content.length (offset.toNat + maxReadSize)))

/-- Every page of a version of a path reads as that of some content; without a version, the head
is meant. -/
def Reads (world : World) (path : List Name) (version : Option FsVersion) (content : Bytes) :
    Prop :=
  ∀ offset length : UInt64, offset.toNat ≤ content.length →
    offset.toNat + length.toNat < 2 ^ 64 →
    ∃ more, ((download env {
      target := some ⟨path, version.map RequestedFileVersion.mk⟩
      offset := offset
      length := length }).run world).result = .ok ⟨pageOf content offset length, more⟩

theorem take_eq_pageOf {content : Bytes} {offset length : UInt64}
    (inside : offset.toNat ≤ content.length) :
    (content.drop offset.toNat).take (min length.toNat maxReadSize) =
      pageOf content offset length := by
  rw [pageOf, List.extract_eq_take_drop, List.take_eq_take_iff, List.length_drop]
  omega

/-- A recorded length is the length of the blob or says that the length is not known. -/
def LengthRecorded (recorded : UInt64) (content : Bytes) : Prop :=
  recorded = unknownSize ∨ recorded.toNat = content.length

/-- The check of the offset passes inside the file. -/
theorem not_beyond {recorded offset : UInt64} {content : Bytes}
    (known : LengthRecorded recorded content) (inside : offset.toNat ≤ content.length) :
    (decide (offset > 0) && recorded != unknownSize && decide (offset > recorded)) = false := by
  rcases known with rfl | exactly
  · simp
  · have notGreater : ¬ offset > recorded := by
      rw [gt_iff_lt, UInt64.lt_iff_toNat_lt, exactly]
      omega
    simp [notGreater]

/-- Truncating the request to the recorded length does not change what is read. -/
theorem take_truncated {recorded offset length : UInt64} {content : Bytes}
    (known : LengthRecorded recorded content) (inside : offset.toNat ≤ content.length)
    (noWrap : offset.toNat + length.toNat < 2 ^ 64) :
    (content.drop offset.toNat).take
        (min (if recorded != unknownSize && offset + length > recorded then recorded - offset
          else length).toNat maxReadSize) =
      (content.drop offset.toNat).take (min length.toNat maxReadSize) := by
  split
  · rename_i truncated
    rw [Bool.and_eq_true, bne_iff_ne, decide_eq_true_eq, gt_iff_lt, UInt64.lt_iff_toNat_lt,
      UInt64.toNat_add, Nat.mod_eq_of_lt noWrap] at truncated
    have exactly := known.resolve_left truncated.1
    have rest : (recorded - offset).toNat = (content.drop offset.toNat).length := by
      rw [UInt64.toNat_sub_of_le _ _ (UInt64.le_iff_toNat_le.mpr (exactly ▸ inside)), exactly,
        List.length_drop]
    have short : (content.drop offset.toNat).length ≤ length.toNat := by
      rw [List.length_drop]
      omega
    rw [rest, List.take_eq_take_iff]
    omega
  · rfl

/-- **A download serves the page of the blob that its row names.** -/
theorem result_downloadVersion {world : World} {offset length : UInt64}
    {version : VersionRecordValue} {ulid : Ulid} {content : Bytes} (transfers : env.TransfersAll)
    (there : world.blobs[blobPath ulid]? = some content)
    (known : LengthRecorded version.length content) (small : offset.toNat < 2 ^ 63)
    (inside : offset.toNat ≤ content.length)
    (noWrap : offset.toNat + length.toNat < 2 ^ 64) :
    ∃ more,
      ((downloadVersion env offset length (version.bytesOf ++ blobPath ulid)).run world).result =
        .ok ⟨pageOf content offset length, more⟩ := by
  have seeks : decide (2 ^ 63 ≤ offset.toNat) = false := by
    rw [decide_eq_false_iff_not]
    omega
  have opened : world.blobs[inBlobs (blobPath ulid)]? = some content := by
    rw [inBlobs_blobPath, there]
  rw [downloadVersion, versionValueFromBytes_append, run_orFail_some_bind]
  dsimp only
  rw [not_beyond known inside, run_rejectIf_false_bind, drop_versionValue_append,
    blobPath_eq_utf8, run_fromUtf8Unchecked_bind_utf8, ← blobPath_eq_utf8,
    run_openExisting_bind_found opened, seek, seeks]
  have whole : ∀ size, (content.drop offset.toNat).take
      (env.read world.calls (min size (content.drop offset.toNat).length)) =
        (content.drop offset.toNat).take size := by
    intro size
    rw [transfers.read, ← List.take_take, List.take_length]
  have served := take_truncated known inside noWrap
  rw [← take_eq_pageOf inside, ← served, ← whole]
  split <;> exact ⟨_, rfl⟩

/-- **A version reads as the blob that its row names.** -/
theorem reads_of_row {world : World} {path : List Name} {fileKey : Bytes}
    {record : FsRecordValue} {requested : Option FsVersion} {version : VersionRecordValue}
    {ulid : Ulid} {content : Bytes} (transfers : env.TransfersAll)
    (resolved : keyOfPath env.toNormalization world.db.fs path = some fileKey)
    (there : RecordAt world.db.fs fileKey record)
    (readable : isReadableObjType record.type = true) (created : world.db.verCreated = true)
    (row : world.db.ver[rowKey record.id (requested.getD record.latestVersion)]? =
      some (version.bytesOf ++ blobPath ulid))
    (blob : world.blobs[blobPath ulid]? = some content)
    (known : LengthRecorded version.length content) (short : content.length ≤ maxVecLen) :
    Reads env world path requested content := by
  intro offset length inside noWrap
  have small : offset.toNat < 2 ^ 63 := by
    have bound : maxVecLen < 2 ^ 63 := by decide
    omega
  have asked : (requested.map RequestedFileVersion.mk).map RequestedFileVersion.major =
      requested := by
    cases requested <;> rfl
  rw [run_download env rfl resolved there readable created (by rw [asked]; exact row)]
  exact result_downloadVersion env transfers blob known small inside noWrap

end Yeetbox.Storage
