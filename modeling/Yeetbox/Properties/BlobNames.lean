import Yeetbox.Storage.Owners

/-!
# The two names of a blob

The blob of a file is named twice: by the ULID in the record, and by the path in the version row.
A final upload of fragments renames the blob to a fresh ULID after the record was built, so the row
gets the new name and the record keeps that of the token. Both names agree in every state of a run
exactly when no request of the run commits such a file, and none replaces the row of another file
(`blob_names_agree_iff`).
-/

set_option autoImplicit false

namespace Yeetbox.Storage

open Library Handler

/-- The path in the row of a record's latest version, if there is one, is that of the blob that the
record names. -/
def NamesItsBlob (db : Db) (record : FsRecordValue) : Prop :=
  ∀ row : Bytes, db.ver[rowKey record.id record.latestVersion]? = some row →
    inBlobs (row.drop versionValueSize) = blobPath record.blobUlid

/-- Every record of a file names the blob that its version row points to. -/
def BlobNamesAgree (db : Db) : Prop :=
  ∀ key record, RecordAt db.fs key record → record.type = objTypeVersionBlob →
    NamesItsBlob db record

/-! ## What a final upload commits -/

/-- The checks of a final upload pass: its walk arrives, and the key of the file is free. -/
def CreatesFile (env : Env) (world : World) (arg : UploadArg) : Prop :=
  arg.incomplete = false ∧ ∃ target lastName parentId, arg.target = some target ∧
    target.path.getLast? = some lastName ∧
    uploadWalk world.db.fs target.path.dropLast = .ok parentId ∧
    world.db.fs[uploadKey env.toNormalization parentId lastName]? = none

/-- The ULID that the record of a final upload gets, and the one whose blob its row names. -/
inductive UploadsAs (env : Env) (world : World) (arg : UploadArg) : Ulid → Ulid → Prop where
  | single (new : arg.continuation = []) :
      UploadsAs env world arg (env.newUlid world.calls) (env.newUlid world.calls)
  | fragments (ulid : Ulid) (presented : arg.continuation = ulid.toBytes) :
      UploadsAs env world arg ulid (env.newUlid (world.calls + 5))

/-- A request makes the names of a blob differ: it commits a file whose row names another blob than
its record, or puts its row in the place of one that names another blob. -/
def MisnamesBlob (env : Env) (server : Server) (req : Request) : Prop :=
  ∃ arg ulid saved, req = .upload arg ∧ CreatesFile env server.world arg ∧
    UploadsAs env server.world arg ulid saved ∧
    (saved ≠ ulid ∨ ∃ row : Bytes,
      server.world.db.ver[rowKey (server.world.db.lastId fsTableName + 1) 1]? = some row ∧
        inBlobs (row.drop versionValueSize) ≠ blobPath saved)

variable {env : Env} {server : Server}

/-- The blob that the row of a finished upload names is that of the last ULID drawn for it. -/
theorem SavedBlob.uploadsAs {world drawn moved : World} {arg : UploadArg} {ulid saved : Ulid}
    {stops : List World} (token : UploadToken env world arg ulid drawn)
    (save : SavedBlob env (withReceived env drawn arg ulid) arg ulid saved moved stops) :
    UploadsAs env world arg ulid saved := by
  cases token with
  | fresh new =>
      cases save with
      | single _ => exact .single new
      | renamed _ _ continued _ _ => exact absurd new continued
  | continued _ presented =>
      cases save with
      | single new => exact absurd (presented.symm.trans new) (Ulid.toBytes_ne_nil ulid)
      | renamed _ _ _ _ _ => exact .fragments ulid presented

/-- An upload leaves the tables alone, or creates a file. -/
theorem upload_db_or_creates (env : Env) (world : World) (arg : UploadArg) :
    ((upload env arg).run world).state.db = world.db ∨
      CreatesFile env world arg ∧ ∃ ulid saved, UploadsAs env world arg ulid saved := by
  rcases upload_db_or_done env world arg with same | ⟨result, done⟩
  · exact .inl same
  generalize ((upload env arg).run world).state = later at done
  cases done with
  | fragment ulid drawn token incomplete => exact .inl token.db
  | committed target lastName ulid drawn parentId saved moved stops targeted named token complete
      walked free save =>
      exact .inr ⟨⟨complete, target, lastName, parentId, targeted, named, walked, free⟩,
        ulid, saved, save.uploadsAs token⟩

/-- **A final upload whose checks pass commits the record of one ULID and the row of another.** -/
theorem CreatesFile.commits {world : World} {arg : UploadArg} {ulid saved : Ulid}
    (creates : CreatesFile env world arg) (uploads : UploadsAs env world arg ulid saved) :
    ∃ key name version calls, world.db.fs[key]? = none ∧
      ((upload env arg).run world).state.db = withNewFile world.db key name
        (newFileRecord env world.db ulid calls) version (blobPath saved) := by
  obtain ⟨complete, target, lastName, parentId, targeted, named, walked, free⟩ := creates
  refine ⟨uploadKey env.toNormalization parentId lastName, trim lastName, ?_⟩
  have received : ∀ {ulid drawn}, UploadToken env world arg ulid drawn →
      ((receiveUpload env arg target lastName ulid).run drawn).state.db = withNewFile world.db
        (uploadKey env.toNormalization parentId lastName) (trim lastName)
        (newFileRecord env world.db ulid (withReceived env drawn arg ulid).calls)
        (newFileVersion env arg (withReceived env drawn arg ulid).calls)
        (blobPath (savedUlid env (withReceived env drawn arg ulid) arg ulid)) := by
    intro ulid drawn token
    have db : (withReceived env drawn arg ulid).db = world.db := token.db
    have there : (withReceived env drawn arg ulid).blobs[blobPath ulid]? =
        some (drawn.blobs[blobPath ulid]?.getD [] ++ receivedData env drawn arg) :=
      (get_extendIn _ _ _ _).trans (if_pos rfl)
    rw [run_receiveUpload, complete, if_neg Bool.false_ne_true, Outcome.after_state,
      finishUpload_db env complete there (by rwa [db]) (by rwa [db]), db]
  rw [upload, targeted, run_orFail_some_bind, named, run_orFail_some_bind]
  cases uploads with
  | single new =>
      rw [uploadUlid, if_pos (List.length_eq_zero_iff.mpr new), newUlid, run_draw_bind,
        received (.fresh new), savedUlid, if_pos new]
      exact ⟨_, _, free, rfl⟩
  | fragments ulid presented =>
      have nonempty : arg.continuation ≠ [] := presented ▸ Ulid.toBytes_ne_nil ulid
      rw [uploadUlid, if_neg (mt List.length_eq_zero_iff.mp nonempty),
        ulidOfBytes_eq_some_iff.mpr presented, run_orFail_some_bind,
        received (.continued ulid presented), savedUlid, if_neg nonempty]
      exact ⟨_, _, free, rfl⟩

/-! ## What other requests leave of the files -/

/-- The rows are as before, and so are the records of files, though maybe under other keys. -/
structure FilesKept (before later : Db) : Prop where
  rows : later.ver = before.ver
  records : ∀ {key record}, RecordAt later.fs key record → record.type = objTypeVersionBlob →
    ∃ earlier, RecordAt before.fs earlier record

theorem FilesKept.refl (db : Db) : FilesKept db db := ⟨rfl, fun there _ => ⟨_, there⟩⟩

/-- A new entry that is not that of a file leaves the files as they are. -/
theorem FilesKept.inserted {before later : Db} {added rest : Bytes} {new : FsRecordValue}
    (rows : later.ver = before.ver) (fs : later.fs = before.fs.insert added (new.bytesOf ++ rest))
    (other : new.type ≠ objTypeVersionBlob) : FilesKept before later where
  rows := rows
  records := by
    intro key record there versioned
    rw [fs] at there
    rcases recordAt_insert_iff.mp there with ⟨_, rfl⟩ | ⟨_, earlier⟩
    · exact absurd versioned other
    · exact ⟨key, earlier⟩

/-- A request that allocates no id leaves the files as they are. -/
theorem Commits.filesKept {req : Request} {later : Server} (commits : Commits env server req later)
    (allocated : later.allocated = server.allocated) :
    FilesKept server.world.db later.world.db where
  rows := by
    cases commits with
    | nothing db => rw [db]
    | folder _ _ _ _ _ _ counted _ => omega
    | file _ _ _ _ _ _ _ _ _ _ _ counted _ => omega
    | removed _ _ _ _ _ _ _ _ db => rw [db]
    | moved _ _ _ _ _ _ _ _ _ _ db => rw [db]
    | copied _ _ _ _ _ counted _ => omega
  records := by
    intro key record there _
    rcases commits.record_cases there with before | ⟨_, _, counted⟩
    · exact before
    · omega

/-- **Only uploads change files.** -/
theorem serve_filesKept {req : Request} (other : ∀ arg, req ≠ .upload arg) :
    FilesKept server.world.db (serve env server req).world.db := by
  have commits : Commits env server req (serve env server req) := serve_commits server req
  cases req with
  | upload arg => exact absurd rfl (other arg)
  | makeDirectory arg =>
      have outcome := makeDirectory_cases env server.world arg
      rw [serve_makeDirectory_world]
      generalize (makeDirectory env arg).run server.world = done at outcome
      cases outcome with
      | refused => exact .refl _
      | created _ _ _ later _ _ _ _ result =>
          rw [result]
          exact .inserted rfl rfl (by decide : objTypeFolder ≠ _)
  | copy arg =>
      change FilesKept _ ((copy env arg).run server.world).state.db
      have outcome := copy_cases env server.world arg
      generalize (copy env arg).run server.world = done at outcome
      cases outcome with
      | refused => exact .refl _
      | stopped err copied stops count blob =>
          rw [World.advance_db, blob.db]
          exact .refl _
      | created _ _ _ later _ _ _ _ _ result =>
          rw [result]
          exact .inserted rfl rfl (by decide : objTypeNormalBlob ≠ _)
  | append arg => exact commits.filesKept (Nat.add_zero _)
  | download arg => exact commits.filesKept (Nat.add_zero _)
  | delete arg => exact commits.filesKept (Nat.add_zero _)
  | list arg => exact commits.filesKept (Nat.add_zero _)
  | move arg => exact commits.filesKept (Nat.add_zero _)

/-! ## Runs -/

/-- Every record of a file has a version row, which points to the blob that the record names. -/
def FilesNamed (db : Db) : Prop :=
  ∀ key record, RecordAt db.fs key record → record.type = objTypeVersionBlob →
    ∃ row : Bytes, db.ver[rowKey record.id 1]? = some row ∧
      inBlobs (row.drop versionValueSize) = blobPath record.blobUlid

theorem FilesNamed.empty : FilesNamed World.empty.db := by
  intro key record there
  exact absurd there not_recordAt_empty

theorem FilesKept.filesNamed {before later : Db} (keeps : FilesKept before later)
    (named : FilesNamed before) : FilesNamed later := by
  intro key record there versioned
  obtain ⟨earlier, before⟩ := keeps.records there versioned
  rw [keeps.rows]
  exact named earlier record before versioned

theorem FilesNamed.agree {db : Db} (named : FilesNamed db) (first : FirstVersions db) :
    BlobNamesAgree db := by
  intro key record there versioned row found
  obtain ⟨same, names, path⟩ := named key record there versioned
  rw [first.latest there versioned, names, Option.some_inj] at found
  rwa [← found]

/-- The row that a final upload commits points to the blob of the saved ULID. -/
theorem row_withNewFile (db : Db) (key : Bytes) (name : Name) (record : FsRecordValue)
    (version : VersionRecordValue) (saved : Ulid) :
    ∃ row, (withNewFile db key name record version (blobPath saved)).ver[rowKey record.id 1]? =
        some row ∧ inBlobs (row.drop versionValueSize) = blobPath saved :=
  ⟨_, Table.get_insert_self _ _ _, by rw [drop_versionValue_append, inBlobs_blobPath]⟩

/-- **A request that makes no names differ keeps the blobs named.** -/
theorem FilesNamed.served {req : Request} (named : FilesNamed server.world.db)
    (names : ¬ MisnamesBlob env server req) : FilesNamed (serve env server req).world.db := by
  by_cases uploads : ∃ arg, req = .upload arg
  swap
  · exact (serve_filesKept fun arg asked => uploads ⟨arg, asked⟩).filesNamed named
  obtain ⟨arg, rfl⟩ := uploads
  rw [serve_upload_world]
  rcases upload_db_or_creates env server.world arg with same | ⟨creates, ulid, saved, uploads⟩
  · rwa [same]
  obtain ⟨key, name, version, calls, free, db⟩ := creates.commits uploads
  have alike : saved = ulid := by
    by_contra differ
    exact names ⟨arg, ulid, saved, rfl, creates, uploads, .inl differ⟩
  have replaced : ∀ row : Bytes,
      server.world.db.ver[rowKey (server.world.db.lastId fsTableName + 1) 1]? = some row →
        inBlobs (row.drop versionValueSize) = blobPath saved := by
    intro row found
    by_contra differ
    exact names ⟨arg, ulid, saved, rfl, creates, uploads, .inr ⟨row, found, differ⟩⟩
  rw [db]
  intro entry record there versioned
  rcases recordAt_insert_iff.mp there with ⟨_, rfl⟩ | ⟨_, earlier⟩
  · exact alike ▸ row_withNewFile server.world.db key name _ version saved
  obtain ⟨row, found, path⟩ := named entry record earlier versioned
  by_cases next : rowKey record.id 1 = rowKey (server.world.db.lastId fsTableName + 1) 1
  · -- The ids have wrapped around: the new row takes the place of that of this file.
    rw [next] at found ⊢
    rw [← path, replaced row found]
    exact row_withNewFile server.world.db key name (newFileRecord env _ ulid calls) version saved
  · refine ⟨row, ?_, path⟩
    rw [← found]
    exact Table.get_insert_ne _ _ next

/-- **A request that makes names differ leaves a file whose names do not agree.** -/
theorem MisnamesBlob.disagree {requests : List Request} {req : Request}
    (misnames : MisnamesBlob env (serverAfter env requests) req)
    (agree : BlobNamesAgree (serverAfter env requests).world.db) :
    ¬ BlobNamesAgree (serve env (serverAfter env requests) req).world.db := by
  intro after
  obtain ⟨arg, ulid, saved, rfl, creates, uploads, differ⟩ := misnames
  obtain ⟨key, name, version, calls, free, db⟩ := creates.commits uploads
  rw [serve_upload_world, db] at after
  obtain ⟨row, found, path⟩ := row_withNewFile (serverAfter env requests).world.db key name
    (newFileRecord env _ ulid calls) version saved
  rcases differ with other | ⟨old, replaced, differs⟩
  · have names := after key _ (recordAt_insert_iff.mpr (.inl ⟨rfl, rfl⟩)) rfl row found
    exact other (blobPath_injective (path.symm.trans names))
  · obtain ⟨entry, owner, there, versioned, first, same⟩ := serverAfter_row_owner env _ replaced
    have elsewhere : entry ≠ key := by
      rintro rfl
      exact there.not_free free
    have before := agree entry owner there versioned old (by rw [first, ← same, replaced])
    have names := after entry owner (recordAt_insert_iff.mpr (.inr ⟨elsewhere, there⟩)) versioned
      row (by rw [first, ← same]; exact found)
    exact differs (before.trans (names.symm.trans path))

/-- The names of every blob agree in every state of a run. -/
def BlobNamesStay (env : Env) (requests : List Request) : Prop :=
  ∀ before after, requests = before ++ after →
    BlobNamesAgree (serverAfter env before).world.db

/-- **The names of all blobs agree throughout a run exactly when no request makes them differ.** -/
theorem blob_names_agree_iff (env : Env) (requests : List Request) :
    BlobNamesStay env requests ↔
      Guarded (serve env) (fun server req => ¬ MisnamesBlob env server req) .empty requests := by
  constructor
  · intro stay
    refine guarded_iff.mpr fun before req after split misnames => ?_
    have later := stay (before ++ [req]) after (by rw [split]; simp)
    rw [serverAfter_append] at later
    exact misnames.disagree (stay before (req :: after) split) later
  · rintro guarded before after rfl
    have kept : ∀ server req, ¬ MisnamesBlob env server req → FilesNamed server.world.db →
        FilesNamed (serve env server req).world.db := by
      intro server req names named
      exact named.served names
    have named := Guarded.invariant kept (guarded_append_iff.mp guarded).1 .empty
    exact FilesNamed.agree named (serverAfter_firstVersions env before)

/-! ## A file from two fragments -/

/-- The upload of a file in two fragments. -/
def twoFragments : List Request :=
  [.upload { target := some ⟨[['a']]⟩, data := { bytes := [71] }, incomplete := true },
    .upload { target := some ⟨[['a']]⟩, data := { bytes := [72] }, continuation := Ulid.toBytes 0 }]

/-- **The record of the file names the blob of the token, and the row the blob it was renamed
to.** -/
theorem two_fragments_disagree :
    ¬ BlobNamesAgree (serverAfter (.numbered .unchanged) twoFragments).world.db := by
  intro agree
  have there : RecordAt (serverAfter (.numbered .unchanged) twoFragments).world.db.fs
      (makeKey .unchanged 0 ['a']) (newFileRecord (.numbered .unchanged) {} 0 3) :=
    ⟨_, rfl, by decide⟩
  have names := agree _ _ there rfl _ rfl
  exact absurd names (by decide)

end Yeetbox.Storage
