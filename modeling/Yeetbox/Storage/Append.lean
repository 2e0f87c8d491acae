import Yeetbox.Storage.Request
import Yeetbox.Storage.Walk

/-!
# Appending

`append` adds its data to the blob of the head version, and prepares a row for the next version.
The row goes into a transaction that is never committed, and the record of the file keeps its
latest version: what is left of a successful append is the longer blob.
-/

set_option autoImplicit false

namespace Yeetbox.Storage

open Library Handler

variable (env : Env)

/-- The key that `append` looks up. -/
def appendKey (normalization : Normalization) (parentId : FileSystemId) (fileName : Name) : Bytes :=
  makeKey normalization parentId fileName

def append (req : AppendArg) : Op Unit := do
  let target ← orFail (.invalidArgument "target is required") req.target
  let fileName ← orFail (.invalidArgument "target may not be empty") target.path.getLast?
  let world ← get
  let parentId ← ofExcept (descendPath env.toNormalization world.db.fs target.path.dropLast)
  let fileKey := appendKey env.toNormalization parentId fileName
  let w := world.db
  let fileRecBytes ← orFail (.invalidArgument "no such file") w.fs[fileKey]?
  let fileRec ← orFail .panic (fsRecordFromBytes fileRecBytes)
  rejectIf (!isReadableObjType fileRec.type) (.invalidArgument "not a readable object")
  rejectIf (target.versionIsNot fileRec.latestVersion)
    (.invalidArgument "not appending to latest version")
  -- `OBJ_TYPE_FILE` is no constant, so the first arm of the match takes every type.
  let versionKey := rowKey fileRec.id fileRec.latestVersion
  let w := { w with verCreated := true }
  let versionRecBytes ← orFail (.internal "database corrupted: missing version") w.ver[versionKey]?
  let versionRec ← orFail .panic (versionValueFromBytes versionRecBytes)
  let knownSize : Bool := versionRec.length != unknownSize
  let versionBlob ← fromUtf8Unchecked (versionRecBytes.drop versionValueSize)
  let path := inBlobs versionBlob
  let _ ← openExisting path
  write env path req.data.bytes
  let newSize ← if knownSize then pure (versionRec.length + .ofNat req.data.bytes.length)
    else fileSize path
  let newVersionKey := rowKey fileRec.id (fileRec.latestVersion + 1)
  let createNow ← timeNow env
  let newVersionRec := { versionRec with createTime := createNow, length := newSize }
  -- The row holds no path, and the transaction ends here without a commit.
  let _dropped := { w with ver := w.ver.insert newVersionKey newVersionRec.bytesOf }
  pure ()

/-- The head version of a file, as `append` finds it: a readable record, the row of its latest
version, and the path that the row holds. -/
structure HeadRow (db : Db) (fileKey : Bytes) (record : FsRecordValue) (path : Bytes) :
    Prop where
  there : RecordAt db.fs fileKey record
  readable : isReadableObjType record.type = true
  row : ∃ row : Bytes, db.ver[rowKey record.id record.latestVersion]? = some row ∧
    (versionValueFromBytes row).isSome ∧ path = inBlobs (row.drop versionValueSize)

/-- The blobs after the data of an append was added to one of them. -/
def withAppended (world : World) (path data : Bytes) : World :=
  (world.advance 1).withBlobs
    (extendIn world.blobs path (data.take (env.write world.calls data.length)))

/-- What `append` can do: refuse and leave the world alone, or make one blob longer. -/
inductive AppendCases (world : World) (req : AppendArg) : Outcome World Status Unit → Prop where
  | refused (err : Status) : AppendCases world req ⟨.error err, world, []⟩
  | appended (target : RequestedFileId) (fileKey : Bytes) (record : FsRecordValue)
      (path content : Bytes) (later : World)
      (targeted : req.target = some target)
      (resolved : keyOfPath env.toNormalization world.db.fs target.path = some fileKey)
      (head : HeadRow world.db fileKey record path)
      (there : world.blobs[path]? = some content)
      (result : later = withAppended env world path req.data.bytes) :
      AppendCases world req ⟨.ok (), later.advance 1, [later]⟩

theorem append_cases (world : World) (req : AppendArg) :
    AppendCases env world req ((append env req).run world) := by
  rw [append]
  rcases targeted : req.target with _ | target
  · exact .refused _
  rw [run_orFail_some_bind]
  rcases named : target.path.getLast? with _ | fileName
  · exact .refused _
  rw [run_orFail_some_bind, run_get_bind]
  rcases walked : descendPath env.toNormalization world.db.fs target.path.dropLast with
    err | parentId
  · exact .refused _
  rw [run_ofExcept_ok_bind]
  have resolved := keyOfPath_of_walk named walked
  dsimp only [appendKey]
  rcases found : world.db.fs[makeKey env.toNormalization parentId fileName]? with _ | value
  · exact .refused _
  rw [run_orFail_some_bind]
  rcases decoded : fsRecordFromBytes value with _ | record
  · exact .refused _
  rw [run_orFail_some_bind]
  rcases readable : isReadableObjType record.type with _ | _
  · exact .refused _
  rw [Bool.not_true, run_rejectIf_false_bind]
  rcases target.versionIsNot record.latestVersion with _ | _
  swap
  · exact .refused _
  rw [run_rejectIf_false_bind]
  rcases row : world.db.ver[rowKey record.id record.latestVersion]? with _ | versionBytes
  · exact .refused _
  rw [run_orFail_some_bind]
  rcases version : versionValueFromBytes versionBytes with _ | versionRec
  · exact .refused _
  rw [run_orFail_some_bind]
  rcases run_fromUtf8Unchecked_bind (versionBytes.drop versionValueSize) _ world with bad | text
  · rw [bad]
    exact .refused _
  rw [text]
  have head : HeadRow world.db (makeKey env.toNormalization parentId fileName) record
      (inBlobs (versionBytes.drop versionValueSize)) :=
    ⟨⟨value, found, decoded⟩, readable, versionBytes, row, by rw [version]; rfl, rfl⟩
  rcases there : world.blobs[inBlobs (versionBytes.drop versionValueSize)]? with _ | content
  · rw [run_openExisting_bind_missing there]
    exact .refused _
  rw [run_openExisting_bind_found there, write, run_effect_bind]
  have appended := AppendCases.appended target _ record _ content _ targeted resolved head there rfl
  split
  · exact appended
  · exact appended

/-! ## Appending to a record -/

/-- What is left of `append` after the record was found. -/
def appendToRecord (ver : Table Bytes Bytes) (record : FsRecordValue)
    (version : Option RequestedFileVersion) (data : Payload) : Op Unit := do
  rejectIf (!isReadableObjType record.type) (.invalidArgument "not a readable object")
  rejectIf (version.any fun version => version.major != record.latestVersion)
    (.invalidArgument "not appending to latest version")
  let versionRecBytes ← orFail (.internal "database corrupted: missing version")
    ver[rowKey record.id record.latestVersion]?
  let versionRec ← orFail .panic (versionValueFromBytes versionRecBytes)
  let versionBlob ← fromUtf8Unchecked (versionRecBytes.drop versionValueSize)
  let _ ← openExisting (inBlobs versionBlob)
  write env (inBlobs versionBlob) data.bytes
  let _ ← if versionRec.length != unknownSize then
      pure (versionRec.length + .ofNat data.bytes.length)
    else fileSize (inBlobs versionBlob)
  let _ ← timeNow env
  pure ()

/-- An append to the latest version of a readable record opens the blob that the row names. -/
theorem run_appendToRecord {world : World} {ver : Table Bytes Bytes} {record : FsRecordValue}
    {asked : Option RequestedFileVersion} {version : VersionRecordValue} {shown : Name}
    (readable : isReadableObjType record.type = true)
    (current : (asked.any fun asked => asked.major != record.latestVersion) = false)
    (row : ver[rowKey record.id record.latestVersion]? = some (version.bytesOf ++ utf8 shown))
    (data : Payload) : (appendToRecord env ver record asked data).run world = (do
      let _ ← openExisting (inBlobs (utf8 shown))
      write env (inBlobs (utf8 shown)) data.bytes
      let _ ← if version.length != unknownSize then
          pure (version.length + .ofNat data.bytes.length)
        else fileSize (inBlobs (utf8 shown))
      let _ ← timeNow env
      pure () : Op Unit).run world := by
  rw [appendToRecord, readable, Bool.not_true, run_rejectIf_false_bind, current,
    run_rejectIf_false_bind, row, run_orFail_some_bind, versionValueFromBytes_append,
    run_orFail_some_bind, drop_versionValue_append, run_fromUtf8Unchecked_bind_utf8]

/-- An append to the blob of a row that is there makes the blob longer. -/
theorem run_appendToRecord_found {world : World} {ver : Table Bytes Bytes}
    {record : FsRecordValue} {asked : Option RequestedFileVersion} {version : VersionRecordValue}
    {shown : Name} {content : Bytes} (readable : isReadableObjType record.type = true)
    (current : (asked.any fun asked => asked.major != record.latestVersion) = false)
    (row : ver[rowKey record.id record.latestVersion]? = some (version.bytesOf ++ utf8 shown))
    (found : world.blobs[inBlobs (utf8 shown)]? = some content) (data : Payload) :
    (appendToRecord env ver record asked data).run world =
      ⟨.ok (), (withAppended env world (inBlobs (utf8 shown)) data.bytes).advance 1,
        [withAppended env world (inBlobs (utf8 shown)) data.bytes]⟩ := by
  rw [run_appendToRecord env readable current row, run_openExisting_bind_found found, write,
    run_effect_bind]
  split <;> rfl

/-- An append to a path that resolves goes on with the record that it finds. -/
theorem run_append_record {world : World} {path : List Name} {fileKey : Bytes}
    {record : FsRecordValue}
    (resolved : keyOfPath env.toNormalization world.db.fs path = some fileKey)
    (there : RecordAt world.db.fs fileKey record) (version : Option RequestedFileVersion)
    (data : Payload) : (append env ⟨some ⟨path, version⟩, data⟩).run world =
      (appendToRecord env world.db.ver record version data).run world := by
  obtain ⟨fileName, parentId, named, walked, rfl⟩ := keyOfPath_eq_some_iff.mp resolved
  obtain ⟨value, found, decoded⟩ := there
  rw [append, run_orFail_some_bind, named, run_orFail_some_bind, run_get_bind, walked,
    run_ofExcept_ok_bind]
  dsimp only [appendKey]
  rw [found, run_orFail_some_bind, decoded, run_orFail_some_bind]
  rfl

theorem appendToRecord_commutes (db : Db) (ver : Table Bytes Bytes) (record : FsRecordValue)
    (version : Option RequestedFileVersion) (data : Payload) :
    Commutes (World.withDb · db) (appendToRecord env ver record version data) := by
  refine .bind (.rejectIf _ _) fun _ => .bind (.rejectIf _ _) fun _ =>
    .bind (.orFail _ _) fun row => .bind (.orFail _ _) fun versionRec =>
      .bind (fromUtf8Unchecked_commutes db _) fun blob =>
        .bind (openExisting_commutes db _) fun _ => .bind (write_commutes env db _ _) fun _ => ?_
  have timed : Commutes (World.withDb · db) (timeNow env >>= fun _ => pure ()) :=
    .bind (timeNow_commutes env db) fun _ => .pure ()
  dsimp only
  split
  · exact .bind (.pure _) fun _ => timed
  · exact .bind (fileSize_commutes db _) fun _ => timed

/-- **An append depends on the table of entries through the record alone.** -/
theorem append_of_same_record {world : World} {fs : Table Bytes Bytes} {path path' : List Name}
    {key key' : Bytes} {record : FsRecordValue}
    (resolved : keyOfPath env.toNormalization world.db.fs path = some key)
    (there : RecordAt world.db.fs key record)
    (resolved' : keyOfPath env.toNormalization fs path' = some key')
    (there' : RecordAt fs key' record) (version : Option RequestedFileVersion) (data : Payload) :
    ((append env ⟨some ⟨path', version⟩, data⟩).run
        (world.withDb { world.db with fs := fs })).result =
      ((append env ⟨some ⟨path, version⟩, data⟩).run world).result ∧
    ((append env ⟨some ⟨path', version⟩, data⟩).run
        (world.withDb { world.db with fs := fs })).state =
      ((append env ⟨some ⟨path, version⟩, data⟩).run world).state.withDb
        { world.db with fs := fs } := by
  have moved : keyOfPath env.toNormalization (world.withDb { world.db with fs := fs }).db.fs path' =
      some key' := resolved'
  rw [run_append_record env resolved there, run_append_record env moved there']
  exact (appendToRecord_commutes env _ world.db.ver record version data).both world

end Yeetbox.Storage
