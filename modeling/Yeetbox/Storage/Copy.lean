import Yeetbox.Library.Triple
import Yeetbox.Storage.Request
import Yeetbox.Storage.Walk

/-!
# Copying

`copy` creates a record of its own for the destination. It copies the underlying blob of an
object without versions; of a version blob and of a symbolic link only the record is new. The
blob is looked up under the number of its ULID in decimal.
-/

set_option autoImplicit false

namespace Yeetbox.Storage

open Library Handler

variable (env : Env)

/-- The key under which `copy` looks for the source. -/
def copySourceKey (normalization : Normalization) (parentId : FileSystemId) (fileName : Name) :
    Bytes :=
  makeKey normalization parentId fileName

/-- The key that `copy` writes. -/
def copyDestinationKey (normalization : Normalization) (parentId : FileSystemId)
    (fileName : Name) : Bytes :=
  makeKey normalization parentId fileName

/-- The part of `copy` that depends on the type of the source. -/
def copyBlob (fileRec : FsRecordValue) (destUlid : Ulid) : Op Unit :=
  if fileRec.type = objTypeNormalBlob ∨ fileRec.type = objTypeAppendBlob ∨
      fileRec.type = objTypeBlockBlob then
    copyFile (inBlobs (utf8 (decimalFileName fileRec.blobUlid))) (blobPath destUlid)
  else if fileRec.type = objTypeSymlink then pure ()
  else if fileRec.type = objTypeVersionBlob then pure ()
  else fail (.invalidArgument "not allowed to copy an object of this type")

def copy (req : CopyArg) : Op Unit := do
  let target ← orFail (.invalidArgument "target is required") req.target
  let destFileName ← orFail (.invalidArgument "destination is required") req.destination.getLast?
  let fileName ← orFail (.invalidArgument "target may not be empty") target.path.getLast?
  let world ← get
  let w := world.db
  let srcParentId ← ofExcept (descendPath env.toNormalization w.fs target.path.dropLast)
  let destParentId ← ofExcept (descendPath env.toNormalization w.fs req.destination.dropLast)
  let srcFileKey := copySourceKey env.toNormalization srcParentId fileName
  let destFileKey := copyDestinationKey env.toNormalization destParentId destFileName
  let fileRecBytes ← orFail (.invalidArgument "no such file") w.fs[srcFileKey]?
  let fileRec ← orFail .panic (fsRecordFromBytes fileRecBytes)
  let destUlid ← newUlid env
  copyBlob fileRec destUlid
  let createTime ← timeNow env
  let (id, w) := getNextId w fsTableName
  let newRec : FsRecordValue := {
    id := id
    blobUlid := destUlid
    createTime := createTime
    modifyTime := createTime
    changeTime := createTime }
  let newValue := newRec.bytesOf ++ utf8 destFileName
  let writeResult := w.fs[destFileKey]?
  let w := { w with fs := w.fs.insert destFileKey newValue }
  rejectIf writeResult.isSome (.invalidArgument "destination file already exists")
  commit w

/-- The record that a copy creates. -/
def copiedRecord (db : Db) (destUlid : Ulid) (createTime : Time64) : FsRecordValue where
  id := db.lastId fsTableName + 1
  blobUlid := destUlid
  createTime := createTime
  modifyTime := createTime
  changeTime := createTime

/-- The database after a copy: the next id is taken and the entry is in `FS_TABLE`. -/
def withCopy (db : Db) (key : Bytes) (fileName : Name) (record : FsRecordValue) : Db :=
  { db with
    fs := db.fs.insert key (record.bytesOf ++ utf8 fileName)
    seq := db.seq.insert fsTableName (db.lastId fsTableName + 1) }

/-- The worlds after the blob of a copy was dealt with: nothing was to be done, or the content of
another file was put under the new ULID. -/
inductive CopiedBlob (world : World) (destUlid : Ulid) : World → List World → Prop where
  | nothing : CopiedBlob world destUlid world []
  | copied (content : Bytes) (later : World)
      (result : later = world.withBlobs (world.blobs.insert (blobPath destUlid) content)) :
      CopiedBlob world destUlid later [later]

/-- What `copy` can do: refuse, having at most copied a blob to a new ULID, or create one entry
under a key that was free. -/
inductive CopyCases (world : World) (req : CopyArg) : Outcome World Status Unit → Prop where
  | refused (err : Status) : CopyCases world req ⟨.error err, world, []⟩
  | stopped (err : Status) (copied : World) (stops : List World) (count : ℕ)
      (blob : CopiedBlob (world.advance 1) (env.newUlid world.calls) copied stops) :
      CopyCases world req ⟨.error err, copied.advance count, stops⟩
  | created (destParentId : FileSystemId) (destFileName : Name) (copied later : World)
      (stops : List World)
      (named : req.destination.getLast? = some destFileName)
      (walked : descendPath env.toNormalization world.db.fs req.destination.dropLast =
        .ok destParentId)
      (free : world.db.fs[makeKey env.toNormalization destParentId destFileName]? = none)
      (blob : CopiedBlob (world.advance 1) (env.newUlid world.calls) copied stops)
      (result : later = (copied.advance 1).withDb (withCopy world.db
        (makeKey env.toNormalization destParentId destFileName) destFileName
        (copiedRecord world.db (env.newUlid world.calls) (.now (env.clock copied.calls))))) :
      CopyCases world req ⟨.ok (), later, stops ++ [later]⟩

theorem run_copyBlob_bind {Next : Type} (world : World) (fileRec : FsRecordValue) (destUlid : Ulid)
    (next : Unit → Op Next) :
    (∃ err, (copyBlob fileRec destUlid >>= next).run world = ⟨.error err, world, []⟩) ∨
      ∃ copied stops, CopiedBlob world destUlid copied stops ∧
        (copyBlob fileRec destUlid >>= next).run world = ((next ()).run copied).after stops := by
  rw [copyBlob]
  split
  · rcases found : world.blobs[inBlobs (utf8 (decimalFileName fileRec.blobUlid))]? with
      _ | content
    · exact .inl ⟨_, run_copyFile_bind_missing found _ next⟩
    · exact .inr ⟨_, _, .copied content _ rfl, run_copyFile_bind_found found _ next rfl⟩
  · split
    · exact .inr ⟨world, [], .nothing, rfl⟩
    · split
      · exact .inr ⟨world, [], .nothing, rfl⟩
      · exact .inl ⟨_, rfl⟩

theorem copy_cases (world : World) (req : CopyArg) :
    CopyCases env world req ((copy env req).run world) := by
  rw [copy]
  rcases req.target with _ | target
  · exact .refused _
  rw [run_orFail_some_bind]
  rcases named : req.destination.getLast? with _ | destFileName
  · exact .refused _
  rw [run_orFail_some_bind]
  rcases target.path.getLast? with _ | fileName
  · exact .refused _
  rw [run_orFail_some_bind, run_get_bind]
  dsimp only [copySourceKey, copyDestinationKey]
  rcases descendPath env.toNormalization world.db.fs target.path.dropLast with err | srcParentId
  · exact .refused _
  rw [run_ofExcept_ok_bind]
  rcases walked : descendPath env.toNormalization world.db.fs req.destination.dropLast with
    err | destParentId
  · exact .refused _
  rw [run_ofExcept_ok_bind]
  rcases world.db.fs[makeKey env.toNormalization srcParentId fileName]? with _ | value
  · exact .refused _
  rw [run_orFail_some_bind]
  rcases fsRecordFromBytes value with _ | record
  · exact .refused _
  rw [run_orFail_some_bind, newUlid, run_draw_bind]
  rcases run_copyBlob_bind (world.advance 1) record (env.newUlid world.calls) _ with
    ⟨err, notAllowed⟩ | ⟨copied, stops, blob, ran⟩
  · rw [notAllowed]
    exact .stopped err _ _ 0 .nothing
  rw [ran]
  simp only [timeNow, run_draw_bind, getNextId]
  rcases free : world.db.fs[makeKey env.toNormalization destParentId destFileName]? with
    _ | occupant
  · exact .created destParentId destFileName copied _ stops named walked free blob rfl
  · rw [Option.isSome_some, run_rejectIf_true_bind, Outcome.after, List.append_nil]
    exact .stopped _ copied stops 1 blob

/-! ## What is copied -/

/-- An object that can be copied: one without a blob of its own, or one whose blob is found under
its number. -/
def Copyable (world : World) (record : FsRecordValue) : Prop :=
  record.type = objTypeVersionBlob ∨ record.type = objTypeSymlink ∨
    ((record.type = objTypeNormalBlob ∨ record.type = objTypeAppendBlob ∨
        record.type = objTypeBlockBlob) ∧
      world.blobs[inBlobs (utf8 (decimalFileName record.blobUlid))]? ≠ none)

/-- An object with a blob of its own can be copied exactly when the blob is found. -/
theorem copyable_iff_of_blob {world : World} {record : FsRecordValue}
    (type : record.type = objTypeNormalBlob ∨ record.type = objTypeAppendBlob ∨
      record.type = objTypeBlockBlob) :
    Copyable world record ↔
      world.blobs[inBlobs (utf8 (decimalFileName record.blobUlid))]? ≠ none := by
  have notVersion : record.type ≠ objTypeVersionBlob := by
    rcases type with normal | append | block <;> simp only [*] <;> decide
  have notSymlink : record.type ≠ objTypeSymlink := by
    rcases type with normal | append | block <;> simp only [*] <;> decide
  rw [Copyable, or_iff_right notVersion, or_iff_right notSymlink, and_iff_right type]

/-- After the blob of a copy was dealt with, its source is known to be one that can be copied. -/
theorem copyBlob_copyable (world : World) (fileRec : FsRecordValue) (destUlid : Ulid) :
    Triple (fun reached => reached.blobs = world.blobs) (copyBlob fileRec destUlid)
      (fun _ _ => Copyable world fileRec) fun _ => True := by
  rw [copyBlob]
  split
  · rename_i type
    rw [copyFile]
    have opened : Triple (fun reached : World => reached.blobs = world.blobs)
        (openExisting (inBlobs (utf8 (decimalFileName fileRec.blobUlid))))
        (fun _ _ => Copyable world fileRec) fun _ => True := by
      refine .get_bind fun reached blobs => ?_
      refine (Triple.orFail fun _ => trivial).weaken fun content _ found => ?_
      rw [copyable_iff_of_blob type, ← blobs, found.2]
      exact Option.some_ne_none _
    exact opened.bind fun _ => .settled (fun _ copyable _ _ => copyable) fun _ => trivial
  · split
    · rename_i type
      exact .pure fun _ _ => .inr (.inl type)
    · split
      · rename_i type
        exact .pure fun _ _ => .inl type
      · exact .fail trivial

/-- **A copy that returns `Ok` has an object that can be copied as its source.** -/
theorem copy_source {world : World} {target : RequestedFileId} {destination : List Name}
    (ok : ((copy env ⟨some target, destination⟩).run world).result = .ok ()) :
    ∃ source record, keyOfPath env.toNormalization world.db.fs target.path = some source ∧
      RecordAt world.db.fs source record ∧ Copyable world record := by
  have triple : Triple (fun reached => reached = world) (copy env ⟨some target, destination⟩)
      (fun _ _ => ∃ source record,
        keyOfPath env.toNormalization world.db.fs target.path = some source ∧
          RecordAt world.db.fs source record ∧ Copyable world record) fun _ => True := by
    rw [copy]
    refine .orFail_bind (fun _ => trivial) fun target' targeted => ?_
    cases targeted
    refine .orFail_bind (fun _ => trivial) fun destFileName _ => ?_
    refine .orFail_bind (fun _ => trivial) fun fileName last => .get_bind fun start same => ?_
    rw [same]
    refine .ofExcept_bind (fun _ _ => trivial) fun srcParentId walked => ?_
    refine .ofExcept_bind (fun _ _ => trivial) fun destParentId _ => ?_
    refine .orFail_bind (fun _ => trivial) fun value found => ?_
    refine .orFail_bind (fun _ => trivial) fun record decoded => ?_
    have drawn : Triple (fun reached => reached = world) (newUlid env)
        (fun _ reached => reached.blobs = world.blobs) fun _ => True :=
      .draw fun reached same => by
        rw [same]
        rfl
    refine drawn.bind fun destUlid => (copyBlob_copyable world record destUlid).bind fun _ => ?_
    exact .settled (fun _ copyable _ _ => ⟨_, record, keyOfPath_of_walk last walked,
      ⟨value, found, decoded⟩, copyable⟩) fun _ => trivial
  exact triple.value world rfl () ok

end Yeetbox.Storage
