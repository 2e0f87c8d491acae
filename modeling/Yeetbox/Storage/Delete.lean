import Yeetbox.Storage.Request
import Yeetbox.Storage.Walk

/-!
# Deleting

`delete` removes the entry of its path in a transaction. For an object without versions the
transaction is committed. For a version blob it goes on to remove the rows of all versions and the
blobs that they name, and then ends without a commit: the entry and the rows stay, the blobs are
gone.
-/

set_option autoImplicit false

namespace Yeetbox.Storage

open Library Handler

variable (env : Env)

/-- The key that `delete` looks up. -/
def deleteKey (normalization : Normalization) (parentId : FileSystemId) (fileName : Name) : Bytes :=
  makeKey normalization parentId fileName

/-- One round of the loop over the versions: remove a row and the blob that it names. -/
def deleteVersion (fileId : FileSystemId) (version : FsVersion) (ver : Table Bytes Bytes) :
    Op (Table Bytes Bytes) :=
  match ver[rowKey fileId version]? with
  | none => pure ver
  | some deleted =>
      if versionValueSize < deleted.length then do
        let blobName ← fromUtf8Unchecked (deleted.drop versionValueSize)
        removeFile (inBlobs blobName)
        pure (ver.erase (rowKey fileId version))
      else pure (ver.erase (rowKey fileId version))

/-- The loop over the versions, from the latest one down to version 0. -/
def deleteVersions (fileId : FileSystemId) : ℕ → Table Bytes Bytes → Op (Table Bytes Bytes)
  | 0, ver => deleteVersion fileId 0 ver
  | earlier + 1, ver => do
      let ver ← deleteVersion fileId (.ofNat (earlier + 1)) ver
      deleteVersions fileId earlier ver

def delete (req : DeleteArg) : Op DeleteResult := do
  let target ← orFail (.invalidArgument "target is required") req.target
  let fileName ← orFail (.invalidArgument "target may not be empty") target.path.getLast?
  let world ← get
  let parentId ← ofExcept (descendPath env.toNormalization world.db.fs target.path.dropLast)
  let fileKey := deleteKey env.toNormalization parentId fileName
  let w := world.db
  let fileRecBytes ← orFail (.invalidArgument "no such file") w.fs[fileKey]?
  let w := { w with fs := w.fs.erase fileKey }
  let fileRec ← orFail .panic (fsRecordFromBytes fileRecBytes)
  rejectIf (target.versionIsNot fileRec.latestVersion)
    (.invalidArgument "not deleting the latest version")
  if fileRec.type != objTypeVersionBlob then do
    commit w
    pure { shredded := false }
  else do
    let w := { w with verCreated := true }
    let ver ← deleteVersions fileRec.id fileRec.latestVersion.toNat w.ver
    -- The transaction with the removals ends here without a commit.
    let _dropped := { w with ver := ver }
    pure { shredded := false }

/-! ## What a deletion can do -/

/-- The removal of the blob that some row of a file names. -/
def RemovesBlob (ver : Table Bytes Bytes) (fileId : FileSystemId) (latest : ℕ)
    (before after : World) : Prop :=
  ∃ version : FsVersion, ∃ row : Bytes, version.toNat ≤ latest ∧
    ver[rowKey fileId version]? = some row ∧ versionValueSize < row.length ∧
    after = before.withBlobs (before.blobs.erase (inBlobs (row.drop versionValueSize)))

/-- Rows of a table that come from a larger one. -/
def Within (part whole : Table Bytes Bytes) : Prop :=
  ∀ key value : Bytes, part[key]? = some value → whole[key]? = some value

theorem Within.erase {part whole : Table Bytes Bytes} (within : Within part whole) (key : Bytes) :
    Within (part.erase key) whole := by
  intro other value found
  rw [Table.get_erase] at found
  split at found
  · cases found
  · exact within other value found

theorem deleteVersion_follows {whole ver : Table Bytes Bytes} (fileId : FileSystemId)
    {version : FsVersion} {latest : ℕ} (older : version.toNat ≤ latest)
    (within : Within ver whole) :
    Follows (RemovesBlob whole fileId latest) (Within · whole)
      (deleteVersion fileId version ver) := by
  rw [deleteVersion]
  rcases found : ver[rowKey fileId version]? with _ | deleted
  · exact .pure within
  dsimp only
  split
  · rename_i named
    have removes : ∀ world : World, RemovesBlob whole fileId latest world
        (world.withBlobs (world.blobs.erase (inBlobs (deleted.drop versionValueSize)))) :=
      fun world => ⟨version, deleted, older, within _ _ found, named, rfl⟩
    refine .bind (fromUtf8Unchecked_follows _) fun blobName same => ?_
    rw [same]
    exact .bind (removeFile_follows fun world => .single (removes world)) fun _ _ =>
      .pure (within.erase _)
  · exact .pure (within.erase _)

/-- **The loop removes nothing but blobs that rows of the file name.** -/
theorem deleteVersions_follows {whole ver : Table Bytes Bytes} (fileId : FileSystemId)
    {latest count : ℕ} (older : count ≤ latest) (fits : count < 2 ^ 64)
    (within : Within ver whole) :
    Follows (RemovesBlob whole fileId latest) (Within · whole)
      (deleteVersions fileId count ver) := by
  induction count generalizing ver with
  | zero => exact deleteVersion_follows fileId (Nat.zero_le latest) within
  | succ earlier ih =>
      have version : (UInt64.ofNat (earlier + 1)).toNat ≤ latest := by
        rw [UInt64.toNat_ofNat_of_lt' fits]
        exact older
      exact .bind (deleteVersion_follows fileId version within) fun _ rest =>
        ih (by omega) (by omega) rest

/-- What `delete` can do: refuse and leave the world alone, remove one entry that has no versions,
or remove blobs of the versions of a file and nothing from the tables. -/
inductive DeleteCases (world : World) (req : DeleteArg) :
    Outcome World Status DeleteResult → Prop where
  | refused (err : Status) : DeleteCases world req ⟨.error err, world, []⟩
  | removed (target : RequestedFileId) (fileKey value : Bytes) (record : FsRecordValue)
      (later : World)
      (targeted : req.target = some target)
      (resolved : keyOfPath env.toNormalization world.db.fs target.path = some fileKey)
      (found : world.db.fs[fileKey]? = some value)
      (decoded : fsRecordFromBytes value = some record)
      (other : record.type ≠ objTypeVersionBlob)
      (result : later = world.withDb { world.db with fs := world.db.fs.erase fileKey }) :
      DeleteCases world req ⟨.ok { shredded := false }, later, [later]⟩
  | blobs (target : RequestedFileId) (fileKey value : Bytes) (record : FsRecordValue)
      (outcome : Outcome World Status DeleteResult)
      (targeted : req.target = some target)
      (resolved : keyOfPath env.toNormalization world.db.fs target.path = some fileKey)
      (found : world.db.fs[fileKey]? = some value)
      (decoded : fsRecordFromBytes value = some record)
      (current : target.versionIsNot record.latestVersion = false)
      (versioned : record.type = objTypeVersionBlob)
      (follows : outcome.Follows
        (RemovesBlob world.db.ver record.id record.latestVersion.toNat) world) :
      DeleteCases world req outcome

theorem delete_cases (world : World) (req : DeleteArg) :
    DeleteCases env world req ((delete env req).run world) := by
  rw [delete]
  rcases targeted : req.target with _ | target
  · exact .refused _
  rw [run_orFail_some_bind]
  rcases named : target.path.getLast? with _ | fileName
  · exact .refused _
  rw [run_orFail_some_bind, run_get_bind]
  rcases walked : descendPath env.toNormalization world.db.fs target.path.dropLast with
    err | parentId
  · exact .refused _
  rw [run_ofExcept_ok_bind]
  have resolved := keyOfPath_of_walk named walked
  dsimp only [deleteKey]
  rcases found : world.db.fs[makeKey env.toNormalization parentId fileName]? with _ | value
  · exact .refused _
  rw [run_orFail_some_bind]
  rcases decoded : fsRecordFromBytes value with _ | record
  · exact .refused _
  rw [run_orFail_some_bind]
  rcases current : target.versionIsNot record.latestVersion with _ | _
  swap
  · exact .refused _
  rw [run_rejectIf_false_bind]
  by_cases versioned : record.type = objTypeVersionBlob
  · have isVersioned : (record.type != objTypeVersionBlob) = false := by simp [versioned]
    rw [isVersioned, if_neg Bool.false_ne_true]
    refine .blobs target _ value record _ targeted resolved found decoded current versioned ?_
    have loop := deleteVersions_follows record.id (Nat.le_refl record.latestVersion.toNat)
      record.latestVersion.toNat_lt fun _ _ (there : world.db.ver[_]? = some _) => there
    exact (loop.bind fun _ _ => .done _).outcome world
  · have isOther : (record.type != objTypeVersionBlob) = true := by simp [versioned]
    rw [isOther, if_pos rfl]
    exact .removed target _ value record _ targeted resolved found decoded versioned rfl

end Yeetbox.Storage
