import Yeetbox.Storage.Service

/-!
# What a request commits

A request commits at most one transaction. `Commits` lists what that transaction can be, in terms
of the tables alone: a new folder, a new file with its version row, the removal of an entry, an
entry moved to another key, a copied entry. `serve_commits` shows that this is all that any request
does to the tables, and the invariants of the tables are proved from it.
-/

set_option autoImplicit false

namespace Yeetbox.Storage

open Library

variable (env : Env)

/-- What answering a request can do to the tables. -/
inductive Commits (server : Server) (req : Request) (later : Server) : Prop where
  | nothing (db : later.world.db = server.world.db)
  | folder (arg : MakeDirectoryArg) (parentId : FileSystemId) (lastName : Name)
      (asked : req = .makeDirectory arg) (creates : CreatesFolder env server.world arg)
      (free : server.world.db.fs[makeKey env.toNormalization parentId (trim lastName)]? = none)
      (counted : later.allocated = server.allocated + 1)
      (db : later.world.db = withNewFolder server.world.db
        (makeKey env.toNormalization parentId (trim lastName)) (trim lastName))
  | file (parentId : FileSystemId) (lastName : Name) (record : FsRecordValue)
      (version : VersionRecordValue) (call : ℕ)
      (free : server.world.db.fs[makeKey env.toNormalization parentId (trim lastName)]? = none)
      (id : record.id = server.world.db.lastId fsTableName + 1)
      (type : record.type = objTypeVersionBlob) (first : record.latestVersion = 1)
      (drawn : server.world.calls ≤ call) (before : call < later.world.calls)
      (counted : later.allocated = server.allocated + 1)
      (db : later.world.db = withNewFile server.world.db
        (makeKey env.toNormalization parentId (trim lastName)) (trim lastName) record version
        (blobPath (env.newUlid call)))
  | removed (arg : DeleteArg) (key value : Bytes) (record : FsRecordValue)
      (asked : req = .delete arg)
      (found : server.world.db.fs[key]? = some value)
      (decoded : fsRecordFromBytes value = some record) (other : record.type ≠ objTypeVersionBlob)
      (db : later.world.db = { server.world.db with fs := server.world.db.fs.erase key })
  | moved (arg : MoveArg) (source value : Bytes) (record : FsRecordValue)
      (parentId : FileSystemId) (name : Name) (asked : req = .move arg)
      (found : server.world.db.fs[source]? = some value)
      (decoded : fsRecordFromBytes value = some record)
      (free : (server.world.db.fs.erase source)[makeKey env.toNormalization parentId name]? = none)
      (db : later.world.db = { server.world.db with
        fs := movedTo server.world.db.fs source (makeKey env.toNormalization parentId name) record
          name })
  | copied (parentId : FileSystemId) (name : Name) (call : ℕ) (time : Time64)
      (free : server.world.db.fs[makeKey env.toNormalization parentId name]? = none)
      (counted : later.allocated = server.allocated + 1)
      (db : later.world.db = withCopy server.world.db (makeKey env.toNormalization parentId name)
        name (copiedRecord server.world.db (env.newUlid call) time))

variable {env}

/-! ## One request at a time -/

variable {server : Server}

theorem MakeDirectoryCases.commits {arg : MakeDirectoryArg} {outcome : Outcome World Status Unit}
    (cases : MakeDirectoryCases env server.world arg outcome) :
    Commits env server (.makeDirectory arg)
      (server.answered (.makeDirectory arg) (outcome.map fun _ => .madeDirectory)) := by
  cases cases with
  | refused err notCreated => exact .nothing rfl
  | created target lastName parentId later targeted named walked free result =>
      exact .folder arg parentId lastName rfl
        ⟨target, lastName, parentId, targeted, named, walked, free⟩ free rfl (by rw [result]; rfl)

theorem SavedBlob.db {received moved : World} {arg : UploadArg} {ulid saved : Ulid}
    {stops : List World} (save : SavedBlob env received arg ulid saved moved stops) :
    moved.db = received.db := by
  cases save with
  | single fresh => rfl
  | renamed content _ continued found result => rw [result]; rfl

/-- The ULID of a finished blob was drawn during the request that finished it. -/
theorem SavedBlob.drawn {world drawn moved : World} {arg : UploadArg} {ulid saved : Ulid}
    {stops : List World} (token : UploadToken env world arg ulid drawn)
    (save : SavedBlob env (withReceived env drawn arg ulid) arg ulid saved moved stops) :
    ∃ call, saved = env.newUlid call ∧ world.calls ≤ call ∧ call < moved.calls := by
  have rises := token.calls_le
  cases save with
  | single fresh =>
      cases token with
      | fresh new =>
          refine ⟨world.calls, rfl, Nat.le_refl _, ?_⟩
          simp only [withReceived, World.advance_calls, World.withBlobs_calls]
          omega
      | continued ulid presented =>
          rw [fresh] at presented
          exact absurd presented.symm (Ulid.toBytes_ne_nil ulid)
  | renamed content _ continued found result =>
      refine ⟨_, rfl, ?_, ?_⟩ <;>
        simp only [result, withReceived, World.advance_calls, World.withBlobs_calls] <;> omega

theorem UploadCases.commits {arg : UploadArg} {outcome : Outcome World Status UploadResult}
    (cases : UploadCases env server.world arg outcome) :
    Commits env server (.upload arg)
      (server.answered (.upload arg) (outcome.map .uploaded)) := by
  cases cases with
  | refused err notCheck => exact .nothing rfl
  | fragment ulid drawn token incomplete => exact .nothing token.db
  | final target lastName ulid drawn finished targeted named token complete finish =>
      cases finish with
      | rejected err count check => exact .nothing token.db
      | broken err count notCheck reason => exact .nothing token.db
      | committed parentId saved moved later stops walked free save result =>
          obtain ⟨call, rfl, early, late⟩ := save.drawn token
          have db : (withReceived env drawn arg ulid).db = server.world.db := token.db
          rw [db] at free result
          have ends : later.calls = moved.calls := by rw [result, World.withDb_calls]
          have counted : allocatedBy (.upload arg) (.ok (.uploaded {})) = 1 := by
            rw [allocatedBy, complete, if_neg Bool.false_ne_true]
          exact .file parentId lastName _ _ call free rfl rfl rfl early (ends ▸ late)
            (congrArg (server.allocated + ·) counted) (congrArg World.db result)

theorem AppendCases.commits {arg : AppendArg} {outcome : Outcome World Status Unit}
    (cases : AppendCases env server.world arg outcome) :
    Commits env server (.append arg)
      (server.answered (.append arg) (outcome.map fun _ => .appended)) := by
  cases cases with
  | refused err => exact .nothing rfl
  | appended target fileKey record path content later targeted resolved head there result =>
      exact .nothing (by rw [result]; rfl)

theorem DownloadCases.commits {arg : DownloadArg} {outcome : Outcome World Status DownloadResult}
    (cases : DownloadCases server.world outcome) :
    Commits env server (.download arg)
      (server.answered (.download arg) (outcome.map .downloaded)) := by
  cases cases with
  | refused err => exact .nothing rfl
  | served result => exact .nothing rfl

/-- Removing blobs leaves the tables alone. -/
theorem removesBlob_db {ver : Table Bytes Bytes} {fileId : FileSystemId} {latest : ℕ}
    {before later : World}
    (steps : Relation.ReflTransGen (RemovesBlob ver fileId latest) before later) :
    later.db = before.db := by
  induction steps with
  | refl => rfl
  | tail _ step ih =>
      obtain ⟨_, _, _, _, _, rfl⟩ := step
      exact ih

theorem DeleteCases.commits {arg : DeleteArg} {outcome : Outcome World Status DeleteResult}
    (cases : DeleteCases env server.world arg outcome) :
    Commits env server (.delete arg)
      (server.answered (.delete arg) (outcome.map .deleted)) := by
  cases cases with
  | refused err => exact .nothing rfl
  | removed target fileKey value record later targeted resolved found decoded other result =>
      exact .removed arg fileKey value record rfl found decoded other (by rw [result]; rfl)
  | blobs target fileKey value record _ targeted resolved found decoded current versioned follows =>
      exact .nothing (removesBlob_db follows.state)

theorem list_commits (arg : ListArg) :
    Commits env server (.list arg)
      (server.answered (.list arg) (((list env arg).run server.world).map .listed)) := by
  refine .nothing ?_
  have unchanged := (list_unchanged env server.world arg).1
  exact congrArg World.db unchanged

theorem MoveCases.commits {arg : MoveArg} {outcome : Outcome World Status Unit}
    (cases : MoveCases env server.world arg outcome) :
    Commits env server (.move arg)
      (server.answered (.move arg) (outcome.map fun _ => .moved)) := by
  cases cases with
  | refused err => exact .nothing rfl
  | moved target source value record destParentId destFileName later targeted resolved named walked
      found decoded free result =>
      exact .moved arg source value record destParentId destFileName rfl found decoded free
        (by rw [result]; rfl)

theorem CopiedBlob.db {world copied : World} {destUlid : Ulid} {stops : List World}
    (blob : CopiedBlob world destUlid copied stops) : copied.db = world.db := by
  cases blob with
  | nothing => rfl
  | copied content _ result => rw [result]; rfl

theorem CopyCases.commits {arg : CopyArg} {outcome : Outcome World Status Unit}
    (cases : CopyCases env server.world arg outcome) :
    Commits env server (.copy arg)
      (server.answered (.copy arg) (outcome.map fun _ => .copied)) := by
  cases cases with
  | refused err => exact .nothing rfl
  | stopped err copied stops count blob => exact .nothing blob.db
  | created destParentId destFileName copied later stops named walked free blob result =>
      exact .copied destParentId destFileName _ _ free rfl (by rw [result]; rfl)

/-- **Every step of the server commits at most one of the listed changes.** -/
theorem serve_commits (server : Server) (req : Request) :
    Commits env server req (serve env server req) := by
  cases req with
  | makeDirectory arg => exact (makeDirectory_cases env server.world arg).commits
  | upload arg => exact (upload_cases env server.world arg).commits
  | append arg => exact (append_cases env server.world arg).commits
  | download arg => exact (download_cases env server.world arg).commits
  | delete arg => exact (delete_cases env server.world arg).commits
  | list arg => exact list_commits arg
  | move arg => exact (move_cases env server.world arg).commits
  | copy arg => exact (copy_cases env server.world arg).commits

end Yeetbox.Storage
