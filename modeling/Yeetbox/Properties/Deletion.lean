import Yeetbox.Storage.Entries

/-!
# Deletion

A deletion that returns `Ok` for a version blob should leave nothing of the file. The transaction
that holds the removals is dropped instead of committed, so the entry is always still there
(`delete_never_deletes`).
-/

set_option autoImplicit false

namespace Yeetbox.Storage

open Library

variable (env : Env)

/-- What a deletion of a file is for: its entry, its rows and their blobs are gone, everything else
is as before, and the path is free again. -/
structure ReallyDeletes (world later : World) (path : List Name) (key : Bytes)
    (id : FileSystemId) : Prop where
  entry : later.db.fs[key]? = none
  rows : ∀ version, later.db.ver[rowKey id version]? = none
  blobs : ∀ (version : FsVersion) (row : Bytes), world.db.ver[rowKey id version]? = some row →
    versionValueSize < row.length → later.blobs[inBlobs (row.drop versionValueSize)]? = none
  otherEntries : ∀ other : Bytes, other ≠ key → later.db.fs[other]? = world.db.fs[other]?
  otherRows : ∀ other : Bytes, (∀ version, other ≠ rowKey id version) →
    later.db.ver[other]? = world.db.ver[other]?
  otherBlobs : ∀ blob : Bytes,
    (∀ (version : FsVersion) (row : Bytes), world.db.ver[rowKey id version]? = some row →
      blob ≠ inBlobs (row.drop versionValueSize)) → later.blobs[blob]? = world.blobs[blob]?
  download : ∀ version offset length,
    ((download env ⟨some ⟨path, version⟩, offset, length⟩).run later).result =
      .error (.invalidArgument "no such file")
  upload : ∀ again : UploadArg, again.target = some ⟨path⟩ → again.next = false →
    again.continuation = [] → ∃ result, ((upload env again).run later).result = .ok result

variable {env}

/-- A deletion that returns `Ok` for a version blob commits nothing. -/
theorem delete_versionBlob_db {world : World} {req : DeleteArg} {target : RequestedFileId}
    {key : Bytes} {record : FsRecordValue} {result : DeleteResult}
    (ok : ((delete env req).run world).result = .ok result) (targeted : req.target = some target)
    (file : FileAt env.toNormalization world.db.fs target.path key record) :
    ((delete env req).run world).state.db = world.db := by
  have outcome := delete_cases env world req
  generalize (delete env req).run world = done at outcome ok
  cases outcome with
  | refused err => cases ok
  | removed target' key' value record' later targeted' resolved' found decoded other result =>
      rw [targeted, Option.some_inj] at targeted'
      subst targeted'
      rw [file.resolved, Option.some_inj] at resolved'
      subst resolved'
      have same := file.there.unique ⟨value, found, decoded⟩
      exact absurd (same ▸ file.versioned) other
  | blobs _ _ _ _ _ _ _ _ _ _ _ follows => exact removesBlob_db follows.state

/-- **No deletion that returns `Ok` for a version blob really deletes it.** -/
theorem delete_never_deletes (world : World) (req : DeleteArg) (target : RequestedFileId)
    (key : Bytes) (record : FsRecordValue) (result : DeleteResult)
    (ok : ((delete env req).run world).result = .ok result) (targeted : req.target = some target)
    (file : FileAt env.toNormalization world.db.fs target.path key record) :
    ¬ ReallyDeletes env world ((delete env req).run world).state target.path key record.id := by
  intro deletes
  have db := delete_versionBlob_db ok targeted file
  obtain ⟨value, found, _⟩ := file.there
  have gone := deletes.entry
  rw [db, found] at gone
  cases gone

theorem oneFile_not_deleted :
    ¬ ReallyDeletes (.numbered .unchanged) oneFile
      ((delete (.numbered .unchanged) deleteOneFile).run oneFile).state [['a']]
      (entryKey rootFsid ['a']) oneFileRecord.id :=
  delete_never_deletes oneFile deleteOneFile ⟨[['a']], none⟩ (entryKey rootFsid ['a'])
    oneFileRecord ⟨false⟩ (by decide) rfl oneFile_there

/-- The deletion returns `Ok`, and the entry is still there. -/
theorem deleteOneFile_keeps_entry :
    ((delete (.numbered .unchanged) deleteOneFile).run oneFile).result = .ok ⟨false⟩ ∧
      ¬ ReallyDeletes (.numbered .unchanged) oneFile
        ((delete (.numbered .unchanged) deleteOneFile).run oneFile).state [['a']]
        (entryKey rootFsid ['a']) oneFileRecord.id :=
  ⟨by decide, fun deletes => absurd deletes.entry (by decide)⟩

end Yeetbox.Storage
