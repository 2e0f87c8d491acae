import Yeetbox.Storage.Rows

/-!
# Pending blobs

A ULID that was drawn for an unfinished upload is *pending*: its blob has the content received so
far, and no row names it. A first fragment makes a blob pending (`Pending.start`), the fragments
that present its token add to it (`Pending.fragment`), and all other requests leave it alone
(`Pending.kept`). The final request of the session moves the content to a blob of its own and
commits a row that names it (`Pending.finish`).
-/

set_option autoImplicit false

namespace Yeetbox.Storage

open Library

/-- The blob of a drawn ULID has some content, and no row names it. -/
structure Pending (env : Env) (world : World) (call : ℕ) (content : Bytes) : Prop where
  drawn : call < world.calls
  blob : world.blobs[blobPath (env.newUlid call)]? = some content
  unnamed : ∀ key, ¬ RowNames env world.db.ver key call

/-- A new entry was committed, and its version row names a blob with the given bytes. -/
def CommitsFile (before later : World) (content : Bytes) : Prop :=
  ∃ (key : Bytes) (record : FsRecordValue) (row : Bytes), before.db.fs[key]? = none ∧
    RecordAt later.db.fs key record ∧ record.type = objTypeVersionBlob ∧
    later.db.ver[rowKey record.id record.latestVersion]? = some row ∧
    later.blobs[inBlobs (row.drop versionValueSize)]? = some content

/-- A new file whose row names a blob that is there. -/
theorem CommitsFile.of_newFile {before moved : World} {db : Db} {key content : Bytes} {name : Name}
    {record : FsRecordValue} {version : VersionRecordValue} {ulid : Ulid}
    (free : before.db.fs[key]? = none) (type : record.type = objTypeVersionBlob)
    (first : record.latestVersion = 1) (blob : moved.blobs[blobPath ulid]? = some content) :
    CommitsFile before (moved.withDb (withNewFile db key name record version (blobPath ulid)))
      content := by
  refine ⟨key, record, version.bytesOf ++ blobPath ulid, free, ?_, type, ?_, ?_⟩
  · exact recordAt_insert_iff.mpr (.inl ⟨rfl, rfl⟩)
  · rw [first]
    exact Table.get_insert_self _ _ _
  · rw [drop_versionValue_append, inBlobs_blobPath]
    exact blob

variable {env : Env} {server : Server} {call : ℕ} {content : Bytes}

/-- **Requests that do not present its token leave a pending blob alone.** -/
theorem Pending.kept {horizon : ℕ} (fresh : env.FreshBelow horizon) {req : Request}
    (rows : RowsDrawn env server.world)
    (bounded : (serve env server req).world.calls ≤ horizon)
    (others : req.token ≠ (env.newUlid call).toBytes)
    (pending : Pending env server.world call content) :
    Pending env (serve env server req).world call content := by
  have rises : server.world.calls ≤ (serve env server req).world.calls := serve_calls_le server req
  have early := pending.drawn
  refine ⟨early.trans_le rises, ?_, fun key names => ?_⟩
  · rw [← pending.blob]
    refine serve_blob_kept fun touches => ?_
    rcases rows.touches touches with
      ⟨ulid, token, path⟩ | ⟨other, late, below, path⟩ | ⟨key, other, names, before, path⟩
    · exact others (token.trans (congrArg Ulid.toBytes (blobPath_injective path).symm))
    · have calls := fresh (by omega) (by omega) (blobPath_injective path)
      omega
    · have calls := fresh (by omega) (by omega) (blobPath_injective path)
      exact pending.unnamed key (calls ▸ names)
  · exact pending.unnamed key (RowsDrawn.names_older fresh bounded early names)

/-! ## The requests of the session -/

/-- What a pending blob has after more data was received for it. -/
theorem Pending.received (pending : Pending env server.world call content) (arg : UploadArg) :
    (withReceived env server.world arg (env.newUlid call)).blobs[blobPath (env.newUlid call)]? =
      some (content ++ receivedData env server.world arg) := by
  rw [withReceived, World.withBlobs_blobs, get_extendIn, if_pos rfl, pending.blob, Option.getD_some]

/-- **A first fragment makes the blob of a new ULID pending.** -/
theorem Pending.start {horizon : ℕ} (fresh : env.FreshBelow horizon) {arg : UploadArg}
    {result : UploadResult} (sound : BlobsSound env horizon server.world)
    (bounded : (serve env server (.upload arg)).world.calls ≤ horizon)
    (new : arg.continuation = []) (incomplete : arg.incomplete = true)
    (ok : ((upload env arg).run server.world).result = .ok result) :
    result.continuation = (env.newUlid server.world.calls).toBytes ∧
      Pending env (serve env server (.upload arg)).world server.world.calls
        (receivedData env (server.world.advance 1) arg) := by
  rw [serve_upload_world] at bounded ⊢
  have done := upload_ok ok
  generalize ((upload env arg).run server.world).state = later at done bounded ⊢
  cases done with
  | committed _ _ _ _ _ _ _ _ _ _ _ complete => rw [incomplete] at complete; cases complete
  | fragment ulid drawn token _ =>
      cases token with
      | continued _ presented => exact absurd (presented.symm.trans new) (Ulid.toBytes_ne_nil ulid)
      | fresh _ =>
          have calls : (withReceived env (server.world.advance 1) arg
              (env.newUlid server.world.calls)).calls = server.world.calls + 2 := rfl
          rw [calls] at bounded
          have below : server.world.calls < horizon := by omega
          have empty : (server.world.advance 1).blobs[blobPath (env.newUlid server.world.calls)]? =
              (none : Option Bytes) := sound.absent_next below
          refine ⟨rfl, by rw [calls]; omega, ?_, sound.rows.unnamed fresh (Nat.le_refl _) below⟩
          rw [withReceived, World.withBlobs_blobs, get_extendIn, if_pos rfl, empty,
            Option.getD_none, List.nil_append]

/-- **A fragment that presents the token adds its data to the pending blob.** -/
theorem Pending.fragment {arg : UploadArg} {result : UploadResult}
    (pending : Pending env server.world call content)
    (presented : arg.continuation = (env.newUlid call).toBytes)
    (incomplete : arg.incomplete = true)
    (ok : ((upload env arg).run server.world).result = .ok result) :
    Pending env (serve env server (.upload arg)).world call
      (content ++ receivedData env server.world arg) := by
  rw [serve_upload_world]
  have done := upload_ok ok
  generalize ((upload env arg).run server.world).state = later at done ⊢
  cases done with
  | committed _ _ _ _ _ _ _ _ _ _ _ complete => rw [incomplete] at complete; cases complete
  | fragment ulid drawn token _ =>
      obtain ⟨rfl, rfl⟩ := token.of_presented presented
      exact ⟨pending.drawn.trans_le (Nat.le_add_right _ 1), pending.received arg, pending.unnamed⟩

/-- **The final request of the session commits a file with the pending content and its own.** -/
theorem Pending.finish {arg : UploadArg} {result : UploadResult}
    (pending : Pending env server.world call content)
    (presented : arg.continuation = (env.newUlid call).toBytes)
    (complete : arg.incomplete = false)
    (ok : ((upload env arg).run server.world).result = .ok result) :
    CommitsFile server.world (serve env server (.upload arg)).world
      (content ++ receivedData env server.world arg) := by
  rw [serve_upload_world]
  have done := upload_ok ok
  generalize ((upload env arg).run server.world).state = later at done ⊢
  cases done with
  | fragment _ _ _ incomplete => rw [complete] at incomplete; cases incomplete
  | committed target lastName ulid drawn parentId saved moved stops targeted named token _ walked
      free save =>
      obtain ⟨rfl, rfl⟩ := token.of_presented presented
      cases save with
      | single new => exact absurd (presented.symm.trans new) (Ulid.toBytes_ne_nil _)
      | renamed bytes _ continued found moves =>
          have content : moved.blobs[blobPath (env.newUlid ((withReceived env server.world arg
              (env.newUlid call)).calls + 4))]? = some bytes := by
            rw [moves]
            exact Table.get_insert_self _ _ _
          rw [pending.received, Option.some_inj] at found
          rw [found]
          exact .of_newFile free rfl rfl content

end Yeetbox.Storage
