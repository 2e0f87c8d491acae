import Mathlib.Tactic.MkIffOfInductiveProp
import Yeetbox.Storage.Tokens
import Yeetbox.Storage.Way

/-!
# Uploaded files stay readable

A file that was uploaded in a single message reads as the bytes of that message for as long as no
request is about its entry or takes away an entry on its way, whatever else the clients do
(`upload_stays_readable`).

What carries this through a run is `Stored`: the path resolves to the entry of the file, and the
one version row of the entry names a blob with the bytes. A request can touch that blob only by
going through the entry itself (`Stored.untouched`), because no issued token is that of a row, and
no other entry has a row that names the blob.
-/

set_option autoImplicit false

namespace Yeetbox.Storage

open Library

variable (env : Env)

/-- The path that an append or a deletion is for. -/
def Request.changedPath : Request → Option (List Name)
  | .append arg => arg.target.map RequestedFileId.path
  | .delete arg => arg.target.map RequestedFileId.path
  | _ => none

/-- No append or deletion resolves to the entry of a path, and no deletion or move removes an entry
on the way of the path. -/
@[mk_iff]
structure Undisturbed (path : List Name) (server : Server) (req : Request) : Prop where
  elsewhere : ∀ other ∈ req.changedPath.toList,
    keyOfPath env.toNormalization server.world.db.fs other ≠
      keyOfPath env.toNormalization server.world.db.fs path
  stays : req.isRemoval = true → ∀ key ∈ wayKeys env.toNormalization server.world.db.fs path,
    server.world.db.fs[key]? ≠ none → (serve env server req).world.db.fs[key]? ≠ none

instance (path : List Name) (server : Server) (req : Request) :
    Decidable (Undisturbed env path server req) :=
  decidable_of_iff' _ (undisturbed_iff env path server req)

/-! ## Files that are stored -/

/-- A path resolves to the entry of a file whose only version row names a blob with some content. -/
structure Stored (world : World) (path : List Name) (content key : Bytes) (record : FsRecordValue)
    (call : ℕ) : Prop where
  file : FileAt env.toNormalization world.db.fs path key record
  first : record.latestVersion = 1
  row : ∃ version : VersionRecordValue, LengthRecorded version.length content ∧
    world.db.ver[rowKey record.id 1]? = some (version.bytesOf ++ blobPath (env.newUlid call))
  blob : world.blobs[blobPath (env.newUlid call)]? = some content
  created : world.db.verCreated = true

variable {env} {path : List Name} {content key : Bytes} {record : FsRecordValue} {call : ℕ}

/-- **A stored file reads as its content.** -/
theorem Stored.reads {world : World} (transfers : env.TransfersAll)
    (stored : Stored env world path content key record call)
    (short : content.length ≤ maxVecLen) : Reads env world path none content := by
  obtain ⟨version, known, row⟩ := stored.row
  have readable : isReadableObjType record.type = true := by
    rw [stored.file.versioned]
    decide
  refine reads_of_row env transfers stored.file.resolved stored.file.there readable stored.created
    ?_ stored.blob known short
  rw [Option.getD_none, stored.first]
  exact row

/-- The row of a stored file names its blob. -/
theorem Stored.names {world : World} (stored : Stored env world path content key record call) :
    RowNames env world.db.ver (rowKey record.id 1) call := by
  obtain ⟨version, _, row⟩ := stored.row
  exact ⟨version, row⟩

variable {horizon : ℕ} {server : Server} {req : Request}

/-- The blob of a stored file is named by no row of another entry. -/
theorem Stored.same_entry (stored : Stored env server.world path content key record call)
    (sound : ServerSound env horizon server) {otherKey row : Bytes} {other : FsRecordValue}
    {version : FsVersion} (there : RecordAt server.world.db.fs otherKey other)
    (notFolder : NotFolder other)
    (found : server.world.db.ver[rowKey other.id version]? = some row)
    (same : inBlobs (row.drop versionValueSize) = blobPath (env.newUlid call)) :
    otherKey = key := by
  obtain ⟨otherCall, otherNames, _, otherPath⟩ := sound.blobs.rows.path found
  have sameUlid := blobPath_injective (otherPath.symm.trans same)
  have sameRow := sound.blobs.distinct (otherNames.congr sameUlid) stored.names
  have sameId : other.id = record.id := (rowKey_inj sameRow).1
  have versioned : NotFolder record := by
    rw [NotFolder, stored.file.versioned]
    decide
  exact sound.counted.ids.unique there stored.file.there notFolder versioned sameId

/-- **A request that is not about its entry leaves the blob of a stored file alone.** -/
theorem Stored.untouched (fresh : env.FreshBelow horizon)
    (stored : Stored env server.world path content key record call)
    (sound : ServerSound env horizon server) (permitted : Permitted env horizon server req)
    (undisturbed : Undisturbed env path server req) :
    ¬ Touches env server.world (serve env server req).world req (blobPath (env.newUlid call)) := by
  intro touches
  generalize blob : blobPath (env.newUlid call) = path at touches
  cases touches with
  | presented arg ulid token =>
      rcases permitted.honest with none | issued
      · exact Ulid.toBytes_ne_nil ulid (token.symm.trans none)
      · obtain ⟨drawn, sent, _, unnamed⟩ := sound.tokens _ issued
        have same : env.newUlid call = env.newUlid drawn :=
          (blobPath_injective blob).trans (Ulid.toBytes_injective (token.symm.trans sent))
        exact unnamed _ (stored.names.congr same)
  | drawn _ other early late =>
      have same := blobPath_injective blob
      exact sound.blobs.rows.unnamed fresh early (late.trans_le permitted.bounded) _
        (stored.names.congr same)
  | appended arg target otherKey other path targeted resolved head =>
      obtain ⟨row, found, _, rfl⟩ := head.row
      have notFolder : NotFolder other := by
        intro folder
        have readable := head.readable
        rw [folder] at readable
        exact absurd readable (by decide)
      have same := stored.same_entry sound head.there notFolder found blob.symm
      refine undisturbed.elsewhere target.path ?_ ?_
      · simp [Request.changedPath, targeted]
      · rw [resolved, stored.file.resolved, same]
  | deleted arg target otherKey other version row targeted file found =>
      have notFolder : NotFolder other := by
        rw [NotFolder, file.versioned]
        decide
      have same := stored.same_entry sound file.there notFolder found blob.symm
      refine undisturbed.elsewhere target.path ?_ ?_
      · simp [Request.changedPath, targeted]
      · rw [file.resolved, stored.file.resolved, same]

/-- **A file stays stored as long as no request disturbs it.** -/
theorem Stored.served (fresh : env.FreshBelow horizon)
    (stored : Stored env server.world path content key record call)
    (sound : ServerSound env horizon server) (permitted : Permitted env horizon server req)
    (undisturbed : Undisturbed env path server req) :
    Stored env (serve env server req).world path content key record call := by
  have commits : Commits env server req (serve env server req) := serve_commits server req
  obtain ⟨version, known, row⟩ := stored.row
  have onWay : key ∈ wayKeys env.toNormalization server.world.db.fs path :=
    mem_wayKeys_iff.mpr ⟨path, List.prefix_refl path, stored.file.resolved⟩
  have older := sound.counted.not_next ((allocated_le env server req).trans_lt permitted.few) row
  refine ⟨⟨?_, ?_, stored.file.versioned⟩, stored.first, ⟨version, known, ?_⟩, ?_, ?_⟩
  · exact commits.keyOfPath_kept undisturbed.stays stored.file.resolved
  · exact commits.recordAt_kept (fun removes =>
      undisturbed.stays removes key onWay stored.file.there.not_free) stored.file.there
  · exact commits.row_kept row older
  · rw [serve_blob_kept (stored.untouched fresh sound permitted undisturbed)]
    exact stored.blob
  · exact commits.verCreated_kept stored.created

/-- **A file stays stored through every run that does not disturb it.** -/
theorem Stored.run (fresh : env.FreshBelow horizon)
    (stored : Stored env server.world path content key record call)
    (sound : ServerSound env horizon server) {requests : List Request}
    (permitted : Guarded (serve env) (Permitted env horizon) server requests)
    (undisturbed : Guarded (serve env) (Undisturbed env path) server requests) :
    Stored env (runAll (serve env) server requests).world path content key record call := by
  have kept : ∀ server req,
      (Permitted env horizon server req ∧ Undisturbed env path server req) →
      (ServerSound env horizon server ∧ Stored env server.world path content key record call) →
      ServerSound env horizon (serve env server req) ∧
        Stored env (serve env server req).world path content key record call := by
    rintro server req ⟨permitted, undisturbed⟩ ⟨sound, stored⟩
    exact ⟨sound.served fresh permitted, stored.served fresh sound permitted undisturbed⟩
  exact ((permitted.and undisturbed).invariant kept ⟨sound, stored⟩).2

/-! ## From the upload on -/

/-- The recorded length of data that came in a request is its length. -/
theorem lengthRecorded_payload (data : Payload) :
    LengthRecorded (.ofNat data.bytes.length) data.bytes := by
  have bound : maxVecLen < 2 ^ 64 := by decide
  refine .inr ?_
  rw [UInt64.toNat_ofNat', Nat.mod_eq_of_lt (data.bound.trans_lt bound)]

/-- **A file that was uploaded in a single message is stored.** -/
theorem Stored.start {arg : UploadArg} {name : Name} {result : UploadResult}
    (writes : ∀ call size, env.write call size = size) (sound : ServerSound env horizon server)
    (bounded : (serve env server (.upload arg)).world.calls ≤ horizon)
    (targeted : arg.target = some ⟨path⟩) (single : arg.continuation = [])
    (complete : arg.incomplete = false) (named : path.getLast? = some name)
    (trimmed : trim name = name)
    (ok : ((upload env arg).run server.world).result = .ok result) :
    ∃ key record call,
      Stored env (serve env server (.upload arg)).world path arg.data.bytes key record call := by
  rw [serve_upload_world] at bounded ⊢
  obtain ⟨parentId, record, version, walked, free, file, first, length, ends⟩ :=
    upload_single targeted named single complete ok
  rw [ends] at bounded ⊢
  have below : server.world.calls < horizon := by
    rw [World.withDb_calls, World.advance_calls, withReceived, World.withBlobs_calls,
      World.advance_calls, World.advance_calls] at bounded
    omega
  have leads : LeadsTo server.world.db.fs path.dropLast parentId := by
    have raw := walkFolders_eq_ok_iff.mp walked
    rwa [List.map_id] at raw
  -- The uploader looked its folders up as they are, and the reader looks them up in NFKD.
  have spelled := sound.canonical.leadsTo_nfkd leads
  rw [uploadKey, trimmed] at free ⊢
  refine ⟨makeKey env.toNormalization parentId name, record, server.world.calls,
    ⟨?_, ?_, file⟩, first, ⟨version, ?_, ?_⟩, ?_, rfl⟩
  · refine keyOfPath_of_walk named (walkFolders_eq_ok_iff.mpr ?_)
    rw [spelled]
    exact leads.insert free _
  · exact recordAt_insert_iff.mpr (.inl ⟨rfl, rfl⟩)
  · rw [length]
    exact lengthRecorded_payload arg.data
  · exact Table.get_insert_self _ _ _
  · have absent := sound.blobs.absent_next below
    rw [World.withDb_blobs, World.advance_blobs, withReceived, World.withBlobs_blobs, get_extendIn,
      if_pos rfl, World.advance_blobs, absent, Option.getD_none, List.nil_append, receivedData,
      writes, List.take_length]

/-- **An uploaded file stays readable.** After any run in which clients are honest and nothing
disturbs the path, every page of the file reads as it was uploaded. -/
theorem upload_stays_readable (env : Env) (transfers : env.TransfersAll)
    (earlier later : List Request) (arg : UploadArg) (path : List Name) (name : Name)
    (result : UploadResult)
    (fresh : env.FreshBelow (serverAfter env (earlier ++ .upload arg :: later)).world.calls)
    (honest : Guarded (serve env) Honest .empty (earlier ++ .upload arg :: later))
    (few : (serverAfter env (earlier ++ .upload arg :: later)).allocated < 2 ^ 64 - 1)
    (targeted : arg.target = some ⟨path⟩) (single : arg.continuation = [])
    (complete : arg.incomplete = false) (named : path.getLast? = some name)
    (trimmed : trim name = name)
    (ok : ((upload env arg).run (serverAfter env earlier).world).result = .ok result)
    (undisturbed : Guarded (serve env) (Undisturbed env path)
      (serverAfter env (earlier ++ [.upload arg])) later) :
    Reads env (serverAfter env (earlier ++ .upload arg :: later)).world path none
      arg.data.bytes := by
  have permitted := permitted_of_honest honest few
  obtain ⟨before, atUpload, during⟩ := guarded_append_iff.mp permitted
  have sound := serverAfter_sound fresh before
  obtain ⟨key, record, call, stored⟩ := Stored.start transfers.write sound atUpload.bounded targeted
    single complete named trimmed ok
  rw [serverAfter_append] at undisturbed ⊢
  have after := stored.run fresh (sound.served fresh atUpload) during undisturbed
  exact after.reads transfers arg.data.bound

/-! ## A file in a folder -/

/-- An upload of a file to the folder `d`. -/
def uploadInFolder : UploadArg where
  target := some ⟨[['d'], ['a']]⟩
  data := { bytes := [1, 2, 3] }

/-- Requests of other clients: a file of the same name in the root is uploaded, appended to, moved
and deleted, and an upload to the folder is begun. -/
def laterRequests : List Request :=
  [.upload uploadOneFile, .append { target := some ⟨[['a']], none⟩, data := { bytes := [9] } },
    .move { target := some ⟨[['a']], none⟩, destination := [['d'], ['b']] },
    .delete { target := some ⟨[['d'], ['b']], none⟩ },
    .upload { target := some ⟨[['d'], ['c']]⟩, data := { bytes := [7] }, incomplete := true }]

theorem uploadInFolder_stays_readable :
    Reads (.numbered .unchanged)
      (serverAfter (.numbered .unchanged)
        ([.makeDirectory { target := some ⟨[['d']]⟩ }] ++
          .upload uploadInFolder :: laterRequests)).world
      [['d'], ['a']] none [1, 2, 3] :=
  upload_stays_readable (.numbered .unchanged) (Env.numbered_transfersAll _)
    [.makeDirectory { target := some ⟨[['d']]⟩ }] laterRequests uploadInFolder [['d'], ['a']] ['a']
    ⟨[]⟩ (Env.numbered_freshBelow _ (by decide +kernel)) (by decide +kernel) (by decide +kernel) rfl
    rfl rfl rfl (by decide) (by decide +kernel) (by decide +kernel)

end Yeetbox.Storage
