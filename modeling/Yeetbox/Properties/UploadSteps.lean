import Yeetbox.Properties.Sessions
import Yeetbox.Properties.Steps

/-!
# An upload on the drive

An upload that is well formed adds its data to the blob of a ULID, and a final one goes on to create
its file (`upload_run`). On the drive the data goes to the upload of that ULID, and the file takes
what was received (`upload_onDrive`). An upload that is new and fails leaves its blob behind, under
a ULID that nobody was told; the drive does not show it.
-/

set_option autoImplicit false

namespace Yeetbox.Storage

open Library Handler

variable {env : Env} {horizon : ℕ} {server : Server} {world : World} {arg : UploadArg}

/-! ## Running an upload -/

theorem uploadWith_eq_some_iff {ulid : Ulid} :
    uploadWith (env.newUlid world.calls) arg = some ulid ↔
      ∃ drawn, UploadToken env world arg ulid drawn := by
  rw [uploadWith]
  split
  · rename_i new
    constructor
    · rintro same
      cases same
      exact ⟨_, .fresh new⟩
    · rintro ⟨drawn, token⟩
      cases token with
      | fresh _ => rfl
      | continued _ presented => exact absurd (presented.symm.trans new) (Ulid.toBytes_ne_nil ulid)
  · rename_i old
    rw [ulidOfBytes_eq_some_iff]
    constructor
    · intro presented
      exact ⟨world, .continued ulid presented⟩
    · rintro ⟨drawn, token⟩
      cases token with
      | fresh new => exact absurd new old
      | continued _ presented => exact presented

/-- **An upload with a target and a ULID is received.** -/
theorem upload_run {target : FileId} {lastName : Name} {ulid : Ulid} {drawn : World}
    (targeted : arg.target = some target) (named : target.path.getLast? = some lastName)
    (token : UploadToken env world arg ulid drawn) :
    (upload env arg).run world = (receiveUpload env arg target lastName ulid).run drawn := by
  rw [upload, targeted, run_orFail_some_bind, named, run_orFail_some_bind, uploadUlid]
  cases token with
  | fresh new =>
      rw [if_pos (List.length_eq_zero_iff.mpr new), newUlid, run_draw_bind]
  | continued _ presented =>
      have old : ¬ arg.continuation.length = 0 := by
        rw [List.length_eq_zero_iff, presented]
        exact Ulid.toBytes_ne_nil ulid
      rw [if_neg old, presented, ulidOfBytes_toBytes, run_orFail_some_bind]

/-- An upload without a target or without a ULID is refused. -/
theorem upload_run_refused (malformed : ∀ target ulid, arg.target = some target →
      uploadWith (env.newUlid world.calls) arg = some ulid → target.path = []) :
    ∃ err, (upload env arg).run world = ⟨.error err, world, []⟩ := by
  rw [upload]
  rcases targeted : arg.target with _ | target
  · exact ⟨_, rfl⟩
  rw [run_orFail_some_bind]
  rcases named : target.path.getLast? with _ | lastName
  · exact ⟨_, rfl⟩
  have nonempty : target.path ≠ [] := by
    intro empty
    rw [empty] at named
    cases named
  rw [run_orFail_some_bind, uploadUlid]
  rcases new : arg.continuation with _ | ⟨first, rest⟩
  · exact absurd (malformed target _ targeted (if_pos new)) nonempty
  · rcases read : ulidOfBytes (first :: rest) with _ | ulid
    · exact ⟨_, rfl⟩
    · have old : ¬ arg.continuation = [] := by
        rw [new]
        exact List.cons_ne_nil _ _
      refine absurd (malformed target ulid targeted ?_) nonempty
      rw [uploadWith, if_neg old, new, read]

/-- **A final upload to a free place saves its blob and commits its file.** -/
theorem finishUpload_done {target : FileId} {lastName : Name} {ulid : Ulid} {content : Bytes}
    {parentId : FileSystemId} (complete : arg.incomplete = false)
    (there : world.blobs[blobPath ulid]? = some content)
    (walked : uploadWalk world.db.fs target.path.dropLast = .ok parentId)
    (free : world.db.fs[uploadKey env.toNormalization parentId lastName]? = none) :
    ∃ saved moved stops after, SavedBlob env world arg ulid saved moved stops ∧
      (finishUpload env arg target lastName ulid).run world =
        ⟨.ok {}, moved.withDb (withNewFile world.db
          (uploadKey env.toNormalization parentId lastName) (trim lastName)
          (newFileRecord env world.db ulid world.calls) (newFileVersion env arg world.calls)
          (blobPath saved)), after⟩ := by
  have cases := finishUpload_cases env world arg target lastName ulid complete
  have ok : ((finishUpload env arg target lastName ulid).run world).result = .ok {} := by
    rw [run_finishUpload_free env ulid complete walked free]
    by_cases new : arg.continuation = []
    · have single : (arg.continuation.length == 0) = true := by simp [new]
      rw [single, saveBlob, if_pos rfl]
      rfl
    · have fragmented : (arg.continuation.length == 0) = false := by simp [new]
      have found : ((world.advance 4).advance 1).blobs[blobPath ulid]? = some content := there
      rw [fragmented, saveBlob, if_neg Bool.false_ne_true, run_bind_assoc, newUlid, run_draw_bind,
        run_bind_assoc, run_rename_bind_found found _ _ rfl]
      rfl
  generalize (finishUpload env arg target lastName ulid).run world = outcome at cases ok
  cases cases with
  | rejected err count check => cases ok
  | broken err count notCheck reason => cases ok
  | committed parentId' saved moved later stops walked' free' save result =>
      cases walked.symm.trans walked'
      exact ⟨saved, moved, stops, stops ++ [later], save, by rw [result]⟩

/-! ## What is received -/

/-- **Data that is received is added to its upload.** -/
theorem drive_received {ulid : Ulid} {later : Server} {data : Bytes}
    (db : later.world.db = server.world.db)
    (blobs : later.world.blobs = extendIn server.world.blobs (blobPath ulid) data)
    (issued : ∀ other : Ulid, other.toBytes ∈ later.issued ↔
      other = ulid ∨ other.toBytes ∈ server.issued)
    (rows : ∀ (key row : Bytes), server.world.db.ver[key]? = some row →
      later.world.blobs[inBlobs (row.drop versionValueSize)]? =
        server.world.blobs[inBlobs (row.drop versionValueSize)]?)
    (before : server.drive.received ulid = server.world.blobs[blobPath ulid]?.getD []) :
    later.drive = server.drive.perform (.receive ulid data) := by
  ext1
  · exact congrArg entriesOf (congrArg Db.fs db)
  · have files := filesOf_congr fun id row found => rows (rowKey id 1) row found
    rw [Server.drive, db]
    exact files
  · have changed := @pendingOf_changed server.issued later.issued server.world.blobs
      later.world.blobs ulid ((issued ulid).mpr (.inl rfl))
      (fun other different => (issued other).trans (or_iff_right different))
      (fun other different _ => by
        rw [blobs, get_extendIn, if_neg (blobPath_injective.ne different)])
    have content : later.world.blobs[blobPath ulid]? =
        some (server.drive.received ulid ++ data) := by
      rw [blobs, get_extendIn, if_pos rfl, before]
    rw [content] at changed
    exact changed
  · exact congrArg (Db.lastId · fsTableName) db

/-- **A file that is created is the next one on the drive.** -/
theorem drive_created {later : Server} {place : Place} {shown : Name} {record : FsRecordValue}
    {version : VersionRecordValue} {saved : Ulid} {file : File}
    (db : later.world.db =
      withNewFile server.world.db place.key shown record version (blobPath saved))
    (type : record.type = objTypeVersionBlob)
    (id : record.id = server.world.db.lastId fsTableName + 1)
    (rows : ∀ (key row : Bytes), server.world.db.ver[key]? = some row →
      later.world.blobs[inBlobs (row.drop versionValueSize)]? =
        server.world.blobs[inBlobs (row.drop versionValueSize)]?)
    (recorded : recordedOf version.length = file.recorded)
    (content : later.world.blobs[blobPath saved]? = file.content) :
    later.drive = { server.drive.withFile place shown file with
      pending := pendingOf later.issued later.world.blobs } := by
  have node : nodeOf record = .file (server.drive.last + 1) := nodeOf_eq_file_iff.mpr ⟨type, id⟩
  have shows : fileOf later.world.blobs (version.bytesOf ++ blobPath saved) = some file := by
    rw [fileOf_append, recorded, content]
  ext1
  · have inserted := entriesOf_insert server.world.db.fs place record shown
    rw [node] at inserted
    rw [Server.drive, db]
    exact inserted
  · have inserted := filesOf_insert server.world.db.ver later.world.blobs record.id
      (version.bytesOf ++ blobPath saved)
    rw [shows, id, filesOf_congr fun id row found => rows (rowKey id 1) row found] at inserted
    rw [Server.drive, db, withNewFile, id]
    exact inserted
  · rfl
  · rw [Server.drive, db]
    exact lastId_withNewFile _ _ _ _ _ _

section Received

variable {ulid : Ulid} {drawn : World} (token : UploadToken env server.world arg ulid drawn)
include token

theorem received_db : (withReceived env drawn arg ulid).db = server.world.db := token.db

theorem received_blobs (writes : ∀ call size, env.write call size = size) :
    (withReceived env drawn arg ulid).blobs =
      extendIn server.world.blobs (blobPath ulid) arg.data.bytes := by
  rw [withReceived, World.withBlobs_blobs, token.blobs, receivedData_eq writes]

/-- **The drive knows what was received before.** -/
theorem received_before (sound : ServerSound env horizon server)
    (honest : Honest server (.upload arg))
    (bounded : (withReceived env drawn arg ulid).calls ≤ horizon) :
    server.drive.received ulid = server.world.blobs[blobPath ulid]?.getD [] := by
  have shown : server.drive.received ulid =
      (pendingOf server.issued server.world.blobs ulid).getD [] := rfl
  rw [shown, pendingOf]
  cases token with
  | fresh new =>
      have below : server.world.calls < horizon := by
        rw [withReceived, World.withBlobs_calls, World.advance_calls, World.advance_calls]
          at bounded
        omega
      rw [sound.blobs.absent_next below]
      split <;> rfl
  | continued _ presented =>
      rcases honest with none | issued
      · exact absurd (presented.symm.trans none) (Ulid.toBytes_ne_nil ulid)
      · rw [if_pos (presented ▸ issued)]

end Received

/-! ## What the drive decides -/

theorem decideUpload_malformed {drive : Drive} {normalization : Normalization} {ulid : Ulid}
    (malformed : ∀ target other, arg.target = some target → uploadWith ulid arg = some other →
      target.path = []) :
    drive.decideUpload normalization ulid arg = (.rest, .refused) := by
  rw [Drive.decideUpload]
  rcases targeted : arg.target with _ | target
  · rfl
  · rcases drawn : uploadWith ulid arg with _ | other
    · rfl
    · exact if_pos (malformed target other targeted drawn)

theorem decideUpload_wellFormed {drive : Drive} {normalization : Normalization}
    {drawn ulid : Ulid} {target : FileId} (targeted : arg.target = some target)
    (with' : uploadWith drawn arg = some ulid) (nonempty : target.path ≠ []) :
    drive.decideUpload normalization drawn arg =
      if arg.incomplete then (.receive ulid arg.data.bytes, .continues ulid.toBytes)
      else drive.decideFinal normalization ulid arg target.path := by
  rw [Drive.decideUpload, targeted, with']
  exact if_neg nonempty

/-! ## Steps -/

section Steps

variable (fresh : env.FreshBelow horizon) (legible : Legible env horizon server)
  (writes : ∀ call size, env.write call size = size)
  (permitted : Permitted env horizon server (.upload arg))
include fresh legible writes permitted

omit writes in
theorem upload_rows {key row : Bytes} (found : server.world.db.ver[key]? = some row) :
    (serve env server (.upload arg)).world.blobs[inBlobs (row.drop versionValueSize)]? =
      server.world.blobs[inBlobs (row.drop versionValueSize)]? :=
  legible.row_kept fresh permitted (fun _ same => by cases same) (fun _ same => by cases same) found

/-- A fragment is received. -/
theorem fragment_onDrive {target : FileId} {lastName : Name} {ulid : Ulid} {drawn : World}
    (targeted : arg.target = some target) (named : target.path.getLast? = some lastName)
    (token : UploadToken env server.world arg ulid drawn) (incomplete : arg.incomplete = true) :
    OnDrive env server (.upload arg) := by
  have ran := upload_run targeted named token
  rw [run_receiveUpload, incomplete, if_pos rfl] at ran
  have handled : (handle env (.upload arg)).run server.world = _ := congrArg (Outcome.map _) ran
  have nonempty : target.path ≠ [] := fun empty => by simp [empty] at named
  have decided : server.drive.decide env.toNormalization (env.newUlid server.world.calls)
      (.upload arg) = (.receive ulid arg.data.bytes, .continues ulid.toBytes) := by
    rw [Drive.decide, decideUpload_wellFormed targeted (uploadWith_eq_some_iff.mpr ⟨_, token⟩)
      nonempty, incomplete, if_pos rfl]
  have world : (serve env server (.upload arg)).world = withReceived env drawn arg ulid :=
    congrArg Outcome.state handled
  have issued : (serve env server (.upload arg)).issued = server.issued ++ [ulid.toBytes] := by
    have issues : issuedBy (.ok (.uploaded { continuation := ulid.toBytes })) =
        [ulid.toBytes] := by
      rw [issuedBy, if_neg (Ulid.toBytes_ne_nil ulid)]
    rw [serve, Server.answered, handled, ← issues]
    rfl
  have bounded := permitted.bounded
  rw [world] at bounded
  refine ⟨?_, ?_⟩
  · rw [decided]
    have shown := received_before token legible.toServerSound permitted.honest bounded
    refine drive_received ?_ ?_ ?_ ?_ shown
    · rw [world]
      exact received_db token
    · rw [world]
      exact received_blobs token writes
    · intro other
      rw [issued, List.mem_append, List.mem_singleton, Ulid.toBytes_injective.eq_iff, or_comm]
    · exact fun key row found => upload_rows fresh legible permitted found
  · have continues : replyOf (.ok (.uploaded { continuation := ulid.toBytes })) =
        .continues ulid.toBytes := by
      rw [replyOf, if_neg (Ulid.toBytes_ne_nil ulid)]
    rw [decided, handled, ← continues]
    rfl

/-- A final upload that is rejected leaves behind what was received of it. -/
theorem rejected_onDrive {target : FileId} {lastName : Name} {ulid : Ulid} {drawn : World}
    (targeted : arg.target = some target) (named : target.path.getLast? = some lastName)
    (token : UploadToken env server.world arg ulid drawn) (complete : arg.incomplete = false)
    (nowhere : server.drive.newPlace env.toNormalization target.path = none) :
    OnDrive env server (.upload arg) := by
  have ran := upload_run targeted named token
  rw [run_receiveUpload, complete, if_neg Bool.false_ne_true] at ran
  have nonempty : target.path ≠ [] := fun empty => by simp [empty] at named
  have decided : server.drive.decide env.toNormalization (env.newUlid server.world.calls)
      (.upload arg) =
        (if arg.continuation = [] then .rest else .receive ulid arg.data.bytes, .refused) := by
    rw [Drive.decide, decideUpload_wellFormed targeted (uploadWith_eq_some_iff.mpr ⟨_, token⟩)
      nonempty, complete, if_neg Bool.false_ne_true, Drive.decideFinal, nowhere]
  obtain ⟨err, count, failed⟩ : ∃ err count,
      (finishUpload env arg target lastName ulid).run (withReceived env drawn arg ulid) =
        ⟨.error err, (withReceived env drawn arg ulid).advance count, []⟩ := by
    have cases := finishUpload_cases env (withReceived env drawn arg ulid) arg target lastName ulid
      complete
    generalize (finishUpload env arg target lastName ulid).run _ = outcome at cases ⊢
    cases cases with
    | rejected err count check => exact ⟨err, count, rfl⟩
    | broken err count notCheck reason => exact ⟨err, count, rfl⟩
    | committed parentId saved moved later stops walked free save result =>
        rw [received_db token] at walked free
        have placed := legible.newPlace_iff.mpr
          ⟨lastName, parentId, named, walked, free, rfl, rfl⟩
        rw [nowhere] at placed
        cases placed
  rw [failed] at ran
  have handled : (handle env (.upload arg)).run server.world = _ := congrArg (Outcome.map _) ran
  have db : (withReceived env drawn arg ulid).db = server.world.db := received_db token
  have blobs := received_blobs token writes
  by_cases new : arg.continuation = []
  · rw [if_pos new] at decided
    exact legible.onDrive_of_error fresh permitted new (congrArg Outcome.result handled) decided
  · rw [if_neg new] at decided
    have world : (serve env server (.upload arg)).world =
        (withReceived env drawn arg ulid).advance count := congrArg Outcome.state handled
    have issued : (serve env server (.upload arg)).issued = server.issued := by
      rw [serve, Server.answered, handled]
      exact List.append_nil _
    have presented : ulid.toBytes ∈ server.issued := by
      cases token with
      | fresh none => exact absurd none new
      | continued _ presented => exact presented ▸ permitted.honest.resolve_left new
    have bounded := permitted.bounded
    rw [world, World.advance_calls] at bounded
    refine ⟨?_, ?_⟩
    · rw [decided]
      refine drive_received ?_ ?_ ?_ ?_
        (received_before token legible.toServerSound permitted.honest (by omega))
      · rw [world]
        exact db
      · rw [world]
        exact blobs
      · intro other
        rw [issued]
        constructor
        · exact .inr
        · rintro (rfl | before)
          · exact presented
          · exact before
      · exact fun key row found => upload_rows fresh legible permitted found
    · rw [decided, handled]
      rfl

/-- The world after a file was created at a place. -/
def Creates (env : Env) (server : Server) (arg : UploadArg) (place : Place) (shown : Name)
    (ulid saved : Ulid) (drawn moved : World) : Prop :=
  (serve env server (.upload arg)).world = moved.withDb (withNewFile server.world.db place.key shown
    (newFileRecord env server.world.db ulid (withReceived env drawn arg ulid).calls)
    (newFileVersion env arg (withReceived env drawn arg ulid).calls) (blobPath saved))

/-- A new upload leaves all of its data in a file. -/
theorem single_created {place : Place} {shown : Name} (new : arg.continuation = [])
    (creates : Creates env server arg place shown (env.newUlid server.world.calls)
      (env.newUlid server.world.calls) (server.world.advance 1)
      ((withReceived env (server.world.advance 1) arg (env.newUlid server.world.calls)).advance 4))
    (issued : (serve env server (.upload arg)).issued = server.issued) :
    (serve env server (.upload arg)).drive = server.drive.perform
      (.create place shown ⟨some arg.data.bytes.length, some arg.data.bytes⟩) := by
  have bounded := permitted.bounded
  rw [creates, World.withDb_calls, World.advance_calls, withReceived, World.withBlobs_calls,
    World.advance_calls, World.advance_calls] at bounded
  have content : (serve env server (.upload arg)).world.blobs[
      blobPath (env.newUlid server.world.calls)]? = some arg.data.bytes := by
    rw [creates, World.withDb_blobs, World.advance_blobs, received_blobs (.fresh new) writes,
      get_extendIn, if_pos rfl, legible.blobs.absent_next (by omega)]
    rfl
  have kept : pendingOf (serve env server (.upload arg)).issued
      (serve env server (.upload arg)).world.blobs = server.drive.pending := by
    rw [issued]
    refine pendingOf_congr fun other out => legible.token_kept fresh permitted out fun same => ?_
    exact Ulid.toBytes_ne_nil other (same.symm.trans new)
  have created := @drive_created server (serve env server (.upload arg)) place shown _ _ _
    ⟨some arg.data.bytes.length, some arg.data.bytes⟩ (congrArg World.db creates) rfl rfl
    (fun _ _ found => upload_rows fresh legible permitted found)
    (by rw [newFileVersion, if_pos new, recordedOf_ofNat arg.data.bound]) content
  rw [created, kept]
  rfl

/-- An upload that goes on leaves in a file what was received of it. -/
theorem renamed_created {place : Place} {shown : Name} {ulid : Ulid} {content : Bytes}
    {moved : World} (presented : arg.continuation = ulid.toBytes)
    (found : (withReceived env server.world arg ulid).blobs[blobPath ulid]? = some content)
    (result : moved = ((withReceived env server.world arg ulid).advance 5).withBlobs
      (((withReceived env server.world arg ulid).blobs.erase (blobPath ulid)).insert
        (blobPath (env.newUlid ((withReceived env server.world arg ulid).calls + 4))) content))
    (creates : Creates env server arg place shown ulid
      (env.newUlid ((withReceived env server.world arg ulid).calls + 4)) server.world moved)
    (issued : (serve env server (.upload arg)).issued = server.issued) :
    (serve env server (.upload arg)).drive =
      server.drive.perform (.finish ulid arg.data.bytes place shown) := by
  have continued : arg.continuation ≠ [] := presented ▸ Ulid.toBytes_ne_nil ulid
  have out : ulid.toBytes ∈ server.issued := presented ▸ permitted.honest.resolve_left continued
  have bounded := permitted.bounded
  have calls : (serve env server (.upload arg)).world.calls = server.world.calls + 6 := by
    rw [creates, result]
    rfl
  rw [calls] at bounded
  have before := received_before (.continued ulid presented) legible.toServerSound permitted.honest
    ((Nat.le_add_right (server.world.calls + 1) 5).trans bounded)
  rw [received_blobs (.continued ulid presented) writes, get_extendIn, if_pos rfl, ← before]
    at found
  -- The ULID that the blob is renamed to is drawn after that of the token.
  have saved : env.newUlid ((withReceived env server.world arg ulid).calls + 4) ≠ ulid :=
    legible.drawn_ne_token fresh (Nat.le_add_right server.world.calls 5) bounded out
  have erased : (serve env server (.upload arg)).world.blobs[blobPath ulid]? = none := by
    rw [creates, result]
    refine (Table.get_insert_ne _ _ (blobPath_injective.ne saved.symm)).trans ?_
    exact Table.get_erase_self _ _
  have kept := @pendingOf_changed server.issued (serve env server (.upload arg)).issued
    server.world.blobs (serve env server (.upload arg)).world.blobs ulid (issued ▸ out)
    (fun _ _ => by rw [issued])
    (fun other different before => legible.token_kept fresh permitted before fun same =>
      different (Ulid.toBytes_injective (same.symm.trans presented)))
  have created := @drive_created server (serve env server (.upload arg)) place shown _ _ _
    ⟨none, some content⟩ (congrArg World.db creates) rfl rfl
    (fun _ _ found => upload_rows fresh legible permitted found)
    (by rw [newFileVersion, if_neg continued]; rfl)
    (by rw [creates, result]; exact Table.get_insert_self _ _ _)
  rw [created, kept, erased, ← Option.some.inj found]
  rfl

/-- A final upload to a free place creates its file. -/
theorem committed_onDrive {target : FileId} {lastName : Name} {ulid : Ulid} {drawn : World}
    {place : Place} {shown : Name} (targeted : arg.target = some target)
    (named : target.path.getLast? = some lastName)
    (token : UploadToken env server.world arg ulid drawn) (complete : arg.incomplete = false)
    (placed : server.drive.newPlace env.toNormalization target.path = some (place, shown)) :
    OnDrive env server (.upload arg) := by
  have ran := upload_run targeted named token
  rw [run_receiveUpload, complete, if_neg Bool.false_ne_true] at ran
  have nonempty : target.path ≠ [] := fun empty => by simp [empty] at named
  have decided : server.drive.decide env.toNormalization (env.newUlid server.world.calls)
      (.upload arg) =
        (if arg.continuation = [] then
          .create place shown ⟨some arg.data.bytes.length, some arg.data.bytes⟩
        else .finish ulid arg.data.bytes place shown, .done) := by
    rw [Drive.decide, decideUpload_wellFormed targeted (uploadWith_eq_some_iff.mpr ⟨_, token⟩)
      nonempty, complete, if_neg Bool.false_ne_true, Drive.decideFinal, placed]
  obtain ⟨lastName', parentId, named', walked, free, rfl, rfl⟩ := legible.newPlace_iff.mp placed
  cases named.symm.trans named'
  have db : (withReceived env drawn arg ulid).db = server.world.db := received_db token
  have there : (withReceived env drawn arg ulid).blobs[blobPath ulid]? =
      some (server.world.blobs[blobPath ulid]?.getD [] ++ arg.data.bytes) := by
    rw [received_blobs token writes, get_extendIn, if_pos rfl]
  rw [← db] at walked free
  obtain ⟨saved, moved, stops, after, save, finished⟩ :=
    finishUpload_done complete there walked free
  rw [finished, db] at ran
  have handled : (handle env (.upload arg)).run server.world = _ := congrArg (Outcome.map _) ran
  have creates : Creates env server arg ⟨parentId, env.nfkd (trim lastName)⟩ (trim lastName) ulid
      saved drawn moved := congrArg Outcome.state handled
  have issued : (serve env server (.upload arg)).issued = server.issued := by
    rw [serve, Server.answered, handled]
    exact List.append_nil _
  refine ⟨?_, by rw [decided, handled]; rfl⟩
  rw [decided]
  cases save with
  | single new =>
      obtain ⟨rfl, rfl⟩ := token.unique (.fresh new)
      rw [if_pos new]
      exact single_created fresh legible writes permitted new creates issued
  | renamed content moved continued found result =>
      rw [if_neg continued]
      cases token with
      | fresh new => exact absurd new continued
      | continued _ presented =>
          exact renamed_created fresh legible writes permitted presented found result creates issued

/-! ## All uploads -/

/-- **An upload is answered on the drive as by the server.** -/
theorem upload_onDrive : OnDrive env server (.upload arg) := by
  by_cases formed : ∀ target ulid, arg.target = some target →
      uploadWith (env.newUlid server.world.calls) arg = some ulid → target.path = []
  · obtain ⟨err, ran⟩ := upload_run_refused formed
    have handled : (handle env (.upload arg)).run server.world = _ := congrArg (Outcome.map _) ran
    have decided : server.drive.decide env.toNormalization (env.newUlid server.world.calls)
        (.upload arg) = (.rest, .refused) := decideUpload_malformed formed
    refine ⟨?_, by rw [decided, handled]; rfl⟩
    rw [decided, serve, handled]
    exact Server.drive_congr rfl rfl (List.append_nil _)
  · push Not at formed
    obtain ⟨target, ulid, targeted, with', nonempty⟩ := formed
    obtain ⟨drawn, token⟩ := uploadWith_eq_some_iff.mp with'
    have named := List.getLast?_eq_some_getLast nonempty
    cases stage : arg.incomplete with
    | true => exact fragment_onDrive fresh legible writes permitted targeted named token stage
    | false =>
        rcases placed : server.drive.newPlace env.toNormalization target.path with
          _ | ⟨place, shown⟩
        · exact rejected_onDrive fresh legible writes permitted targeted named token stage placed
        · exact committed_onDrive fresh legible writes permitted targeted named token stage placed

end Steps

end Yeetbox.Storage
