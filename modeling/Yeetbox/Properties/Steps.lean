import Yeetbox.Properties.Failures
import Yeetbox.Storage.View

/-!
# One request on the drive

A request that is answered by a server is answered in the same way by the drive that the server is
read as (`OnDrive`). What a request leaves alone comes first: it touches no blob of another token,
and only an append or a deletion touches the blob of a row. So a request that fails leaves the drive
as it is, up to what an upload adds to its own token.
-/

set_option autoImplicit false

namespace Yeetbox.Storage

open Library Handler

variable {env : Env} {horizon : ℕ} {server : Server} {req : Request}

/-- The drive of a server answers a request as the server does, and goes on as it does. -/
structure OnDrive (env : Env) (server : Server) (req : Request) : Prop where
  drive : (serve env server req).drive = server.drive.perform
    (server.drive.decide env.toNormalization (env.newUlid server.world.calls) req).1
  reply : replyOf ((handle env req).run server.world).result =
    (server.drive.decide env.toNormalization (env.newUlid server.world.calls) req).2

theorem Server.drive_congr {first second : Server} (db : first.world.db = second.world.db)
    (blobs : first.world.blobs = second.world.blobs) (issued : first.issued = second.issued) :
    first.drive = second.drive := by
  rw [Server.drive, Server.drive, db, blobs, issued]

/-! ## What a request leaves alone -/

/-- No token is that of a row. -/
theorem ServerSound.token_ne_row (sound : ServerSound env horizon server) {ulid : Ulid}
    (issued : ulid.toBytes ∈ server.issued) {key row : Bytes}
    (found : server.world.db.ver[key]? = some row) :
    blobPath ulid ≠ inBlobs (row.drop versionValueSize) := by
  obtain ⟨call, token, _, unnamed⟩ := sound.tokens _ issued
  obtain ⟨drawn, names, _, path⟩ := sound.blobs.rows.path found
  intro same
  have ulids := blobPath_injective (same.trans path)
  exact unnamed key (names.congr (ulids.symm.trans (Ulid.toBytes_injective token)))

/-- The rows of different files name different blobs. -/
theorem ServerSound.row_ne_row (sound : ServerSound env horizon server) {id other : FileSystemId}
    {row row' : Bytes} (different : other ≠ id)
    (found : server.world.db.ver[rowKey id 1]? = some row)
    (found' : server.world.db.ver[rowKey other 1]? = some row') :
    inBlobs (row'.drop versionValueSize) ≠ inBlobs (row.drop versionValueSize) := by
  obtain ⟨call, names, _, path⟩ := sound.blobs.rows.path found
  obtain ⟨call', names', _, path'⟩ := sound.blobs.rows.path found'
  intro same
  rw [path, path'] at same
  have keys := sound.blobs.distinct (names'.congr (blobPath_injective same)) names
  exact different (rowKey_inj keys).1

/-- A ULID that is drawn now is not that of a token that is out. -/
theorem ServerSound.drawn_ne_token (sound : ServerSound env horizon server)
    (fresh : env.FreshBelow horizon) {call : ℕ} (new : server.world.calls ≤ call)
    (below : call < horizon) {ulid : Ulid} (issued : ulid.toBytes ∈ server.issued) :
    env.newUlid call ≠ ulid := by
  obtain ⟨earlier, token, older, _⟩ := sound.tokens _ issued
  intro same
  have calls := fresh below (older.trans_le (new.trans below.le))
    (same.trans (Ulid.toBytes_injective token))
  omega

/-- A ULID that is drawn now is not that of a row. -/
theorem ServerSound.drawn_ne_row (sound : ServerSound env horizon server)
    (fresh : env.FreshBelow horizon) {call : ℕ} (new : server.world.calls ≤ call)
    (below : call < horizon) {key row : Bytes} (found : server.world.db.ver[key]? = some row) :
    inBlobs (row.drop versionValueSize) ≠ blobPath (env.newUlid call) := by
  obtain ⟨earlier, _, older, path⟩ := sound.blobs.rows.path found
  intro same
  have calls := fresh below (older.trans_le (new.trans below.le))
    (blobPath_injective (same.symm.trans path))
  omega

section Kept

variable (fresh : env.FreshBelow horizon) (sound : ServerSound env horizon server)
  (permitted : Permitted env horizon server req)
include fresh sound permitted

/-- **A request leaves the blobs of the tokens alone that it does not present.** -/
theorem ServerSound.token_kept {ulid : Ulid} (issued : ulid.toBytes ∈ server.issued)
    (others : req.token ≠ ulid.toBytes) :
    (serve env server req).world.blobs[blobPath ulid]? = server.world.blobs[blobPath ulid]? := by
  obtain ⟨call, token, early, unnamed⟩ := sound.tokens _ issued
  have bounded := permitted.bounded
  refine serve_blob_kept fun touches => ?_
  rcases sound.blobs.rows.touches touches with
    ⟨presented, sent, path⟩ | ⟨drawn, late, below, path⟩ | ⟨key, drawn, names, before, path⟩
  · exact others (sent.trans (congrArg Ulid.toBytes (blobPath_injective path).symm))
  · have same := (Ulid.toBytes_injective token).symm.trans (blobPath_injective path)
    have calls := fresh (early.trans_le ((serve_calls_le server req).trans bounded))
      (below.trans_le bounded) same
    omega
  · have same := (Ulid.toBytes_injective token).symm.trans (blobPath_injective path)
    exact unnamed key (names.congr same.symm)

/-- A request that is neither an append nor a deletion leaves the blobs of the rows alone. -/
theorem ServerSound.row_kept (notAppend : ∀ arg, req ≠ .append arg)
    (notDelete : ∀ arg, req ≠ .delete arg) {key row : Bytes}
    (found : server.world.db.ver[key]? = some row) :
    (serve env server req).world.blobs[inBlobs (row.drop versionValueSize)]? =
      server.world.blobs[inBlobs (row.drop versionValueSize)]? := by
  refine sound.tokens.named_kept fresh sound.blobs.rows permitted.honest permitted.bounded ?_ found
  intro path touches
  cases touches with
  | presented arg ulid token => exact .inl ⟨ulid, token, rfl⟩
  | drawn _ call early late => exact .inr ⟨call, early, late, rfl⟩
  | appended arg => exact absurd rfl (notAppend arg)
  | deleted arg => exact absurd rfl (notDelete arg)

/-- **A request that fails and presents no token leaves the drive as it is.** -/
theorem ServerSound.drive_of_error {err : Status} (noToken : req.token = [])
    (failed : ((handle env req).run server.world).result = .error err) :
    (serve env server req).drive = server.drive := by
  have keeps := sound.tokens.error_keeps fresh sound.blobs.rows permitted.honest permitted.bounded
    failed
  have issued : (serve env server req).issued = server.issued := by
    rw [serve, Server.answered, failed]
    exact List.append_nil _
  have tokens := fun ulid out => sound.token_kept fresh permitted out
    (fun same => Ulid.toBytes_ne_nil ulid (same.symm.trans noToken))
  ext1
  · exact congrArg entriesOf (congrArg Db.fs keeps.1)
  · have files := filesOf_congr fun id row found => keeps.2 (rowKey id 1) row found
    rw [Server.drive, keeps.1]
    exact files
  · rw [Server.drive, issued]
    exact pendingOf_congr tokens
  · exact congrArg (Db.lastId · fsTableName) keeps.1

/-- What the drive refuses as well is refused with nothing done. -/
theorem ServerSound.onDrive_of_error {err : Status} (noToken : req.token = [])
    (failed : ((handle env req).run server.world).result = .error err)
    (decided : server.drive.decide env.toNormalization (env.newUlid server.world.calls) req =
      (.rest, .refused)) : OnDrive env server req where
  drive := by
    rw [decided]
    exact sound.drive_of_error fresh permitted noToken failed
  reply := by
    rw [decided, failed]
    rfl

end Kept

section Requests

variable (fresh : env.FreshBelow horizon) (legible : Legible env horizon server)
include fresh legible

/-! ## Making a folder -/

theorem makeDirectory_onDrive {arg : MakeDirectoryArg}
    (permitted : Permitted env horizon server (.makeDirectory arg)) :
    OnDrive env server (.makeDirectory arg) := by
  have cases := makeDirectory_cases env server.world arg
  generalize ran : (makeDirectory env arg).run server.world = outcome at cases
  have handled : (handle env (.makeDirectory arg)).run server.world =
      outcome.map fun _ => .madeDirectory := congrArg (Outcome.map _) ran
  cases cases with
  | refused err notCreated =>
      refine legible.onDrive_of_error fresh permitted rfl (congrArg Outcome.result handled) ?_
      rw [Drive.decide]
      rcases placed : arg.target.bind fun target =>
        server.drive.newPlace env.toNormalization target.path with _ | ⟨place, shown⟩
      · rfl
      · obtain ⟨target, targeted, found⟩ := Option.bind_eq_some_iff.mp placed
        obtain ⟨lastName, parentId, named, walked, free, _⟩ := legible.newPlace_iff.mp found
        exact absurd ⟨target, lastName, parentId, targeted, named, walked, free⟩ notCreated
  | created target lastName parentId later targeted named walked free result =>
      have placed := legible.newPlace_iff.mpr
        ⟨lastName, parentId, named, walked, free, rfl, rfl⟩
      have decided : server.drive.decide env.toNormalization (env.newUlid server.world.calls)
          (.makeDirectory arg) =
            (.makeFolder ⟨parentId, env.nfkd (trim lastName)⟩ (trim lastName), .done) := by
        rw [Drive.decide, targeted, Option.bind_some, placed]
      refine ⟨?_, ?_⟩
      · have inserted := entriesOf_insert server.world.db.fs
          ⟨parentId, env.nfkd (trim lastName)⟩ (newFolderRecord server.world.db) (trim lastName)
        have folder : nodeOf (newFolderRecord server.world.db) =
            .folder (parentIdOfRecord (server.drive.last + 1)) :=
          nodeOf_eq_folder_iff.mpr ⟨rfl, rfl⟩
        rw [folder] at inserted
        rw [decided, serve, handled, result]
        ext1
        · exact inserted
        · rfl
        · exact congrArg (pendingOf · server.world.blobs) (List.append_nil server.issued)
        · rfl
      · rw [decided, handled]
        rfl

end Requests

end Yeetbox.Storage
