import Yeetbox.Storage.Tokens

/-!
# Requests that fail

A request that ends with an error should leave everything committed as it was: the tables, and the
blob of every version row. The requests that change the tables do so in a transaction that an error
drops, but changes of blobs take effect at once. A deletion that fails has removed no blob, because
its file has a single row (`delete_quiet`). An upload or a copy that fails may have written to a
blob, but only to that of a token or of a new ULID, which no row names. Together, no failed request
of an honest run changes anything committed (`failed_request_keeps_committed`).
-/

set_option autoImplicit false

namespace Yeetbox.Storage

open Library Handler

/-- The tables and the blobs of all version rows are as before. -/
structure KeepsCommitted (before later : World) : Prop where
  db : later.db = before.db
  blobs : ∀ key row : Bytes, before.db.ver[key]? = some row →
    later.blobs[inBlobs (row.drop versionValueSize)]? =
      before.blobs[inBlobs (row.drop versionValueSize)]?

theorem KeepsCommitted.refl (world : World) : KeepsCommitted world world := ⟨rfl, fun _ _ _ => rfl⟩

/-- An error leaves the world as it was. -/
def FailsQuietly {Value : Type} (world : World) (outcome : Outcome World Status Value) : Prop :=
  ∀ err, outcome.result = .error err → outcome.state = world

variable {env : Env} {world : World}

theorem FailsQuietly.refused {Value : Type} (err : Status) :
    FailsQuietly world (⟨.error err, world, []⟩ : Outcome World Status Value) :=
  fun _ _ => rfl

theorem FailsQuietly.map {Value Next : Type} {outcome : Outcome World Status Value}
    (quiet : FailsQuietly world outcome) (form : Value → Next) :
    FailsQuietly world (outcome.map form) := by
  intro err failed
  rcases outcome with ⟨inner | value, state, stops⟩
  · exact quiet inner rfl
  · cases failed

/-- An outcome that fails quietly keeps what is committed. -/
theorem FailsQuietly.keeps {Value : Type} {outcome : Outcome World Status Value}
    (quiet : FailsQuietly world outcome) {err : Status} (failed : outcome.result = .error err) :
    KeepsCommitted world outcome.state := by
  rw [quiet err failed]
  exact .refl world

theorem FailsQuietly.ok {Value : Type} {value : Value} {later : World} {stops : List World} :
    FailsQuietly world (⟨.ok value, later, stops⟩ : Outcome World Status Value) := by
  intro err failed
  cases failed

/-! ## Requests that refuse before they change anything -/

theorem MakeDirectoryCases.quiet {arg : MakeDirectoryArg} {outcome : Outcome World Status Unit}
    (cases : MakeDirectoryCases env world arg outcome) : FailsQuietly world outcome := by
  cases cases with
  | refused err notCreated => exact .refused err
  | created => exact .ok

theorem AppendCases.quiet {arg : AppendArg} {outcome : Outcome World Status Unit}
    (cases : AppendCases env world arg outcome) : FailsQuietly world outcome := by
  cases cases with
  | refused err => exact .refused err
  | appended => exact .ok

theorem DownloadCases.quiet {outcome : Outcome World Status DownloadResult}
    (cases : DownloadCases world outcome) : FailsQuietly world outcome := by
  cases cases with
  | refused err => exact .refused err
  | served => exact .ok

theorem MoveCases.quiet {arg : MoveArg} {outcome : Outcome World Status Unit}
    (cases : MoveCases env world arg outcome) : FailsQuietly world outcome := by
  cases cases with
  | refused err => exact .refused err
  | moved => exact .ok

/-! ## A deletion that fails -/

/-- The only row that a file can have is that of its first version. -/
def FirstOnly (ver : Table Bytes Bytes) (fileId : FileSystemId) : Prop :=
  ∀ (version : FsVersion) (row : Bytes), ver[rowKey fileId version]? = some row → version = 1

theorem RowsDrawn.firstOnly (rows : RowsDrawn env world) (fileId : FileSystemId) :
    FirstOnly world.db.ver fileId := by
  intro version row found
  obtain ⟨id, _, _, same, _⟩ := rows _ row found
  exact (rowKey_inj same).2

theorem FirstOnly.erase {ver : Table Bytes Bytes} {fileId : FileSystemId}
    (first : FirstOnly ver fileId) (key : Bytes) : FirstOnly (ver.erase key) fileId := by
  intro version row found
  rw [Table.get_erase] at found
  split at found
  · cases found
  · exact first version row found

theorem FirstOnly.deleteVersion {ver : Table Bytes Bytes} {fileId : FileSystemId}
    (first : FirstOnly ver fileId) {version : FsVersion} (other : version ≠ 1) :
    deleteVersion fileId version ver = pure ver := by
  rw [Storage.deleteVersion]
  rcases found : ver[rowKey fileId version]? with _ | row
  · rfl
  · exact absurd (first version row found) other

/-- A round of the loop over the versions fails with nothing done, or leaves the other rows. -/
theorem deleteVersion_run (fileId : FileSystemId) (version : FsVersion) (ver : Table Bytes Bytes)
    (world : World) :
    (∃ err, (deleteVersion fileId version ver).run world = ⟨.error err, world, []⟩) ∨
      ∃ rest reached stops,
        (deleteVersion fileId version ver).run world = ⟨.ok rest, reached, stops⟩ ∧
          (rest = ver ∨ rest = ver.erase (rowKey fileId version)) := by
  rw [deleteVersion]
  rcases ver[rowKey fileId version]? with _ | row
  · exact .inr ⟨ver, world, [], rfl, .inl rfl⟩
  dsimp only
  split
  · rcases run_fromUtf8Unchecked_bind (row.drop versionValueSize) _ world with bad | text
    · rw [bad]
      exact .inl ⟨_, rfl⟩
    rw [text]
    rcases there : world.blobs[inBlobs (row.drop versionValueSize)]? with _ | content
    · rw [run_removeFile_bind_missing there]
      exact .inl ⟨_, rfl⟩
    · rw [run_removeFile_bind_found there _ rfl]
      exact .inr ⟨_, _, _, rfl, .inr rfl⟩
  · exact .inr ⟨_, world, [], rfl, .inr rfl⟩

/-- **A loop over the versions fails quietly when the file has at most its first one.** -/
theorem FirstOnly.deleteVersions {fileId : FileSystemId} {count : ℕ} {ver : Table Bytes Bytes}
    (first : FirstOnly ver fileId) (fits : count < 2 ^ 64) :
    FailsQuietly world ((deleteVersions fileId count ver).run world) := by
  induction count generalizing ver with
  | zero =>
      rw [Storage.deleteVersions, first.deleteVersion (by decide)]
      exact .ok
  | succ earlier ih =>
      rw [Storage.deleteVersions]
      by_cases here : UInt64.ofNat (earlier + 1) = 1
      · -- Below the first version there is only version 0, which has no row.
        have last : earlier = 0 := by
          have number := congrArg UInt64.toNat here
          rw [UInt64.toNat_ofNat_of_lt' fits, UInt64.toNat_one] at number
          omega
        subst last
        rw [here, run_bind]
        rcases deleteVersion_run fileId 1 ver world with
          ⟨err, ran⟩ | ⟨rest, reached, stops, ran, kept⟩
        · rw [ran, resume_error]
          exact .refused err
        · have restFirst : FirstOnly rest fileId := by
            rcases kept with rfl | rfl
            · exact first
            · exact first.erase _
          rw [ran, resume_ok, Storage.deleteVersions, restFirst.deleteVersion (by decide)]
          exact .ok
      · rw [first.deleteVersion here, run_pure_bind]
        exact ih first (by omega)

/-- **A deletion fails quietly.** -/
theorem delete_quiet (rows : RowsDrawn env world) (req : DeleteArg) :
    FailsQuietly world ((delete env req).run world) := by
  rw [delete]
  rcases req.target with _ | target
  · exact .refused _
  rw [run_orFail_some_bind]
  rcases target.path.getLast? with _ | fileName
  · exact .refused _
  rw [run_orFail_some_bind, run_get_bind]
  rcases descendPath env.toNormalization world.db.fs target.path.dropLast with err | parentId
  · exact .refused _
  rw [run_ofExcept_ok_bind]
  dsimp only [deleteKey]
  rcases world.db.fs[makeKey env.toNormalization parentId fileName]? with _ | value
  · exact .refused _
  rw [run_orFail_some_bind]
  rcases fsRecordFromBytes value with _ | record
  · exact .refused _
  rw [run_orFail_some_bind]
  rcases target.versionIsNot record.latestVersion with _ | _
  swap
  · exact .refused _
  rw [run_rejectIf_false_bind]
  rcases record.type != objTypeVersionBlob with _ | _
  · rw [if_neg Bool.false_ne_true, run_bind]
    have loop : FailsQuietly world ((deleteVersions record.id record.latestVersion.toNat
        world.db.ver).run world) :=
      (rows.firstOnly record.id).deleteVersions record.latestVersion.toNat_lt
    rcases ran : (deleteVersions record.id record.latestVersion.toNat world.db.ver).run world with
      ⟨err | rest, reached, stops⟩
    · rw [ran] at loop
      intro _ _
      exact loop err rfl
    · exact .ok
  · exact .ok

/-! ## Uploads and copies that fail -/

theorem CopyCases.error_db {arg : CopyArg} {outcome : Outcome World Status Unit}
    (cases : CopyCases env world arg outcome) {err : Status}
    (failed : outcome.result = .error err) : outcome.state.db = world.db := by
  cases cases with
  | refused err => rfl
  | stopped err copied stops count blob => exact blob.db
  | created => cases failed

variable {server : Server} {req : Request}

/-- The blobs that an upload touches are those of its token and of ULIDs that it draws. -/
theorem touches_upload {later : World} {arg : UploadArg} {path : Bytes}
    (touches : Touches env world later (.upload arg) path) :
    (∃ ulid, (Request.upload arg).token = Ulid.toBytes ulid ∧ path = blobPath ulid) ∨
      ∃ call, world.calls ≤ call ∧ call < later.calls ∧ path = blobPath (env.newUlid call) := by
  cases touches with
  | presented _ ulid token => exact .inl ⟨ulid, token, rfl⟩
  | drawn _ call early late => exact .inr ⟨call, early, late, rfl⟩

theorem touches_copy {later : World} {arg : CopyArg} {path : Bytes}
    (touches : Touches env world later (.copy arg) path) :
    (∃ ulid, (Request.copy arg).token = Ulid.toBytes ulid ∧ path = blobPath ulid) ∨
      ∃ call, world.calls ≤ call ∧ call < later.calls ∧ path = blobPath (env.newUlid call) := by
  cases touches with
  | drawn _ call early late => exact .inr ⟨call, early, late, rfl⟩

/-- **An honest request that fails keeps what is committed.** -/
theorem TokensDrawn.error_keeps {horizon : ℕ} (fresh : env.FreshBelow horizon)
    (rows : RowsDrawn env server.world) (tokens : TokensDrawn env server)
    (honest : Honest server req) (bounded : (serve env server req).world.calls ≤ horizon)
    {err : Status} (failed : ((handle env req).run server.world).result = .error err) :
    KeepsCommitted server.world (serve env server req).world := by
  have error : ∀ {Value : Type} {answer : Except Status Value} {form : Value → Response},
      answer.map form = .error err → answer = .error err := by
    intro Value answer form failed
    cases answer with
    | error inner => exact congrArg Except.error (Except.error.inj failed)
    | ok value => cases failed
  cases req with
  | makeDirectory arg => exact ((makeDirectory_cases env server.world arg).quiet.map _).keeps failed
  | upload arg =>
      refine ⟨(upload_cases env server.world arg).error_db (error failed), fun key row found => ?_⟩
      exact tokens.named_kept fresh rows honest bounded (fun _ => touches_upload) found
  | append arg => exact ((append_cases env server.world arg).quiet.map _).keeps failed
  | download arg => exact ((download_cases env server.world arg).quiet.map _).keeps failed
  | delete arg => exact ((delete_quiet rows arg).map _).keeps failed
  | list arg =>
      have unchanged : (serve env server (.list arg)).world = server.world :=
        (list_unchanged env server.world arg).1
      rw [unchanged]
      exact .refl _
  | move arg => exact ((move_cases env server.world arg).quiet.map _).keeps failed
  | copy arg =>
      refine ⟨(copy_cases env server.world arg).error_db (error failed), fun key row found => ?_⟩
      exact tokens.named_kept fresh rows honest bounded (fun _ => touches_copy) found

/-- **A failed request changes nothing that is committed.** -/
theorem failed_request_keeps_committed (env : Env) (requests : List Request) (req : Request)
    (err : Status)
    (fresh : env.FreshBelow (serve env (serverAfter env requests) req).world.calls)
    (honest : Guarded (serve env) Honest .empty (requests ++ [req]))
    (failed : ((handle env req).run (serverAfter env requests).world).result = .error err) :
    KeepsCommitted (serverAfter env requests).world
      (serve env (serverAfter env requests) req).world := by
  obtain ⟨before, ⟨last, _⟩⟩ := guarded_append_iff.mp honest
  have tokens := serverAfter_tokensDrawn fresh before (serve_calls_le _ req)
  exact tokens.error_keeps fresh (serverAfter_rowsDrawn env requests) last (Nat.le_refl _) failed

/-- After an upload of a file, a copy of it onto its own name fails. -/
theorem copyOntoItself_keeps_committed :
    KeepsCommitted (serverAfter (.numbered .unchanged) [.upload uploadOneFile]).world
      (serve (.numbered .unchanged)
        (serverAfter (.numbered .unchanged) [.upload uploadOneFile])
        (.copy { target := some ⟨[['a']], none⟩, destination := [['a']] })).world :=
  failed_request_keeps_committed (.numbered .unchanged) [.upload uploadOneFile]
    (.copy { target := some ⟨[['a']], none⟩, destination := [['a']] })
    (.invalidArgument "destination file already exists")
    (Env.numbered_freshBelow _ (by decide)) (by decide) rfl

end Yeetbox.Storage
