import Yeetbox.Storage.Commits

/-!
# Which blobs a request can touch

Every request leaves alone all blobs but a few: the blob of the token that an upload presents, the
blobs of the ULIDs drawn while the request is handled, the blob that an append finds, and the blobs
of the versions that a deletion goes through (`Touches`). `handle_blob_kept` is the frame rule:
a blob that a request does not touch is as it was.
-/

set_option autoImplicit false

namespace Yeetbox.Storage

open Library

variable (env : Env)

/-- The blobs that a request can touch on the way to a later world. -/
inductive Touches (world later : World) : Request → Bytes → Prop where
  | presented (arg : UploadArg) (ulid : Ulid) (token : arg.continuation = ulid.toBytes) :
      Touches world later (.upload arg) (blobPath ulid)
  | drawn (req : Request) (call : ℕ) (early : world.calls ≤ call) (late : call < later.calls) :
      Touches world later req (blobPath (env.newUlid call))
  | appended (arg : AppendArg) (target : RequestedFileId) (key : Bytes) (record : FsRecordValue)
      (path : Bytes) (targeted : arg.target = some target)
      (resolved : keyOfPath env.toNormalization world.db.fs target.path = some key)
      (head : HeadRow world.db key record path) : Touches world later (.append arg) path
  | deleted (arg : DeleteArg) (target : RequestedFileId) (key : Bytes) (record : FsRecordValue)
      (version : FsVersion) (row : Bytes) (targeted : arg.target = some target)
      (file : FileAt env.toNormalization world.db.fs target.path key record)
      (found : world.db.ver[rowKey record.id version]? = some row) :
      Touches world later (.delete arg) (inBlobs (row.drop versionValueSize))

variable {env}
variable {world : World}

/-! ## The calls of a request -/

theorem SavedBlob.calls_lt {received moved : World} {arg : UploadArg} {ulid saved : Ulid}
    {stops : List World} (save : SavedBlob env received arg ulid saved moved stops) :
    received.calls < moved.calls := by
  cases save with
  | single fresh => simp
  | renamed content _ continued found result => simp [result]

theorem UploadCases.calls_le {arg : UploadArg} {outcome : Outcome World Status UploadResult}
    (cases : UploadCases env world arg outcome) : world.calls ≤ outcome.state.calls := by
  have receives : ∀ {ulid drawn}, UploadToken env world arg ulid drawn →
      world.calls ≤ (withReceived env drawn arg ulid).calls :=
    fun token => token.calls_le.trans (Nat.le_add_right _ 1)
  cases cases with
  | refused err notCheck => exact Nat.le_refl _
  | fragment ulid drawn token incomplete => exact receives token
  | final target lastName ulid drawn finished targeted named token complete finish =>
      have received := receives token
      cases finish with
      | rejected err count check => exact received.trans (Nat.le_add_right _ count)
      | broken err count notCheck reason => exact received.trans (Nat.le_add_right _ count)
      | committed parentId saved moved later stops walked free save result =>
          rw [Outcome.after_state, result, World.withDb_calls]
          exact received.trans (Nat.le_of_lt save.calls_lt)

theorem removesBlob_calls {ver : Table Bytes Bytes} {fileId : FileSystemId} {latest : ℕ}
    {before later : World}
    (steps : Relation.ReflTransGen (RemovesBlob ver fileId latest) before later) :
    later.calls = before.calls := by
  induction steps with
  | refl => rfl
  | tail _ step ih =>
      obtain ⟨_, _, _, _, _, rfl⟩ := step
      exact ih

theorem CopiedBlob.calls {start copied : World} {destUlid : Ulid} {stops : List World}
    (blob : CopiedBlob start destUlid copied stops) : copied.calls = start.calls := by
  cases blob with
  | nothing => rfl
  | copied content _ result => rw [result]; rfl

theorem MakeDirectoryCases.calls {arg : MakeDirectoryArg} {outcome : Outcome World Status Unit}
    (cases : MakeDirectoryCases env world arg outcome) : outcome.state.calls = world.calls := by
  cases cases with
  | refused => rfl
  | created _ _ _ later _ _ _ _ result => rw [result]; rfl

theorem AppendCases.calls_le {arg : AppendArg} {outcome : Outcome World Status Unit}
    (cases : AppendCases env world arg outcome) : world.calls ≤ outcome.state.calls := by
  cases cases with
  | refused => exact Nat.le_refl _
  | appended _ _ _ _ _ later _ _ _ _ result =>
      rw [World.advance_calls, result]
      exact Nat.le_add_right _ 2

theorem DownloadCases.calls_le {outcome : Outcome World Status DownloadResult}
    (cases : DownloadCases world outcome) : world.calls ≤ outcome.state.calls := by
  cases cases with
  | refused => exact Nat.le_refl _
  | served => exact Nat.le_add_right _ 1

theorem DeleteCases.calls {arg : DeleteArg} {outcome : Outcome World Status DeleteResult}
    (cases : DeleteCases env world arg outcome) : outcome.state.calls = world.calls := by
  cases cases with
  | refused => rfl
  | removed _ _ _ _ later _ _ _ _ _ result => rw [result]; rfl
  | blobs _ _ _ _ _ _ _ _ _ _ _ follows => exact removesBlob_calls follows.state

theorem MoveCases.calls {arg : MoveArg} {outcome : Outcome World Status Unit}
    (cases : MoveCases env world arg outcome) : outcome.state.calls = world.calls := by
  cases cases with
  | refused => rfl
  | moved _ _ _ _ _ _ later _ _ _ _ _ _ _ result => rw [result]; rfl

theorem CopyCases.calls_le {arg : CopyArg} {outcome : Outcome World Status Unit}
    (cases : CopyCases env world arg outcome) :
    world.calls ≤ outcome.state.calls := by
  cases cases with
  | refused => exact Nat.le_refl _
  | stopped err copied stops count blob =>
      rw [World.advance_calls, blob.calls, World.advance_calls]
      omega
  | created destParentId destFileName copied later stops named walked free blob result =>
      rw [result, World.withDb_calls, World.advance_calls, blob.calls, World.advance_calls]
      omega

/-- **The count of calls is never lowered.** -/
theorem handle_calls_le (req : Request) :
    world.calls ≤ ((handle env req).run world).state.calls := by
  cases req with
  | makeDirectory arg => exact (makeDirectory_cases env world arg).calls.ge
  | upload arg => exact (upload_cases env world arg).calls_le
  | append arg => exact (append_cases env world arg).calls_le
  | download arg => exact (download_cases env world arg).calls_le
  | delete arg => exact (delete_cases env world arg).calls.ge
  | list arg => exact (congrArg World.calls (list_unchanged env world arg).1).ge
  | move arg => exact (move_cases env world arg).calls.ge
  | copy arg => exact (copy_cases env world arg).calls_le

/-! ## The frame of each request -/

theorem MakeDirectoryCases.blobs {arg : MakeDirectoryArg} {outcome : Outcome World Status Unit}
    (cases : MakeDirectoryCases env world arg outcome) : outcome.state.blobs = world.blobs := by
  cases cases with
  | refused => rfl
  | created _ _ _ later _ _ _ _ result => rw [result]; rfl

theorem DownloadCases.blobs {outcome : Outcome World Status DownloadResult}
    (cases : DownloadCases world outcome) : outcome.state.blobs = world.blobs := by
  cases cases with
  | refused => rfl
  | served => rfl

theorem MoveCases.blobs {arg : MoveArg} {outcome : Outcome World Status Unit}
    (cases : MoveCases env world arg outcome) : outcome.state.blobs = world.blobs := by
  cases cases with
  | refused => rfl
  | moved _ _ _ _ _ _ later _ _ _ _ _ _ _ result => rw [result]; rfl

/-- Receiving data touches only the blob of the token. -/
theorem UploadToken.received_blob {drawn : World} {arg : UploadArg} {ulid : Ulid}
    (token : UploadToken env world arg ulid drawn) {path : Bytes} (other : path ≠ blobPath ulid) :
    (withReceived env drawn arg ulid).blobs[path]? = world.blobs[path]? := by
  rw [withReceived, World.withBlobs_blobs, get_extendIn, if_neg other]
  cases token with
  | fresh new => rfl
  | continued ulid presented => rfl

/-- Finishing an upload touches only the blob of the token and the one that it is renamed to. -/
theorem SavedBlob.saved_blob {received moved : World} {arg : UploadArg} {ulid saved : Ulid}
    {stops : List World} (save : SavedBlob env received arg ulid saved moved stops) {path : Bytes}
    (notToken : path ≠ blobPath ulid) (notSaved : path ≠ blobPath saved) :
    moved.blobs[path]? = received.blobs[path]? := by
  cases save with
  | single fresh => rfl
  | renamed content _ continued found result =>
      rw [result, World.withBlobs_blobs, Table.get_insert_ne _ _ notSaved,
        Table.get_erase_ne _ notToken]

theorem UploadCases.blob_kept {arg : UploadArg} {outcome : Outcome World Status UploadResult}
    (cases : UploadCases env world arg outcome) {path : Bytes}
    (untouched : ¬ Touches env world outcome.state (.upload arg) path) :
    outcome.state.blobs[path]? = world.blobs[path]? := by
  have notToken : ∀ {ulid drawn}, UploadToken env world arg ulid drawn →
      (withReceived env drawn arg ulid).calls ≤ outcome.state.calls → path ≠ blobPath ulid := by
    rintro ulid drawn token later rfl
    cases token with
    | fresh new =>
        have late : world.calls < outcome.state.calls := by
          refine lt_of_lt_of_le ?_ later
          rw [withReceived, World.withBlobs_calls, World.advance_calls, World.advance_calls]
          omega
        exact untouched (.drawn _ world.calls (Nat.le_refl _) late)
    | continued _ presented => exact untouched (.presented arg ulid presented)
  cases cases with
  | refused err notCheck => rfl
  | fragment ulid drawn token incomplete =>
      exact token.received_blob (notToken token (Nat.le_refl _))
  | final target lastName ulid drawn finished targeted named token complete finish =>
      cases finish with
      | rejected err count check =>
          exact token.received_blob (notToken token (Nat.le_add_right _ count))
      | broken err count notCheck reason =>
          exact token.received_blob (notToken token (Nat.le_add_right _ count))
      | committed parentId saved moved later stops walked free save result =>
          have ends : later.calls = moved.calls := by rw [result, World.withDb_calls]
          have other := notToken token (by
            rw [Outcome.after_state, ends]
            exact Nat.le_of_lt save.calls_lt)
          have notSaved : path ≠ blobPath saved := by
            rintro rfl
            obtain ⟨call, rfl, early, late⟩ := save.drawn token
            exact untouched (.drawn _ call early (by rw [Outcome.after_state, ends]; exact late))
          rw [Outcome.after_state, result, World.withDb_blobs, save.saved_blob other notSaved]
          exact token.received_blob other

theorem AppendCases.blob_kept {arg : AppendArg} {outcome : Outcome World Status Unit}
    (cases : AppendCases env world arg outcome) {path : Bytes}
    (untouched : ¬ Touches env world outcome.state (.append arg) path) :
    outcome.state.blobs[path]? = world.blobs[path]? := by
  cases cases with
  | refused err => rfl
  | appended target fileKey record longer content later targeted resolved head there result =>
      have other : path ≠ longer := by
        rintro rfl
        exact untouched (.appended arg target fileKey record path targeted resolved head)
      rw [World.advance_blobs, result, withAppended, World.withBlobs_blobs, get_extendIn,
        if_neg other]

theorem DeleteCases.blob_kept {arg : DeleteArg} {outcome : Outcome World Status DeleteResult}
    (cases : DeleteCases env world arg outcome) {path : Bytes}
    (untouched : ¬ Touches env world outcome.state (.delete arg) path) :
    outcome.state.blobs[path]? = world.blobs[path]? := by
  cases cases with
  | refused err => rfl
  | removed target fileKey value record later targeted resolved found decoded other result =>
      rw [result]
      rfl
  | blobs target fileKey value record outcome targeted resolved found decoded current versioned
      follows =>
      have kept : ∀ {before after : World},
          RemovesBlob world.db.ver record.id record.latestVersion.toNat before after →
            before.blobs[path]? = world.blobs[path]? → after.blobs[path]? = world.blobs[path]? := by
        rintro before after ⟨version, row, _, there, _, rfl⟩ same
        have other : path ≠ inBlobs (row.drop versionValueSize) := by
          rintro rfl
          exact untouched (.deleted arg target fileKey record version row targeted
            ⟨resolved, ⟨value, found, decoded⟩, versioned⟩ there)
        rw [World.withBlobs_blobs, Table.get_erase_ne _ other, same]
      have start : (fun reached : World => reached.blobs[path]? = world.blobs[path]?) world := rfl
      exact (follows.invariant start kept).state

theorem CopyCases.blob_kept {arg : CopyArg} {outcome : Outcome World Status Unit}
    (cases : CopyCases env world arg outcome) {path : Bytes}
    (untouched : ¬ Touches env world outcome.state (.copy arg) path) :
    outcome.state.blobs[path]? = world.blobs[path]? := by
  have copies : ∀ {copied : World} {stops : List World},
      CopiedBlob (world.advance 1) (env.newUlid world.calls) copied stops →
        path ≠ blobPath (env.newUlid world.calls) → copied.blobs[path]? = world.blobs[path]? := by
    intro copied stops blob other
    cases blob with
    | nothing => rfl
    | copied content _ result =>
        rw [result, World.withBlobs_blobs, Table.get_insert_ne _ _ other]
        rfl
  have drawn : world.calls < outcome.state.calls → path ≠ blobPath (env.newUlid world.calls) := by
    rintro later rfl
    exact untouched (.drawn _ world.calls (Nat.le_refl _) later)
  cases cases with
  | refused err => rfl
  | stopped err copied stops count blob =>
      have same := copies blob (drawn ?_)
      · exact same
      · rw [World.advance_calls, blob.calls, World.advance_calls]
        omega
  | created destParentId destFileName copied later stops named walked free blob result =>
      have same := copies blob (drawn ?_)
      · rw [result]
        exact same
      · rw [result, World.withDb_calls, World.advance_calls, blob.calls, World.advance_calls]
        omega

/-- **A blob that a request does not touch is as it was.** -/
theorem handle_blob_kept (req : Request) {path : Bytes}
    (untouched : ¬ Touches env world ((handle env req).run world).state req path) :
    ((handle env req).run world).state.blobs[path]? = world.blobs[path]? := by
  have same : ∀ {blobs : Table Bytes Bytes}, blobs = world.blobs →
      blobs[path]? = world.blobs[path]? := by
    rintro _ rfl
    rfl
  cases req with
  | makeDirectory arg => exact same (makeDirectory_cases env world arg).blobs
  | upload arg => exact (upload_cases env world arg).blob_kept untouched
  | append arg => exact (append_cases env world arg).blob_kept untouched
  | download arg => exact same (download_cases env world arg).blobs
  | delete arg => exact (delete_cases env world arg).blob_kept untouched
  | list arg => exact same (congrArg World.blobs (list_unchanged env world arg).1)
  | move arg => exact same (move_cases env world arg).blobs
  | copy arg => exact (copy_cases env world arg).blob_kept untouched

/-! ## Steps of the server -/

theorem serve_calls_le (server : Server) (req : Request) :
    server.world.calls ≤ (serve env server req).world.calls :=
  handle_calls_le req

/-- Along a run the calls stay below their count at the end. -/
theorem calls_bounded (env : Env) (server : Server) (requests : List Request) :
    Guarded (serve env) (fun before req => (serve env before req).world.calls ≤
      (runAll (serve env) server requests).world.calls) server requests :=
  guarded_le serve_calls_le server requests

theorem serve_blob_kept {server : Server} {req : Request} {path : Bytes}
    (untouched : ¬ Touches env server.world (serve env server req).world req path) :
    (serve env server req).world.blobs[path]? = server.world.blobs[path]? :=
  handle_blob_kept req untouched

end Yeetbox.Storage
