import Yeetbox.Storage.Tokens

/-!
# Tokens that are used again

A client may present a token that the server has issued as often as it likes, also after the upload
that the token was issued for is complete. Such an upload writes to the blob of the token, and may
rename it to a new ULID. The blob of a finished file has been renamed to a ULID of its own before
its row was committed, or was never handed out as a token, so no row names what the upload writes
to: the files that are committed keep their blobs, wherever the server stops
(`used_token_alters_no_file`).
-/

set_option autoImplicit false

namespace Yeetbox.Storage

open Library

/-- A file of the blob directory is as before: absent still, or with the same bytes. -/
def KeepsBlob (before : World) (path : Bytes) (later : World) : Prop :=
  later.blobs[path]? = before.blobs[path]?

theorem KeepsBlob.refl (world : World) (path : Bytes) : KeepsBlob world path world := rfl

theorem KeepsBlob.advance {before later : World} {path : Bytes}
    (keeps : KeepsBlob before path later) (count : ℕ) :
    KeepsBlob before path (later.advance count) :=
  keeps

variable {env : Env} {world : World}

/-- **A blob other than those of its token and its new ULIDs is as before throughout an upload.** -/
theorem UploadCases.blob_throughout {arg : UploadArg} {outcome : Outcome World Status UploadResult}
    (cases : UploadCases env world arg outcome) {path : Bytes}
    (notToken : ∀ ulid : Ulid, arg.continuation = ulid.toBytes → path ≠ blobPath ulid)
    (notDrawn : ∀ call, world.calls ≤ call → call < outcome.state.calls →
      path ≠ blobPath (env.newUlid call)) :
    outcome.Throughout (KeepsBlob world path) := by
  have received : ∀ {ulid drawn}, UploadToken env world arg ulid drawn →
      (withReceived env drawn arg ulid).calls ≤ outcome.state.calls →
      path ≠ blobPath ulid ∧ KeepsBlob world path (withReceived env drawn arg ulid) ∧
        ∀ stop ∈ [withOpened drawn ulid, withReceived env drawn arg ulid],
          KeepsBlob world path stop := by
    intro ulid drawn token ends
    have other : path ≠ blobPath ulid := by
      cases token with
      | fresh new =>
          refine notDrawn world.calls (Nat.le_refl _) (lt_of_lt_of_le ?_ ends)
          rw [withReceived, World.withBlobs_calls, World.advance_calls, World.advance_calls]
          omega
      | continued _ presented => exact notToken ulid presented
    have opened : KeepsBlob world path (withOpened drawn ulid) := by
      rw [KeepsBlob, withOpened, World.withBlobs_blobs, get_createIn, if_neg other, token.blobs]
    have kept : KeepsBlob world path (withReceived env drawn arg ulid) :=
      token.received_blob other
    refine ⟨other, kept, fun stop member => ?_⟩
    rcases List.mem_pair.mp member with rfl | rfl
    · exact opened
    · exact kept
  cases cases with
  | refused err notCheck => exact .still (.refl world path) _
  | fragment ulid drawn token incomplete =>
      obtain ⟨_, kept, stops⟩ := received token (Nat.le_refl _)
      exact ⟨stops, kept⟩
  | final target lastName ulid drawn finished targeted named token complete finish =>
      cases finish with
      | rejected err count check =>
          obtain ⟨_, kept, stops⟩ := received token (Nat.le_add_right _ count)
          exact .after (.still (kept.advance count) _) stops
      | broken err count notCheck reason =>
          obtain ⟨_, kept, stops⟩ := received token (Nat.le_add_right _ count)
          exact .after (.still (kept.advance count) _) stops
      | committed parentId saved moved later stops walked free save result =>
          have ends : later.calls = moved.calls := by rw [result, World.withDb_calls]
          obtain ⟨other, kept, earlier⟩ := received token (by
            rw [Outcome.after_state, ends]
            exact Nat.le_of_lt save.calls_lt)
          have notSaved : path ≠ blobPath saved := by
            obtain ⟨call, rfl, early, late⟩ := save.drawn token
            exact notDrawn call early (by rw [Outcome.after_state, ends]; exact late)
          have renamed : KeepsBlob world path moved :=
            (save.saved_blob other notSaved).trans kept
          have committed : KeepsBlob world path later := by
            rw [result]
            exact renamed
          refine .after ⟨?_, committed⟩ earlier
          intro stop member
          rcases List.mem_append.mp member with before | last
          · cases save with
            | single fresh => cases before
            | renamed content _ continued found moves =>
                rw [List.mem_singleton.mp before]
                exact renamed
          · rw [List.mem_singleton.mp last]
            exact committed

/-- **An upload that presents an issued token alters no blob that a row names**, wherever the server
stops, and whether the upload that the token was issued for is finished or not. -/
theorem used_token_alters_no_file (env : Env) (requests : List Request) (arg : UploadArg)
    (fresh : env.FreshBelow (serve env (serverAfter env requests) (.upload arg)).world.calls)
    (honest : Guarded (serve env) Honest .empty requests)
    (issued : arg.continuation ∈ (serverAfter env requests).issued) (key row : Bytes)
    (found : (serverAfter env requests).world.db.ver[key]? = some row) :
    ((upload env arg).run (serverAfter env requests).world).Throughout
      (KeepsBlob (serverAfter env requests).world (inBlobs (row.drop versionValueSize))) := by
  have rises : (serverAfter env requests).world.calls ≤
      (serve env (serverAfter env requests) (.upload arg)).world.calls := serve_calls_le _ _
  have rows := serverAfter_rowsDrawn env requests
  have tokens := serverAfter_tokensDrawn fresh honest rises
  obtain ⟨call, names, early, path⟩ := rows.path found
  rw [path]
  refine (upload_cases env _ arg).blob_throughout ?_ ?_
  · intro ulid presented same
    have honestly : Honest (serverAfter env requests) (.upload arg) := .inr issued
    exact tokens.presented_ne honestly presented names (blobPath_injective same)
  · intro drawn later below same
    have calls := fresh (early.trans_le rises) below (blobPath_injective same)
    omega

/-! ## A token that is used again -/

/-- A file in two fragments, and an upload of another client. -/
def finishedSession : List Request :=
  [.upload { target := some ⟨[['c']]⟩, data := { bytes := [11] }, incomplete := true },
    .upload { target := some ⟨[['c']]⟩, data := { bytes := [12] }, continuation := Ulid.toBytes 0 },
    .upload { target := some ⟨[['e']]⟩, data := { bytes := [13] } }]

/-- One more fragment that presents the token of the finished session. -/
def lateFragment : UploadArg where
  target := some ⟨[['f']]⟩
  data := { bytes := [14] }
  continuation := Ulid.toBytes 0

/-- The row of the finished file: its blob was renamed to the eighth ULID. -/
def finishedRow : Bytes :=
  (newFileVersion (.numbered .unchanged) lateFragment 3).bytesOf ++ blobPath 7

theorem lateFragment_alters_no_file :
    ((upload (.numbered .unchanged) lateFragment).run
      (serverAfter (.numbered .unchanged) finishedSession).world).Throughout
        (KeepsBlob (serverAfter (.numbered .unchanged) finishedSession).world
          (inBlobs (finishedRow.drop versionValueSize))) :=
  used_token_alters_no_file (.numbered .unchanged) finishedSession lateFragment
    (Env.numbered_freshBelow _ (by decide +kernel)) (by decide +kernel) (by decide +kernel)
    (rowKey 1 1) finishedRow (by decide +kernel)

end Yeetbox.Storage
