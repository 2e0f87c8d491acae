import Yeetbox.Storage.Entries
import Yeetbox.Storage.Pending

/-!
# Rejected uploads

`upload` adds the data to the blob of its ULID before it checks the path. A rejected upload leaves
the tables alone, but the blob directory only when there was nothing to add and the blob was there
already (`leavesStore_iff`). A client that corrects the cause and sends the final fragment again
gets a file in which the fragment occurs twice (`resent_fragment_twice`).
-/

set_option autoImplicit false

namespace Yeetbox.Storage

open Library

variable (env : Env)

/-- The requests between a rejected upload and its repetition present other tokens or none. -/
def OtherToken (token : Bytes) (_server : Server) (req : Request) : Prop := req.token ≠ token

/-- What a rejected upload should leave: the tables and the blobs as they were. A repetition of a
final fragment for which some content is pending then commits a file with that content and the data
of the fragment once. -/
structure LeavesStore (server : Server) (arg : UploadArg) : Prop where
  tables : (serve env server (.upload arg)).world.db = server.world.db
  blobs : (serve env server (.upload arg)).world.blobs = server.world.blobs
  retry : ∀ (call : ℕ) (content : Bytes) (between : List Request) (again : UploadArg)
    (result : UploadResult), Pending env server.world call content →
    arg.continuation = (env.newUlid call).toBytes →
    Guarded (serve env) (OtherToken arg.continuation) (serve env server (.upload arg)) between →
    again.continuation = arg.continuation → again.data = arg.data → again.incomplete = false →
    env.FreshBelow (runAll (serve env) server
      (.upload arg :: (between ++ [.upload again]))).world.calls →
    ((upload env again).run
      (runAll (serve env) server (.upload arg :: between)).world).result = .ok result →
    CommitsFile (runAll (serve env) server (.upload arg :: between)).world
      (runAll (serve env) server (.upload arg :: (between ++ [.upload again]))).world
      (content ++ arg.data.bytes)

/-- The blob of the upload's ULID is there before the upload. -/
def BlobThere (world : World) (arg : UploadArg) : Prop :=
  ∃ ulid drawn content, UploadToken env world arg ulid drawn ∧
    world.blobs[blobPath ulid]? = some content

variable {env}

/-- What a rejected upload leaves behind is the world after it received the data. -/
theorem rejectedUpload_world {server : Server} {arg : UploadArg} {err : Status}
    (rejected : ((upload env arg).run server.world).result = .error err)
    (check : err ∈ uploadChecks) : ∃ ulid drawn count, UploadToken env server.world arg ulid drawn ∧
      arg.incomplete = false ∧
      (serve env server (.upload arg)).world = (withReceived env drawn arg ulid).advance count := by
  rw [serve_upload_world]
  have outcome := upload_cases env server.world arg
  generalize (upload env arg).run server.world = done at outcome rejected
  cases outcome with
  | refused _ notCheck => exact absurd (Except.error.inj rejected ▸ check) notCheck
  | fragment => cases rejected
  | final target lastName ulid drawn finished targeted named token complete finish =>
      cases finish with
      | rejected _ count _ => exact ⟨ulid, drawn, count, token, complete, rfl⟩
      | broken _ _ notCheck _ => exact absurd (Except.error.inj rejected ▸ check) notCheck
      | committed => cases rejected

/-- A pending blob that other tokens leave alone is still pending after a run. -/
theorem Pending.kept_run {horizon call : ℕ} (fresh : env.FreshBelow horizon) {content : Bytes}
    {server : Server} {between : List Request}
    (guarded : Guarded (serve env) (fun server req =>
      OtherToken (env.newUlid call).toBytes server req ∧
        (serve env server req).world.calls ≤ horizon) server between)
    (rows : RowsDrawn env server.world) (pending : Pending env server.world call content) :
    Pending env (runAll (serve env) server between).world call content := by
  have kept : ∀ server req,
      (OtherToken (env.newUlid call).toBytes server req ∧
        (serve env server req).world.calls ≤ horizon) →
      (RowsDrawn env server.world ∧ Pending env server.world call content) →
      RowsDrawn env (serve env server req).world ∧
        Pending env (serve env server req).world call content := by
    rintro server req ⟨others, bounded⟩ ⟨rows, pending⟩
    exact ⟨rows.served req, pending.kept fresh rows bounded others⟩
  exact (guarded.invariant kept ⟨rows, pending⟩).2

/-- **A rejected upload leaves the store as it was exactly when it had no data and its blob was
there.** -/
theorem leavesStore_iff (env : Env) (requests : List Request) (arg : UploadArg) (err : Status)
    (rejected : ((upload env arg).run (serverAfter env requests).world).result = .error err)
    (check : err ∈ uploadChecks) :
    LeavesStore env (serverAfter env requests) arg ↔
      arg.data.bytes = [] ∧ BlobThere env (serverAfter env requests).world arg := by
  have rows := serverAfter_rowsDrawn env requests
  generalize serverAfter env requests = server at rejected rows
  obtain ⟨ulid, drawn, count, token, complete, world⟩ := rejectedUpload_world rejected check
  have blobs : drawn.blobs = server.world.blobs := token.blobs
  constructor
  · intro leaves
    have same := leaves.blobs
    rw [world, World.advance_blobs, ← blobs, received_blobs_iff] at same
    obtain ⟨empty, content, there⟩ := same
    exact ⟨empty, ulid, drawn, content, token, blobs ▸ there⟩
  · rintro ⟨empty, ulid', drawn', content, token', there⟩
    obtain ⟨rfl, rfl⟩ := token'.unique token
    have same : (serve env server (.upload arg)).world.blobs = server.world.blobs := by
      rw [world, World.advance_blobs, ← blobs, received_blobs_iff]
      exact ⟨empty, content, blobs ▸ there⟩
    have tables : (serve env server (.upload arg)).world.db = server.world.db := by
      rw [world]
      exact token.db
    refine ⟨tables, same, ?_⟩
    intro call pendingContent between again result pending presented others sameToken sameData last
      fresh ok
    have still : Pending env (serve env server (.upload arg)).world call pendingContent :=
      ⟨pending.drawn.trans_le (serve_calls_le server _), same ▸ pending.blob,
        tables ▸ pending.unnamed⟩
    rw [presented] at others
    have bounded := calls_bounded env (serve env server (.upload arg)) (between ++ [.upload again])
    obtain ⟨inside, _⟩ := guarded_append_iff.mp bounded
    have kept := Pending.kept_run fresh (others.and inside) (rows.served _) still
    have committed := kept.finish (sameToken.trans presented) last ok
    rw [receivedData, env.take_write_eq_nil_iff.mpr (sameData ▸ empty)] at committed
    rw [empty]
    have ended : runAll (serve env) server (.upload arg :: (between ++ [.upload again])) =
        serve env (runAll (serve env) server (.upload arg :: between)) (.upload again) := by
      rw [runAll_cons, runAll_cons, runAll_append]
      rfl
    rwa [ended]

/-! ## A final fragment for a name that is taken -/

/-- A fragment of a file in the root. -/
def rootFragment (name : Name) (token : Bytes) (data : Payload) (incomplete : Bool) :
    UploadArg where
  target := some ⟨[name]⟩
  data := data
  continuation := token
  incomplete := incomplete

/-- A client has sent the fragment `[6]`, and another one has uploaded the file `a`. -/
def pendingSix : List Request :=
  [.upload (rootFragment ['b'] [] { bytes := [6] } true), .upload uploadOneFile]

/-- The final fragment `[5]` of the first client goes to the name that is taken. -/
def takenFragment : UploadArg := rootFragment ['a'] (Ulid.toBytes 0) { bytes := [5] } false

/-- The client sends it again, to another name. -/
def resentFragment : UploadArg := rootFragment ['b'] (Ulid.toBytes 0) { bytes := [5] } false

/-- A rejected final fragment without data leaves the store alone. -/
theorem emptyFragment_leavesStore :
    LeavesStore (.numbered .unchanged) (serverAfter (.numbered .unchanged) pendingSix)
      (rootFragment ['a'] (Ulid.toBytes 0) { bytes := [] } false) :=
  (leavesStore_iff (.numbered .unchanged) pendingSix
    (rootFragment ['a'] (Ulid.toBytes 0) { bytes := [] } false)
    (.invalidArgument "object already exists with that name") (by decide) (by decide)).mpr
      ⟨rfl, 0, _, [6], .continued 0 rfl, by decide⟩

/-- The rejected fragment stays in the blob, and the file that its repetition commits has it
twice. -/
theorem resent_fragment_twice :
    ((upload (.numbered .unchanged) takenFragment).run
        (serverAfter (.numbered .unchanged) pendingSix).world).result =
          .error (.invalidArgument "object already exists with that name") ∧
      ¬ LeavesStore (.numbered .unchanged) (serverAfter (.numbered .unchanged) pendingSix)
        takenFragment ∧
      CommitsFile (serverAfter (.numbered .unchanged) (pendingSix ++ [.upload takenFragment])).world
        (serverAfter (.numbered .unchanged)
          (pendingSix ++ [.upload takenFragment, .upload resentFragment])).world [6, 5, 5] := by
  refine ⟨by decide, fun leaves => ?_, ?_⟩
  · have same := congrArg (fun blobs : Table Bytes Bytes => blobs[blobPath 0]?) leaves.blobs
    exact absurd same (by decide)
  · exact ⟨entryKey rootFsid ['b'], newFileRecord (.numbered .unchanged) oneFile.db 0 0, _,
      by decide, ⟨_, rfl, by decide⟩, rfl, rfl, by decide⟩

end Yeetbox.Storage
