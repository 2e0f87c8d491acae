import Yeetbox.Properties.Refinement

/-!
# What is left in the blob directory

A blob is that of a version, or that of an upload that can go on, or a leftover: no row names it and
nobody was told its token (`Leftover`). Only uploads make leftovers, when they come in one message
and are rejected after their data was written (`LeavesBehind`), and nothing ever removes or changes
one. So the leftovers after a run are exactly the data of the uploads of this kind in the run
(`leftovers_exactly`): what is rejected stays on the disk for good.
-/

set_option autoImplicit false

namespace Yeetbox.Storage

open Library Handler

variable {env : Env} {horizon : ℕ} {server : Server} {req : Request} {ulid : Ulid}
  {content : Bytes}

/-- A row names the blob of a ULID. -/
def NamedByRow (server : Server) (ulid : Ulid) : Prop :=
  ∃ key row : Bytes, server.world.db.ver[key]? = some row ∧
    inBlobs (row.drop versionValueSize) = blobPath ulid

/-- A blob that no row names, and whose token nobody was told. -/
structure Leftover (server : Server) (ulid : Ulid) (content : Bytes) : Prop where
  there : server.world.blobs[blobPath ulid]? = some content
  untold : ulid.toBytes ∉ server.issued
  unnamed : ¬ NamedByRow server ulid

/-- An upload in one message that is rejected, with the ULID and the data of its blob. -/
structure LeavesBehind (env : Env) (server : Server) (arg : UploadArg) (ulid : Ulid)
    (content : Bytes) : Prop where
  new : arg.continuation = []
  complete : arg.incomplete = false
  addressed : ∃ target, arg.target = some target ∧ target.path ≠ []
  rejected : ∃ err, ((upload env arg).run server.world).result = .error err
  ulid : ulid = env.newUlid server.world.calls
  content : content = arg.data.bytes

/-! ## Copies -/

/-- The blob of an object is not found under its number. -/
def NoBlobOf (world : World) (record : FsRecordValue) : Prop :=
  record.type = objTypeNormalBlob ∨ record.type = objTypeAppendBlob ∨
      record.type = objTypeBlockBlob →
    world.blobs[inBlobs (utf8 (decimalFileName record.blobUlid))]? = none

/-- Without a blob there is nothing to copy. -/
theorem run_copyBlob_nothing {Next : Type} {world : World} {record : FsRecordValue}
    (missing : NoBlobOf world record) (destUlid : Ulid) (next : Unit → Op Next) :
    (∃ err, (copyBlob record destUlid >>= next).run world = ⟨.error err, world, []⟩) ∨
      (copyBlob record destUlid >>= next).run world = (next ()).run world := by
  rw [copyBlob]
  split
  · rename_i type
    exact .inl ⟨_, run_copyFile_bind_missing (missing type) _ next⟩
  · split
    · exact .inr rfl
    · split
      · exact .inr rfl
      · exact .inl ⟨_, rfl⟩

/-- **A copy of what has no blob under its number leaves the blobs alone**, and has at most its
commit as an effect. -/
theorem copy_quiet {world : World} {arg : CopyArg}
    (missing : ∀ {key record}, RecordAt world.db.fs key record → NoBlobOf world record) :
    ((copy env arg).run world).state.blobs = world.blobs ∧
      ∀ stop ∈ ((copy env arg).run world).stops, stop = ((copy env arg).run world).state := by
  have still : ∀ (err : Status) (reached : World), reached.blobs = world.blobs →
      (⟨.error err, reached, []⟩ : Outcome World Status Unit).state.blobs = world.blobs ∧
        ∀ stop ∈ (⟨.error err, reached, []⟩ : Outcome World Status Unit).stops, stop = reached :=
    fun err reached same => ⟨same, fun _ member => absurd member List.not_mem_nil⟩
  rw [copy]
  rcases arg.target with _ | target
  · exact still _ world rfl
  rw [run_orFail_some_bind]
  rcases arg.destination.getLast? with _ | destFileName
  · exact still _ world rfl
  rw [run_orFail_some_bind]
  rcases target.path.getLast? with _ | fileName
  · exact still _ world rfl
  rw [run_orFail_some_bind, run_get_bind]
  dsimp only [copySourceKey, copyDestinationKey]
  rcases descendPath env.toNormalization world.db.fs target.path.dropLast with err | srcParentId
  · exact still _ world rfl
  rw [run_ofExcept_ok_bind]
  rcases descendPath env.toNormalization world.db.fs arg.destination.dropLast with
    err | destParentId
  · exact still _ world rfl
  rw [run_ofExcept_ok_bind]
  rcases found : world.db.fs[makeKey env.toNormalization srcParentId fileName]? with _ | value
  · exact still _ world rfl
  rw [run_orFail_some_bind]
  rcases decoded : fsRecordFromBytes value with _ | record
  · exact still _ world rfl
  rw [run_orFail_some_bind, newUlid, run_draw_bind]
  have nowhere : NoBlobOf (world.advance 1) record := missing ⟨value, found, decoded⟩
  rcases run_copyBlob_nothing nowhere (env.newUlid world.calls) _ with ⟨err, notAllowed⟩ | ran
  · rw [notAllowed]
    exact still _ _ rfl
  rw [ran]
  simp only [timeNow, run_draw_bind, getNextId]
  rcases world.db.fs[makeKey env.toNormalization destParentId destFileName]? with _ | occupant
  · rw [Option.isSome_none, run_rejectIf_false_bind]
    exact ⟨rfl, fun _ member => List.mem_singleton.mp member⟩
  · rw [Option.isSome_some, run_rejectIf_true_bind]
    exact still _ _ rfl

/-- In a server that can be read, nothing has a blob under its number. -/
theorem Legible.noBlobOf (legible : Legible env horizon server) (dated : env.Dated) {key : Bytes}
    {record : FsRecordValue} (there : RecordAt server.world.db.fs key record) :
    NoBlobOf server.world record := by
  intro type
  rcases legible.kinds there with folder | versioned | ⟨normal, call, drawn⟩
  · rw [folder] at type
    rcases type with normal | appended | blocks <;> contradiction
  · rw [versioned] at type
    rcases type with normal | appended | blocks <;> contradiction
  · rw [drawn]
    exact decimal_missing dated legible.named call

/-! ## Requests that are no uploads -/

/-- Only uploads touch blobs that no row names. -/
theorem Legible.unnamed_kept (legible : Legible env horizon server) (dated : env.Dated)
    (noUpload : ∀ arg, req ≠ .upload arg) (unnamed : ¬ NamedByRow server ulid) :
    (serve env server req).world.blobs[blobPath ulid]? = server.world.blobs[blobPath ulid]? := by
  have same : ∀ {blobs : Table Bytes Bytes}, blobs = server.world.blobs →
      blobs[blobPath ulid]? = server.world.blobs[blobPath ulid]? := by
    rintro _ rfl
    rfl
  cases req with
  | makeDirectory arg => exact same (makeDirectory_cases env server.world arg).blobs
  | upload arg => exact absurd rfl (noUpload arg)
  | download arg => exact same (download_cases env server.world arg).blobs
  | list arg => exact same (congrArg World.blobs (list_unchanged env server.world arg).1)
  | move arg => exact same (move_cases env server.world arg).blobs
  | copy arg => exact same (copy_quiet fun there => legible.noBlobOf dated there).1
  | append arg =>
      have cases := append_cases env server.world arg
      change ((append env arg).run server.world).state.blobs[blobPath ulid]? = _
      generalize (append env arg).run server.world = outcome at cases
      cases cases with
      | refused err => rfl
      | appended target fileKey record path content later targeted resolved head there result =>
          obtain ⟨row, found, _, names⟩ := head.row
          have other : blobPath ulid ≠ path := fun is => unnamed ⟨_, row, found, names ▸ is.symm⟩
          rw [World.advance_blobs, result, withAppended, World.withBlobs_blobs, get_extendIn,
            if_neg other]
  | delete arg =>
      refine (delete_cases env server.world arg).blob_kept fun touches => ?_
      generalize arrived : blobPath ulid = path at touches
      cases touches with
      | drawn _ call early late =>
          rw [(delete_cases env server.world arg).calls] at late
          omega
      | deleted _ target key record version row targeted file found =>
          exact unnamed ⟨_, row, found, arrived.symm⟩

/-! ## One request -/

section Step

variable (legible : Legible env horizon server) (permitted : Permitted env horizon server req)
include legible permitted

/-- The blob of a ULID that the request draws is not there before. -/
theorem not_drawn (there : server.world.blobs[blobPath ulid]? = some content) (call : ℕ)
    (early : server.world.calls ≤ call) (late : call < (serve env server req).world.calls) :
    ulid ≠ env.newUlid call := by
  rintro rfl
  have absent := legible.blobs.absent call early (late.trans_le permitted.bounded)
  cases there.symm.trans absent

omit legible in
/-- Who was not told a token does not present it. -/
theorem not_presented (untold : ulid.toBytes ∉ server.issued) : req.token ≠ ulid.toBytes := by
  intro presented
  rcases permitted.honest with none | issued
  · exact Ulid.toBytes_ne_nil ulid (presented.symm.trans none)
  · exact untold (presented ▸ issued)

/-- **A leftover stays.** -/
theorem Leftover.served (left : Leftover server ulid content) :
    Leftover (serve env server req) ulid content where
  there := by
    rw [← left.there]
    refine serve_blob_kept fun touches => ?_
    rcases legible.blobs.rows.touches touches with
      ⟨other, token, path⟩ | ⟨call, early, late, path⟩ | ⟨key, call, ⟨version, found⟩, _, path⟩
    · exact not_presented permitted left.untold (blobPath_injective path ▸ token)
    · exact not_drawn legible permitted left.there call early late (blobPath_injective path)
    · refine left.unnamed ⟨key, _, found, ?_⟩
      rw [drop_versionValue_append, inBlobs_blobPath, path]
  untold := by
    intro issued
    rcases issued_cases issued with before | ⟨arg, result, rfl, ok, continues, nonempty⟩
    · exact left.untold before
    · obtain ⟨other, drawn, token, told, ends⟩ := upload_issues ok (continues ▸ nonempty)
      have same : ulid = other := Ulid.toBytes_injective (continues.symm.trans told)
      cases token with
      | fresh new =>
          refine not_drawn legible permitted left.there server.world.calls (Nat.le_refl _) ?_ same
          rw [serve_upload_world, ends, withReceived, World.withBlobs_calls, World.advance_calls,
            World.advance_calls]
          omega
      | continued _ presented =>
          exact not_presented permitted left.untold (presented.trans (same ▸ rfl))
  unnamed := by
    rintro ⟨key, row, found, names⟩
    rcases (serve_commits server req).row_cases found with
      before | ⟨version, call, _, early, late, rfl⟩
    · exact left.unnamed ⟨key, row, before, names⟩
    · rw [drop_versionValue_append, inBlobs_blobPath] at names
      exact not_drawn legible permitted left.there call early late (blobPath_injective names.symm)

/-- A row still names its blob after the request. -/
theorem NamedByRow.served (named : NamedByRow server ulid) :
    NamedByRow (serve env server req) ulid := by
  obtain ⟨key, row, found, names⟩ := named
  have few := (allocated_le env server req).trans_lt permitted.few
  exact ⟨key, row, (serve_commits server req).row_kept found (legible.counted.not_next few found),
    names⟩

end Step

/-- An upload that fails after its data was written leaves it behind, if it is new. -/
theorem leavesBehind_of_error (legible : Legible env horizon server) (faithful : env.Faithful)
    {arg : UploadArg} (permitted : Permitted env horizon server (.upload arg)) {target : FileId}
    {lastName : Name} {drawn : World} {err : Status} {count : ℕ} {stops : List World}
    (targeted : arg.target = some target) (named : target.path.getLast? = some lastName)
    (token : UploadToken env server.world arg ulid drawn) (complete : arg.incomplete = false)
    (ran : (upload env arg).run server.world =
      ⟨.error err, (withReceived env drawn arg ulid).advance count, stops⟩)
    (there : (withReceived env drawn arg ulid).blobs[blobPath ulid]? = some content)
    (untold : ulid.toBytes ∉ server.issued) : LeavesBehind env server arg ulid content := by
  have nonempty : target.path ≠ [] := fun empty => by simp [empty] at named
  cases token with
  | continued _ presented => exact absurd presented (not_presented permitted untold)
  | fresh new =>
      have early : server.world.calls < horizon := by
        have bounded := permitted.bounded
        rw [serve_upload_world, ran, World.advance_calls, withReceived, World.withBlobs_calls,
          World.advance_calls, World.advance_calls] at bounded
        omega
      have absent := legible.blobs.absent_next early
      rw [received_blobs (.fresh new) faithful.transfers.write, get_extendIn, if_pos rfl, absent,
        Option.getD_none, List.nil_append, Option.some_inj] at there
      have failed : ((upload env arg).run server.world).result = .error err := by rw [ran]
      exact ⟨new, complete, ⟨target, targeted, nonempty⟩, ⟨err, failed⟩, rfl, there.symm⟩

/-- **A leftover was there before, or the request is an upload that leaves it behind.** -/
theorem Leftover.of_served (legible : Legible env horizon server) (faithful : env.Faithful)
    (permitted : Permitted env horizon server req)
    (left : Leftover (serve env server req) ulid content) :
    Leftover server ulid content ∨
      ∃ arg, req = .upload arg ∧ LeavesBehind env server arg ulid content := by
  have untold : ulid.toBytes ∉ server.issued :=
    fun issued => left.untold (List.mem_append_left _ issued)
  have unnamed : ¬ NamedByRow server ulid :=
    fun named => left.unnamed (named.served legible permitted)
  have before : (serve env server req).world.blobs[blobPath ulid]? =
      server.world.blobs[blobPath ulid]? → Leftover server ulid content :=
    fun same => ⟨same ▸ left.there, untold, unnamed⟩
  by_cases upload' : ∀ arg, req ≠ .upload arg
  · exact .inl (before (legible.unnamed_kept faithful.dated upload' unnamed))
  push Not at upload'
  obtain ⟨arg, rfl⟩ := upload'
  have there : ((upload env arg).run server.world).state.blobs[blobPath ulid]? = some content :=
    left.there
  have told : ∀ result, ((upload env arg).run server.world).result = .ok result →
      result.continuation ≠ ulid.toBytes := by
    intro result ok continues
    refine left.untold (List.mem_append_right _ (mem_issuedBy_iff.mpr ⟨result, ?_, continues,
      Ulid.toBytes_ne_nil ulid⟩))
    exact congrArg (Except.map _) ok
  have unnamed' : ∀ key row : Bytes,
      ((upload env arg).run server.world).state.db.ver[key]? = some row →
        inBlobs (row.drop versionValueSize) ≠ blobPath ulid :=
    fun key row found names => left.unnamed ⟨key, row, found, names⟩
  have cases := upload_cases env server.world arg
  change ((upload env arg).run server.world).state.blobs[blobPath ulid]? = _ → _ at before
  generalize ran : (upload env arg).run server.world = outcome at cases there told unnamed' before
  cases cases with
  | refused err notCheck => exact .inl (before rfl)
  | fragment other drawn token incomplete =>
      by_cases same : ulid = other
      · exact absurd (same ▸ rfl) (told _ rfl)
      · exact .inl (before (token.received_blob (blobPath_injective.ne same)))
  | final target lastName other drawn finished targeted named token complete finish =>
      cases finish with
      | rejected err count check =>
          by_cases same : ulid = other
          · subst same
            exact .inr ⟨arg, rfl, leavesBehind_of_error legible faithful permitted targeted named
              token complete ran there untold⟩
          · exact .inl (before (token.received_blob (blobPath_injective.ne same)))
      | broken err count notCheck reason =>
          by_cases same : ulid = other
          · subst same
            exact .inr ⟨arg, rfl, leavesBehind_of_error legible faithful permitted targeted named
              token complete ran there untold⟩
          · exact .inl (before (token.received_blob (blobPath_injective.ne same)))
      | committed parentId saved moved later stops walked free save result =>
          rw [Outcome.after_state, result] at there unnamed' before
          rw [World.withDb_blobs] at there before
          have notSaved : ulid ≠ saved := by
            rintro rfl
            refine unnamed' _ _ (Table.get_insert_self _ _ _) ?_
            rw [drop_versionValue_append, inBlobs_blobPath]
          by_cases same : ulid = other
          · subst same
            cases save with
            | single fresh => exact absurd rfl notSaved
            | renamed content moved continued found result =>
                rw [result, World.withBlobs_blobs,
                  Table.get_insert_ne _ _ (blobPath_injective.ne notSaved),
                  Table.get_erase_self] at there
                cases there
          · refine .inl (before ?_)
            rw [save.saved_blob (blobPath_injective.ne same) (blobPath_injective.ne notSaved)]
            exact token.received_blob (blobPath_injective.ne same)

/-- **What an upload leaves behind is a leftover.** -/
theorem LeavesBehind.leftover (fresh : env.FreshBelow horizon)
    (legible : Legible env horizon server) (faithful : env.Faithful) {arg : UploadArg}
    (permitted : Permitted env horizon server (.upload arg))
    (behind : LeavesBehind env server arg ulid content) :
    Leftover (serve env server (.upload arg)) ulid content := by
  obtain ⟨new, complete, ⟨target, targeted, nonempty⟩, ⟨err, failed⟩, rfl, rfl⟩ := behind
  obtain ⟨lastName, named⟩ : ∃ lastName, target.path.getLast? = some lastName :=
    ⟨_, List.getLast?_eq_getLast_of_ne_nil nonempty⟩
  have token : UploadToken env server.world arg (env.newUlid server.world.calls)
      (server.world.advance 1) := .fresh new
  have ran := upload_run targeted named token
  rw [run_receiveUpload, complete, if_neg Bool.false_ne_true] at ran
  obtain ⟨count, stops, ran⟩ : ∃ count stops, (upload env arg).run server.world =
      ⟨.error err, (withReceived env (server.world.advance 1) arg
        (env.newUlid server.world.calls)).advance count, stops⟩ := by
    have cases := finishUpload_cases env (withReceived env (server.world.advance 1) arg
      (env.newUlid server.world.calls)) arg target lastName (env.newUlid server.world.calls)
      complete
    generalize (finishUpload env arg target lastName _).run _ = outcome at cases ran
    rw [ran] at failed
    cases cases with
    | rejected other count check =>
        cases failed
        exact ⟨count, _, ran⟩
    | broken other count notCheck reason =>
        cases failed
        exact ⟨count, _, ran⟩
    | committed => cases failed
  have world : (serve env server (.upload arg)).world = (withReceived env (server.world.advance 1)
      arg (env.newUlid server.world.calls)).advance count := by
    rw [serve_upload_world, ran]
  have early : server.world.calls < horizon := by
    have bounded := permitted.bounded
    rw [world, World.advance_calls, withReceived, World.withBlobs_calls, World.advance_calls,
      World.advance_calls] at bounded
    omega
  refine ⟨?_, ?_, ?_⟩
  · have absent := legible.blobs.absent_next early
    rw [world, World.advance_blobs, received_blobs token faithful.transfers.write,
      get_extendIn, if_pos rfl, absent, Option.getD_none, List.nil_append]
  · intro issued
    rcases issued_cases issued with before | ⟨other, result, same, ok, _⟩
    · exact legible.drawn_ne_token fresh (Nat.le_refl _) early before rfl
    · cases same
      cases failed.symm.trans ok
  · rintro ⟨key, row, found, names⟩
    rw [world] at found
    exact legible.drawn_ne_row fresh (Nat.le_refl _) early found names

/-! ## Runs -/

/-- The leftovers after a run are those from before it and what its uploads leave behind. -/
theorem leftover_history (fresh : env.FreshBelow horizon) (faithful : env.Faithful)
    {requests : List Request} (legible : Legible env horizon server)
    (permitted : Guarded (serve env) (Permitted env horizon) server requests) :
    Leftover (runAll (serve env) server requests) ulid content ↔
      Leftover server ulid content ∨ ∃ before arg later,
        requests = before ++ .upload arg :: later ∧
          LeavesBehind env (runAll (serve env) server before) arg ulid content := by
  induction requests generalizing server with
  | nil =>
      refine ⟨.inl, ?_⟩
      rintro (left | ⟨before, arg, later, split, _⟩)
      · exact left
      · exact absurd split.symm (by simp)
  | cons req rest ih =>
      obtain ⟨here, onwards⟩ := permitted
      rw [runAll_cons, ih (legible.served fresh here) onwards]
      constructor
      · rintro (left | ⟨before, arg, later, rfl, behind⟩)
        · rcases left.of_served legible faithful here with older | ⟨arg, rfl, behind⟩
          · exact .inl older
          · exact .inr ⟨[], arg, rest, rfl, behind⟩
        · exact .inr ⟨req :: before, arg, later, rfl, behind⟩
      · rintro (left | ⟨_ | ⟨first, before⟩, arg, later, split, behind⟩)
        · exact .inl (left.served legible here)
        · cases split
          exact .inl (behind.leftover fresh legible faithful here)
        · cases split
          exact .inr ⟨before, arg, later, rfl, behind⟩

/-- **The leftovers after a run are exactly the data of the uploads in one message that were
rejected in it.** -/
theorem leftovers_exactly (faithful : env.Faithful) {requests : List Request}
    (regular : Regular env requests) (ulid : Ulid) (content : Bytes) :
    Leftover (serverAfter env requests) ulid content ↔ ∃ before arg later,
      requests = before ++ .upload arg :: later ∧
        LeavesBehind env (serverAfter env before) arg ulid content := by
  rw [serverAfter, leftover_history regular.fresh faithful (.empty env _) regular.permitted]
  refine or_iff_right ?_
  rintro ⟨there, _, _⟩
  exact World.empty_blob _ _ there

/-- An upload under a name that is taken. -/
def uploadTaken : UploadArg := { target := some ⟨[['e']]⟩, data := { bytes := [107] } }

/-- A name is taken, an upload under it is rejected, and the file with the name is deleted. -/
def rejectedInBetween : List Request :=
  [.upload { target := some ⟨[['e']]⟩, data := { bytes := [108] } }] ++
    .upload uploadTaken :: [.delete ⟨some ⟨[['e']], none⟩⟩]

theorem rejectedInBetween_regular : Regular (.stamped .unchanged) rejectedInBetween where
  fresh := Env.stamped_freshBelow _ (by decide +kernel)
  honest := by decide +kernel
  few := by decide +kernel

/-- The data of the rejected upload is still there. -/
theorem rejectedInBetween_leftover :
    Leftover (serverAfter (.stamped .unchanged) rejectedInBetween) (.ofNat 128 (2 ^ 127 + 6))
      [107] := by
  refine (leftovers_exactly (Env.stamped_faithful _) rejectedInBetween_regular _ _).mpr
    ⟨_, uploadTaken, _, rfl, ?_⟩
  exact {
    new := rfl
    complete := rfl
    addressed := ⟨_, rfl, by decide⟩
    rejected := ⟨.invalidArgument "object already exists with that name", by decide +kernel⟩
    ulid := by decide +kernel
    content := rfl }

end Yeetbox.Storage
