import Yeetbox.Properties.Dangling
import Yeetbox.Properties.Leftovers

/-!
# A server that stops in the middle of a request

When the server stops while it handles a request, what it did so far is on the disk, nobody gets an
answer, and it goes on from there (`survive`). A request other than an upload has at most one
effect, so that it is done as a whole or not at all; an upload may have opened its blob, or have
written to it, or have renamed it (`Stop`, `stop_cases`). Wherever the server stops, it can still be
read (`Legible.survives`): all that holds of the tables holds of those of a server that stops.
-/

set_option autoImplicit false

namespace Yeetbox.Storage

open Library Handler

variable {env : Env} {horizon : ℕ} {server : Server} {req : Request} {stop : World}

/-- The server after a request, or after it stopped in the middle of one. Then nobody is told a
token. -/
def survive (env : Env) (server : Server) (label : Attempt) : Server where
  world := attempt env server.world label
  issued := match label.stop with
    | none => (serve env server label.request).issued
    | some _ => server.issued
  allocated := (serve env server label.request).allocated

/-- Where a server can stop: with all done that is to be done, or in the middle of an upload. -/
inductive Stop (env : Env) (server : Server) (req : Request) : World → Prop where
  | done (quiet : (serve env server req).issued = server.issued) :
      Stop env server req (serve env server req).world
  /-- The data of an append is written, and the clock was not read yet. -/
  | grown (arg : AppendArg) (key row : Bytes) (stop : World) (asked : req = .append arg)
      (found : server.world.db.ver[key]? = some row)
      (result : stop = withAppended env server.world (inBlobs (row.drop versionValueSize))
        arg.data.bytes)
      (ends : (serve env server req).world = stop.advance 1) : Stop env server req stop
  | opened (arg : UploadArg) (ulid : Ulid) (drawn : World) (asked : req = .upload arg)
      (token : UploadToken env server.world arg ulid drawn)
      (within : (withOpened drawn ulid).calls ≤ (serve env server req).world.calls) :
      Stop env server req (withOpened drawn ulid)
  | received (arg : UploadArg) (ulid : Ulid) (drawn : World) (asked : req = .upload arg)
      (token : UploadToken env server.world arg ulid drawn)
      (within : (withReceived env drawn arg ulid).calls ≤ (serve env server req).world.calls) :
      Stop env server req (withReceived env drawn arg ulid)
  /-- The blob of an upload that goes on has the name of the new version, which is not committed. -/
  | renamed (arg : UploadArg) (ulid : Ulid) (content : Bytes) (stop : World)
      (asked : req = .upload arg) (presented : arg.continuation = ulid.toBytes)
      (complete : arg.incomplete = false)
      (result : stop = ((withReceived env server.world arg ulid).advance 5).withBlobs
        (((withReceived env server.world arg ulid).blobs.erase (blobPath ulid)).insert
          (blobPath (env.newUlid ((withReceived env server.world arg ulid).calls + 4))) content))
      (within : stop.calls ≤ (serve env server req).world.calls) : Stop env server req stop

/-! ## The stops of each request -/

/-- Only uploads issue tokens. -/
theorem serve_quiet (noUpload : ∀ arg, req ≠ .upload arg) :
    (serve env server req).issued = server.issued := by
  have nothing : issuedBy ((handle env req).run server.world).result = [] := by
    rw [List.eq_nil_iff_forall_not_mem]
    intro token issued
    have told : token ∈ (serve env server req).issued := List.mem_append_right _ issued
    obtain ⟨result, answered, _, _⟩ := mem_issuedBy_iff.mp issued
    cases req with
    | upload arg => exact noUpload arg rfl
    | makeDirectory arg | append arg | download arg | delete arg | list arg | move arg | copy arg =>
        obtain ⟨_, _, same⟩ := map_eq_ok answered
        cases same
  rw [serve, Server.answered, nothing, List.append_nil]

/-- A deletion has at most one effect. -/
theorem delete_stops (legible : Legible env horizon server) (arg : DeleteArg) :
    ∀ stop ∈ ((delete env arg).run server.world).stops,
      stop = ((delete env arg).run server.world).state := by
  obtain ⟨target⟩ := arg
  have cases := delete_cases env server.world ⟨target⟩
  generalize ran : (delete env ⟨target⟩).run server.world = outcome at cases
  cases cases with
  | refused err => exact fun _ member => absurd member List.not_mem_nil
  | removed target fileKey value record later targeted resolved found decoded other result =>
      exact fun _ member => List.mem_singleton.mp member
  | blobs target fileKey value record _ targeted resolved found decoded current versioned follows =>
      cases targeted
      have there : RecordAt server.world.db.fs fileKey record := ⟨value, found, decoded⟩
      obtain ⟨version, call, row, _⟩ := legible.file_of_record there versioned
      have isVersioned : ¬ (record.type != objTypeVersionBlob) = true := by simp [versioned]
      rw [run_delete_record resolved there, current, run_rejectIf_false_bind, if_neg isVersioned,
        legible.first there, run_deleteVersions_first (legible.blobs.rows.firstOnly _) row] at ran
      rcases blob : server.world.blobs[blobPath (env.newUlid call)]? with _ | content
      · rw [run_removeFile_bind_missing blob] at ran
        rw [← ran]
        exact fun _ member => absurd member List.not_mem_nil
      · rw [run_removeFile_bind_found blob _ rfl] at ran
        rw [← ran]
        exact fun _ member => List.mem_singleton.mp member

/-- An append has at most one effect. -/
theorem append_stops (arg : AppendArg) :
    ∀ stop ∈ ((append env arg).run server.world).stops, Stop env server (.append arg) stop := by
  have cases := append_cases env server.world arg
  generalize ran : (append env arg).run server.world = outcome at cases
  cases cases with
  | refused err => exact fun _ member => absurd member List.not_mem_nil
  | appended target fileKey record path content later targeted resolved head there result =>
      intro stop member
      obtain ⟨row, found, _, rfl⟩ := head.row
      have world : (serve env server (.append arg)).world = later.advance 1 :=
        congrArg Outcome.state ran
      rw [List.mem_singleton.mp member]
      exact .grown arg _ row later rfl found result world

/-- **Where an upload can stop.** -/
theorem upload_stops (arg : UploadArg) :
    (∀ stop ∈ ((upload env arg).run server.world).stops, Stop env server (.upload arg) stop) ∧
      Stop env server (.upload arg) ((upload env arg).run server.world).state := by
  have done : (∀ result, ((upload env arg).run server.world).result = .ok result →
      result.continuation = []) →
        Stop env server (.upload arg) ((upload env arg).run server.world).state := by
    intro silent
    refine .done ?_
    have nothing : issuedBy ((handle env (.upload arg)).run server.world).result = [] := by
      rw [List.eq_nil_iff_forall_not_mem]
      intro token issued
      obtain ⟨result, answered, continues, nonempty⟩ := mem_issuedBy_iff.mp issued
      obtain ⟨result', ok, same⟩ := map_eq_ok answered
      cases same
      exact nonempty (continues ▸ silent _ ok)
    rw [serve, Server.answered, nothing, List.append_nil]
  have cases := upload_cases env server.world arg
  have world : (serve env server (.upload arg)).world = ((upload env arg).run server.world).state :=
    rfl
  generalize (upload env arg).run server.world = outcome at cases done world
  have early : ∀ ulid drawn, UploadToken env server.world arg ulid drawn →
      (withReceived env drawn arg ulid).calls ≤ outcome.state.calls →
        ∀ stop ∈ [withOpened drawn ulid, withReceived env drawn arg ulid],
          Stop env server (.upload arg) stop := by
    intro ulid drawn token within stop member
    rcases List.mem_pair.mp member with rfl | rfl
    · exact .opened arg ulid drawn rfl token (world ▸ (Nat.le_succ _).trans within)
    · exact .received arg ulid drawn rfl token (world ▸ within)
  cases cases with
  | refused err notCheck =>
      exact ⟨fun _ member => absurd member List.not_mem_nil, done fun _ ok => by cases ok⟩
  | fragment ulid drawn token incomplete =>
      have stops := early ulid drawn token (Nat.le_refl _)
      exact ⟨stops, stops _ (List.mem_cons_of_mem _ (List.mem_singleton_self _))⟩
  | final target lastName ulid drawn finished targeted named token complete finish =>
      cases finish with
      | rejected err count check =>
          refine ⟨fun stop member => ?_, done fun _ ok => by cases ok⟩
          exact early ulid drawn token (Nat.le_add_right _ count) stop (by simpa using member)
      | broken err count notCheck reason =>
          refine ⟨fun stop member => ?_, done fun _ ok => by cases ok⟩
          exact early ulid drawn token (Nat.le_add_right _ count) stop (by simpa using member)
      | committed parentId saved moved later stops walked free save result =>
          have ends : Stop env server (.upload arg) later := done fun _ ok => by
            cases ok
            rfl
          have calls : later.calls = moved.calls := by rw [result, World.withDb_calls]
          have within : (withReceived env drawn arg ulid).calls ≤ later.calls :=
            calls ▸ Nat.le_of_lt save.calls_lt
          refine ⟨fun stop member => ?_, ends⟩
          rcases List.mem_append.mp member with first | last
          · exact early ulid drawn token within stop first
          · rcases List.mem_append.mp last with renamed | committed
            · cases save with
              | single fresh => exact absurd renamed List.not_mem_nil
              | renamed content _ continued found moves =>
                  cases token with
                  | fresh new => exact absurd new continued
                  | continued _ presented =>
                      rw [List.mem_singleton.mp renamed]
                      exact .renamed arg ulid content moved rfl presented complete moves
                        (world ▸ calls.ge)
            · rw [List.mem_singleton.mp committed]
              exact ends

/-- **Where the server can stop.** -/
theorem stop_cases (legible : Legible env horizon server) (dated : env.Dated) (req : Request) :
    (∀ stop ∈ ((handle env req).run server.world).stops, Stop env server req stop) ∧
      Stop env server req ((handle env req).run server.world).state := by
  have once : (∀ arg, req ≠ .upload arg) →
      (∀ stop ∈ ((handle env req).run server.world).stops,
        stop = ((handle env req).run server.world).state) →
      (∀ stop ∈ ((handle env req).run server.world).stops, Stop env server req stop) ∧
        Stop env server req ((handle env req).run server.world).state := by
    intro noUpload single
    have ends : Stop env server req ((handle env req).run server.world).state :=
      .done (serve_quiet noUpload)
    exact ⟨fun stop member => single stop member ▸ ends, ends⟩
  cases req with
  | upload arg => exact upload_stops arg
  | append arg => exact ⟨append_stops arg, .done (serve_quiet fun _ same => by cases same)⟩
  | makeDirectory arg =>
      refine once (fun _ same => by cases same) ?_
      have cases := makeDirectory_cases env server.world arg
      rw [handle, run_map]
      generalize (makeDirectory env arg).run server.world = outcome at cases
      cases cases with
      | refused err notCreated => exact fun _ member => absurd member List.not_mem_nil
      | created _ _ _ later _ _ _ _ result => exact fun _ member => List.mem_singleton.mp member
  | download arg =>
      refine once (fun _ same => by cases same) ?_
      have cases := download_cases env server.world arg
      rw [handle, run_map]
      generalize (download env arg).run server.world = outcome at cases
      cases cases with
      | refused err => exact fun _ member => absurd member List.not_mem_nil
      | served result => exact fun _ member => absurd member List.not_mem_nil
  | delete arg => exact once (fun _ same => by cases same) (delete_stops legible arg)
  | list arg =>
      refine once (fun _ same => by cases same) ?_
      intro stop member
      have none : ((list env arg).run server.world).stops = [] :=
        (list_unchanged env server.world arg).2
      rw [handle, run_map, Outcome.map, none] at member
      exact absurd member List.not_mem_nil
  | move arg =>
      refine once (fun _ same => by cases same) ?_
      have cases := move_cases env server.world arg
      rw [handle, run_map]
      generalize (move env arg).run server.world = outcome at cases
      cases cases with
      | refused err => exact fun _ member => absurd member List.not_mem_nil
      | moved _ _ _ _ _ _ later _ _ _ _ _ _ _ result =>
          exact fun _ member => List.mem_singleton.mp member
  | copy arg =>
      exact once (fun _ same => by cases same)
        (copy_quiet fun there => legible.noBlobOf dated there).2

/-- What an attempt leaves when the server stops. -/
theorem attempt_stop (legible : Legible env horizon server) (dated : env.Dated) (req : Request)
    (count : ℕ) : Stop env server req (attempt env server.world ⟨req, some count⟩) := by
  obtain ⟨stops, state⟩ := stop_cases legible dated req
  exact @attempt_holds env _ server.world ⟨req, some count⟩ ⟨stops, state⟩

/-! ## Servers that go on -/

/-- A blob that may differ after a stop: that of the presented token, of a ULID drawn meanwhile, or
of a row. -/
inductive MayDiffer (env : Env) (server : Server) (req : Request) (stop : World) :
    Bytes → Prop where
  | presented (ulid : Ulid) (token : req.token = ulid.toBytes) :
      MayDiffer env server req stop (blobPath ulid)
  | drawn (call : ℕ) (early : server.world.calls ≤ call) (late : call < stop.calls) :
      MayDiffer env server req stop (blobPath (env.newUlid call))
  | row (key row : Bytes) (found : server.world.db.ver[key]? = some row) :
      MayDiffer env server req stop (inBlobs (row.drop versionValueSize))

/-- Only some blobs differ after a stop, and the tables do not. -/
structure OnlyBlobs (env : Env) (server : Server) (req : Request) (stop : World) : Prop where
  db : stop.db = server.world.db
  calls : server.world.calls ≤ stop.calls
  blobs : ∀ path, stop.blobs[path]? = server.world.blobs[path]? ∨
    MayDiffer env server req stop path

/-- **A server whose tables are as they were can still be read.** -/
theorem Legible.onlyBlobs (fresh : env.FreshBelow horizon) (legible : Legible env horizon server)
    (honest : Honest server req) (only : OnlyBlobs env server req stop)
    (bounded : stop.calls ≤ horizon) {allocated : ℕ} (more : server.allocated ≤ allocated) :
    Legible env horizon ⟨stop, server.issued, allocated⟩ := by
  obtain ⟨db, blobs, count⟩ := stop
  obtain ⟨rfl, rises, differs⟩ := only
  dsimp only at rises bounded differs
  have unforeseen : Unforeseen env horizon server req := legible.tokens.unforeseen fresh honest
  refine ⟨⟨legible.canonical, ?_, ?_, ?_⟩, legible.entries, legible.first, legible.kinds, ?_,
    legible.versions, legible.owned, legible.rowed, fun there => (legible.ids there).trans more⟩
  · exact legible.counted.of_fs more rfl rfl legible.counted.ids
  · refine ⟨?_, legible.blobs.distinct, ?_⟩
    · intro key row found
      obtain ⟨id, version, call, same, early, named⟩ := legible.blobs.rows key row found
      exact ⟨id, version, call, same, early.trans_le rises, named⟩
    · intro call later below
      dsimp only at later ⊢
      have kept : blobs[blobPath (env.newUlid call)]? =
          server.world.blobs[blobPath (env.newUlid call)]? := by
        refine (differs _).resolve_right fun differ => ?_
        generalize is : blobPath (env.newUlid call) = path at differ
        cases differ with
        | presented ulid token =>
            exact unforeseen call below (rises.trans later) (blobPath_injective is ▸ token)
        | drawn other early late =>
            have calls := fresh (late.trans_le bounded) below (blobPath_injective is).symm
            exact absurd late (by dsimp only; omega)
        | row key row found =>
            obtain ⟨other, _, early, named⟩ := legible.blobs.rows.path found
            have calls := fresh (early.trans_le (rises.trans bounded)) below
              (blobPath_injective (is.trans named)).symm
            omega
      rw [kept]
      exact legible.blobs.absent call (rises.trans later) below
  · intro token issued
    obtain ⟨call, same, early, unnamed⟩ := legible.tokens token issued
    exact ⟨call, same, early.trans_le rises, unnamed⟩
  · intro path content found
    rcases differs path with same | differ
    · exact legible.named path content (same ▸ found)
    · cases differ with
      | presented ulid token => exact ⟨ulid, rfl⟩
      | drawn call early late => exact ⟨_, rfl⟩
      | row key row there =>
          obtain ⟨call, _, _, named⟩ := legible.blobs.rows.path there
          exact ⟨_, named⟩

/-- The blob of the presented token, or of the one that was drawn, may differ. -/
theorem UploadToken.mayDiffer {arg : UploadArg} {ulid : Ulid} {drawn : World}
    (token : UploadToken env server.world arg ulid drawn) (rises : drawn.calls ≤ stop.calls) :
    MayDiffer env server (.upload arg) stop (blobPath ulid) := by
  cases token with
  | fresh new => exact .drawn _ (Nat.le_refl _) (Nat.lt_of_succ_le rises)
  | continued _ presented => exact .presented ulid presented

/-- **A stop before the end leaves the tables alone.** -/
theorem Stop.cases_end (stopped : Stop env server req stop) :
    (stop = (serve env server req).world ∧ (serve env server req).issued = server.issued) ∨
      OnlyBlobs env server req stop ∧ stop.calls ≤ (serve env server req).world.calls := by
  cases stopped with
  | done quiet => exact .inl ⟨rfl, quiet⟩
  | grown arg key row _ asked found result ends =>
      refine .inr ⟨⟨?_, ?_, fun path => ?_⟩, by rw [ends]; exact Nat.le_succ _⟩
      · rw [result]
        rfl
      · rw [result]
        exact Nat.le_succ _
      · rw [result, withAppended, World.withBlobs_blobs, get_extendIn]
        split
        · rename_i same
          rw [same]
          exact .inr (.row key row found)
        · exact .inl rfl
  | opened arg ulid drawn asked token within =>
      subst asked
      refine .inr ⟨⟨token.db, token.calls_le, fun path => ?_⟩, within⟩
      by_cases same : path = blobPath ulid
      · exact .inr (same ▸ token.mayDiffer (Nat.le_refl _))
      · rw [withOpened, World.withBlobs_blobs, get_createIn, if_neg same, token.blobs]
        exact .inl rfl
  | received arg ulid drawn asked token within =>
      subst asked
      refine .inr ⟨⟨token.db, token.calls_le.trans (Nat.le_succ _), fun path => ?_⟩, within⟩
      by_cases same : path = blobPath ulid
      · exact .inr (same ▸ token.mayDiffer (Nat.le_succ _))
      · exact .inl (token.received_blob same)
  | renamed arg ulid content _ asked presented complete result within =>
      subst asked
      have token : UploadToken env server.world arg ulid server.world := .continued ulid presented
      refine .inr ⟨⟨?_, ?_, fun path => ?_⟩, within⟩
      · rw [result]
        rfl
      · rw [result, World.withBlobs_calls, World.advance_calls]
        exact Nat.le_add_right _ 6
      · by_cases same : path = blobPath ulid
        · exact .inr (same ▸ .presented ulid presented)
        · by_cases saved : path =
              blobPath (env.newUlid ((withReceived env server.world arg ulid).calls + 4))
          · refine .inr (saved ▸ .drawn _ ?_ ?_)
            · exact Nat.le_add_right _ 5
            · rw [result, World.withBlobs_calls, World.advance_calls]
              exact Nat.lt_succ_self _
          · rw [result, World.withBlobs_blobs, Table.get_insert_ne _ _ saved,
              Table.get_erase_ne _ same]
            exact .inl (token.received_blob same)

/-- **Wherever a server stops, it can be read when it goes on.** -/
theorem Legible.survives (fresh : env.FreshBelow horizon) (legible : Legible env horizon server)
    (dated : env.Dated) {label : Attempt}
    (permitted : Permitted env horizon server label.request) :
    Legible env horizon (survive env server label) := by
  obtain ⟨req, _ | count⟩ := label
  · exact legible.served fresh permitted
  · have stopped := attempt_stop legible dated req count
    rw [survive]
    dsimp only
    generalize attempt env server.world ⟨req, some count⟩ = stop at stopped
    rcases stopped.cases_end with ⟨rfl, quiet⟩ | ⟨only, within⟩
    · rw [← quiet]
      exact legible.served fresh permitted
    · exact legible.onlyBlobs fresh permitted.honest only (within.trans permitted.bounded)
        (allocated_le env server req)

end Yeetbox.Storage
