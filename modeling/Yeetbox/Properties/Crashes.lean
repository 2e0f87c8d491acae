import Yeetbox.Properties.Lifetimes
import Yeetbox.Properties.Stops

/-!
# Crashes on the drive

When the server stops in the middle of a request, the drive is as it was before the request or as it
would be after it. Only an upload that goes on can be in between: some of its data was received, or
its blob was renamed and no file was created, and then it is lost (`Drive.Attempts`). So the drive
tells what a server can come to that stops again and again (`server_survives_on_drive`), its tables
are sound (`survived_tables`), and what is in a file is what was in it and what was appended to it,
with nothing missing that was answered (`survived_file`).
-/

set_option autoImplicit false

namespace Yeetbox.Storage

open Library Handler

variable {env : Env} {horizon : ℕ} {server : Server} {req : Request} {stop : World}

/-- What an attempt makes of a drive, and what the client is told. -/
inductive Drive.Attempts (normalization : Normalization) (drive : Drive) :
    Attempt × Ulid → Option Reply → Drive → Prop
  | answered (req : Request) (drawn : Ulid) :
      Attempts normalization drive (⟨req, none⟩, drawn)
        (some (drive.decide normalization drawn req).2)
        (drive.perform (drive.decide normalization drawn req).1)
  | before (req : Request) (count : ℕ) (drawn : Ulid) :
      Attempts normalization drive (⟨req, some count⟩, drawn) none drive
  | after (req : Request) (count : ℕ) (drawn : Ulid) :
      Attempts normalization drive (⟨req, some count⟩, drawn) none
        (drive.perform (drive.decide normalization drawn req).1)
  /-- Some of the data of an upload that goes on was received. -/
  | received (arg : UploadArg) (ulid : Ulid) (data : Bytes) (count : ℕ) (drawn : Ulid)
      (presented : arg.continuation = ulid.toBytes) (part : data <+: arg.data.bytes) :
      Attempts normalization drive (⟨.upload arg, some count⟩, drawn) none
        (drive.perform (.receive ulid data))
  /-- What was received of an upload is lost when it was to be finished. -/
  | lost (arg : UploadArg) (ulid : Ulid) (count : ℕ) (drawn : Ulid)
      (presented : arg.continuation = ulid.toBytes) (complete : arg.incomplete = false) :
      Attempts normalization drive (⟨.upload arg, some count⟩, drawn) none
        { drive with pending := Function.update drive.pending ulid none }

/-! ## Stops on the drive -/

/-- The drive does not show blobs whose token is not out and that no row names. -/
theorem drive_hidden {later : Server} (db : later.world.db = server.world.db)
    (issued : later.issued = server.issued)
    (hidden : ∀ path, later.world.blobs[path]? = server.world.blobs[path]? ∨
      ∃ ulid : Ulid, path = blobPath ulid ∧ ulid.toBytes ∉ server.issued ∧
        ¬ NamedByRow server ulid) : later.drive = server.drive := by
  ext1
  · exact congrArg entriesOf (congrArg Db.fs db)
  · have files := @filesOf_congr server.world.db.ver server.world.blobs later.world.blobs
      fun id row found => (hidden _).resolve_right fun ⟨ulid, same, _, unnamed⟩ =>
        unnamed ⟨_, row, found, same⟩
    rw [Server.drive, db]
    exact files
  · rw [Server.drive, issued]
    refine pendingOf_congr fun ulid out => (hidden _).resolve_right ?_
    rintro ⟨other, same, untold, _⟩
    exact untold (blobPath_injective same ▸ out)
  · exact congrArg (Db.lastId · fsTableName) db

/-- A blob under a ULID that was just drawn is not shown. -/
theorem Legible.fresh_hidden (legible : Legible env horizon server)
    (fresh : env.FreshBelow horizon) (later : Server) {call : ℕ}
    (db : later.world.db = server.world.db) (issued : later.issued = server.issued)
    (new : server.world.calls ≤ call) (below : call < horizon)
    (others : ∀ path, path ≠ blobPath (env.newUlid call) →
      later.world.blobs[path]? = server.world.blobs[path]?) : later.drive = server.drive := by
  refine drive_hidden db issued fun path => ?_
  by_cases same : path = blobPath (env.newUlid call)
  · refine .inr ⟨_, same, ?_, ?_⟩
    · exact fun out => legible.drawn_ne_token fresh new below out rfl
    · rintro ⟨key, row, found, names⟩
      exact legible.drawn_ne_row fresh new below found names
  · exact .inl (others path same)

/-- The part of an upload that was received is on the drive. -/
theorem Legible.part_received (legible : Legible env horizon server) (later : Server) {ulid : Ulid}
    {data : Bytes} (out : ulid.toBytes ∈ server.issued) (db : later.world.db = server.world.db)
    (issued : later.issued = server.issued)
    (blobs : later.world.blobs = extendIn server.world.blobs (blobPath ulid) data) :
    later.drive = server.drive.perform (.receive ulid data) := by
  refine drive_received db blobs ?_ ?_ ?_
  · intro other
    rw [issued]
    refine ⟨.inr, ?_⟩
    rintro (rfl | before)
    · exact out
    · exact before
  · intro key row found
    rw [blobs, get_extendIn, if_neg (legible.token_ne_row out found).symm]
  · have shown : server.drive.received ulid =
        (pendingOf server.issued server.world.blobs ulid).getD [] := rfl
    rw [shown, pendingOf, if_pos out]

/-- When the blob of an upload is renamed and no file is created, the upload is lost. -/
theorem Legible.upload_lost (legible : Legible env horizon server) (fresh : env.FreshBelow horizon)
    (later : Server) {ulid : Ulid} {call : ℕ} (out : ulid.toBytes ∈ server.issued)
    (db : later.world.db = server.world.db) (issued : later.issued = server.issued)
    (new : server.world.calls ≤ call) (below : call < horizon)
    (gone : later.world.blobs[blobPath ulid]? = none)
    (others : ∀ path, path ≠ blobPath ulid → path ≠ blobPath (env.newUlid call) →
      later.world.blobs[path]? = server.world.blobs[path]?) :
    later.drive =
      { server.drive with pending := Function.update server.drive.pending ulid none } := by
  ext1
  · exact congrArg entriesOf (congrArg Db.fs db)
  · have files := @filesOf_congr server.world.db.ver server.world.blobs later.world.blobs
      fun id row found => others _ (legible.token_ne_row out found).symm
        (legible.drawn_ne_row fresh new below found)
    rw [Server.drive, db]
    exact files
  · have changed := @pendingOf_changed server.issued later.issued server.world.blobs
      later.world.blobs ulid (issued ▸ out) (fun _ _ => by rw [issued])
      (fun other different before => others _ (blobPath_injective.ne different) fun same =>
        legible.drawn_ne_token fresh new below before (blobPath_injective same).symm)
    rw [gone] at changed
    exact changed
  · exact congrArg (Db.lastId · fsTableName) db

/-- **Wherever the server stops, the drive goes on as it may.** -/
theorem Stop.attempts (fresh : env.FreshBelow horizon) (faithful : env.Faithful)
    (legible : Legible env horizon server) (permitted : Permitted env horizon server req)
    (stopped : Stop env server req stop) (allocated count : ℕ) :
    server.drive.Attempts env.toNormalization
      (⟨req, some count⟩, env.newUlid server.world.calls) none
      (Server.drive ⟨stop, server.issued, allocated⟩) := by
  have presented_out : ∀ {arg ulid}, req = .upload arg → arg.continuation = Ulid.toBytes ulid →
      ulid.toBytes ∈ server.issued := by
    rintro arg ulid rfl presented
    have nonempty : arg.continuation ≠ [] := presented ▸ Ulid.toBytes_ne_nil ulid
    exact presented ▸ permitted.honest.resolve_left nonempty
  have drive := (request_onDrive fresh faithful.transfers faithful.dated legible permitted).drive
  cases stopped with
  | done quiet =>
      have same : Server.drive ⟨(serve env server req).world, server.issued, allocated⟩ =
          (serve env server req).drive := Server.drive_congr rfl rfl quiet.symm
      rw [same, drive]
      exact .after req count _
  | grown arg key row _ asked found result ends =>
      have quiet : (serve env server req).issued = server.issued :=
        serve_quiet fun other same => by cases asked.symm.trans same
      have same : Server.drive ⟨stop, server.issued, allocated⟩ = (serve env server req).drive :=
        Server.drive_congr (by rw [ends]; rfl) (by rw [ends]; rfl) quiet.symm
      rw [same, drive]
      exact .after req count _
  | opened arg ulid drawn asked token within =>
      cases token with
      | fresh new =>
          have hidden := legible.fresh_hidden fresh
            ⟨withOpened (server.world.advance 1) (env.newUlid server.world.calls), server.issued,
              allocated⟩ rfl rfl (Nat.le_refl _)
            (Nat.lt_of_succ_le (within.trans permitted.bounded)) fun path other => by
              rw [withOpened, World.withBlobs_blobs, get_createIn, if_neg other]
              rfl
          rw [hidden]
          exact .before req count _
      | continued _ presented =>
          have part := legible.part_received
            ⟨withOpened server.world ulid, server.issued, allocated⟩
            (presented_out asked presented) rfl rfl (by rw [extendIn, List.append_nil]; rfl)
          rw [part, asked]
          exact .received arg ulid [] count _ presented List.nil_prefix
  | received arg ulid drawn asked token within =>
      cases token with
      | fresh new =>
          have token : UploadToken env server.world arg (env.newUlid server.world.calls)
              (server.world.advance 1) := .fresh new
          have hidden := legible.fresh_hidden fresh
            ⟨withReceived env (server.world.advance 1) arg (env.newUlid server.world.calls),
              server.issued, allocated⟩ rfl rfl (Nat.le_refl _)
            (lt_of_lt_of_le (Nat.lt_succ_of_lt (Nat.lt_succ_self _))
              (within.trans permitted.bounded)) fun path other => token.received_blob other
          rw [hidden]
          exact .before req count _
      | continued _ presented =>
          have part := legible.part_received
            ⟨withReceived env server.world arg ulid, server.issued, allocated⟩
            (presented_out asked presented) rfl rfl
            (received_blobs (.continued ulid presented) faithful.transfers.write)
          rw [part, asked]
          exact .received arg ulid arg.data.bytes count _ presented (List.prefix_refl _)
  | renamed arg ulid content _ asked presented complete result within =>
      have out := presented_out asked presented
      have calls : stop.calls = server.world.calls + 6 := by
        rw [result]
        rfl
      rw [calls] at within
      have saved : env.newUlid ((withReceived env server.world arg ulid).calls + 4) ≠ ulid :=
        legible.drawn_ne_token fresh (Nat.le_add_right server.world.calls 5)
          (within.trans permitted.bounded) out
      have token : UploadToken env server.world arg ulid server.world := .continued ulid presented
      have lost := legible.upload_lost fresh ⟨stop, server.issued, allocated⟩ out
        (by rw [result]; rfl) rfl
        (Nat.le_add_right server.world.calls 5) (within.trans permitted.bounded)
        (by
          rw [result]
          refine (Table.get_insert_ne _ _ (blobPath_injective.ne saved.symm)).trans ?_
          exact Table.get_erase_self _ _)
        fun path other notSaved => by
          rw [result, World.withBlobs_blobs]
          refine (Table.get_insert_ne _ _ notSaved).trans ?_
          exact (Table.get_erase_ne _ other).trans (token.received_blob other)
      rw [lost, asked]
      exact .lost arg ulid count _ presented complete

/-! ## Runs of attempts -/

/-- A server that may stop, as a service. It answers when it does not stop. -/
def attemptService (env : Env) : Service Server Attempt (Option (Except Status Response)) where
  next := survive env
  answer server label := match label.stop with
    | none => some ((handle env label.request).run server.world).result
    | some _ => none

def attemptReading (env : Env) :
    Reading Server Attempt (Option (Except Status Response)) Drive (Attempt × Ulid)
      (Option Reply) where
  state := Server.drive
  label server label := (label, env.newUlid server.world.calls)
  answer := Option.map replyOf

/-- The request of an attempt is permitted. -/
def PermittedAttempt (env : Env) (horizon : ℕ) (server : Server) (label : Attempt) : Prop :=
  Permitted env horizon server label.request

instance (env : Env) (horizon : ℕ) (server : Server) (label : Attempt) :
    Decidable (PermittedAttempt env horizon server label) :=
  decidable_of_iff (Honest server label.request ∧
      (serve env server label.request).world.calls ≤ horizon ∧
      (serve env server label.request).allocated < 2 ^ 64 - 1)
    ⟨fun ⟨honest, bounded, few⟩ => ⟨honest, bounded, few⟩,
      fun permitted => ⟨permitted.honest, permitted.bounded, permitted.few⟩⟩

/-- **A server that may stop is simulated by the drive.** -/
theorem attempts_simulated (fresh : env.FreshBelow horizon) (faithful : env.Faithful) :
    Simulates (attemptService env) (Drive.Attempts env.toNormalization) (attemptReading env)
      (PermittedAttempt env horizon) (Legible env horizon) where
  sound _ _ permitted legible := legible.survives fresh faithful.dated permitted
  step := by
    rintro server ⟨req, _ | count⟩ permitted legible
    · have onDrive :=
        request_onDrive fresh faithful.transfers faithful.dated legible permitted
      have answered := @Drive.Attempts.answered env.toNormalization server.drive req
        (env.newUlid server.world.calls)
      rw [← onDrive.drive, ← onDrive.reply] at answered
      exact answered
    · have stopped := attempt_stop legible faithful.dated req count
      exact stopped.attempts fresh faithful legible permitted _ count

/-- The server after some attempts. -/
def survived (env : Env) (labels : List Attempt) : Server := runAll (survive env) .empty labels

/-- ULIDs are fresh, clients present only tokens that they were told, and few ids are allocated. -/
structure RegularAttempts (env : Env) (horizon : ℕ) (labels : List Attempt) : Prop where
  fresh : env.FreshBelow horizon
  permitted : Guarded (survive env) (PermittedAttempt env horizon) .empty labels

/-- **A server that stops again and again goes on as the drive may.** -/
theorem server_survives_on_drive (faithful : env.Faithful) {labels : List Attempt}
    (regular : RegularAttempts env horizon labels) :
    Allowed (Drive.Attempts env.toNormalization) .empty
      ((attemptService env).labelsRead (attemptReading env) .empty labels)
      (((attemptService env).answers .empty labels).map (Option.map replyOf))
      (survived env labels).drive := by
  have ran := (attempts_simulated regular.fresh faithful).run regular.permitted (.empty env _)
  have initially : (attemptReading env).state .empty = .empty := Server.drive_empty
  rw [initially] at ran
  exact ran

/-- A file is uploaded. -/
def uploadedAttempt : List Attempt :=
  [⟨.upload { target := some ⟨[['f']]⟩, data := { bytes := [109] } }, none⟩]

/-- The server stops while something is appended to it, and before an upload is committed that came
in two messages. -/
def stoppedAttempts : List Attempt :=
  [⟨.append ⟨some ⟨[['f']], none⟩, { bytes := [110] }⟩, some 0⟩,
    ⟨.upload {
      target := some ⟨[['g']]⟩
      data := { bytes := [111] }
      incomplete := true }, none⟩,
    ⟨.upload {
      target := some ⟨[['g']]⟩
      data := { bytes := [112] }
      continuation := Ulid.toBytes (.ofNat 128 (2 ^ 127 + 7)) }, some 2⟩]

theorem stoppedAttempts_regular :
    RegularAttempts (.stamped .unchanged) 100 (uploadedAttempt ++ stoppedAttempts) where
  fresh := Env.stamped_freshBelow _ (by decide)
  permitted := by decide +kernel

/-- The second upload is lost: its token is out, and nothing is there that was received. -/
theorem stoppedAttempts_onDrive :
    Allowed (Drive.Attempts .unchanged) .empty
        ((attemptService (.stamped .unchanged)).labelsRead (attemptReading (.stamped .unchanged))
          .empty (uploadedAttempt ++ stoppedAttempts))
        (((attemptService (.stamped .unchanged)).answers .empty
          (uploadedAttempt ++ stoppedAttempts)).map (Option.map replyOf))
        (survived (.stamped .unchanged) (uploadedAttempt ++ stoppedAttempts)).drive ∧
      (survived (.stamped .unchanged) (uploadedAttempt ++ stoppedAttempts)).drive.pending
        (.ofNat 128 (2 ^ 127 + 7)) = none :=
  ⟨server_survives_on_drive (Env.stamped_faithful _) stoppedAttempts_regular, by decide +kernel⟩

theorem RegularAttempts.legible {labels : List Attempt} (dated : env.Dated)
    (regular : RegularAttempts env horizon labels) :
    Legible env horizon (survived env labels) :=
  regular.permitted.invariant
    (fun _ _ permitted legible => legible.survives regular.fresh dated permitted) (.empty env _)

/-- **Wherever the server stops, its tables are sound**: they are represented as they should be,
files and rows belong together, and no id is taken twice. -/
theorem survived_tables (dated : env.Dated) {labels : List Attempt}
    (regular : RegularAttempts env horizon labels) :
    Represented env.toNormalization (survived env labels).world.db ∧
      Owned (survived env labels).world.db ∧
      (∀ key record, RecordAt (survived env labels).world.db.fs key record →
        record.type = objTypeVersionBlob → record.latestVersion = 1 ∧
          ∃ row, (survived env labels).world.db.ver[rowKey record.id 1]? = some row) ∧
      UniqueIds NotFolder (survived env labels).world.db.fs
        ((survived env labels).world.db.lastId fsTableName) := by
  have legible := regular.legible dated
  refine ⟨⟨legible.entries, fun _ _ found => legible.blobs.rows.rowForm found⟩, legible.owned, ?_,
    legible.counted.ids⟩
  exact fun _ _ there versioned => ⟨legible.first there, legible.rowed there versioned⟩

/-- Also where an upload was not committed. -/
theorem stoppedAttempts_tables :
    Represented .unchanged
        (survived (.stamped .unchanged) (uploadedAttempt ++ stoppedAttempts)).world.db ∧
      Owned (survived (.stamped .unchanged) (uploadedAttempt ++ stoppedAttempts)).world.db :=
  have sound := survived_tables (Env.stamped_dated _) stoppedAttempts_regular
  ⟨sound.1, sound.2.1⟩

/-! ## Files -/

/-- The acts of attempts, and whether they were answered. -/
def attemptedActs (env : Env) : Server → List Attempt → List (Act × Bool)
  | _, [] => []
  | server, label :: rest =>
      (actOf env server label.request, label.stop.isNone) ::
        attemptedActs env (survive env server label) rest

/-- Some acts took effect, among them all that were answered. -/
inductive TookEffect : List (Act × Bool) → List Act → Prop
  | nil : TookEffect [] []
  | done {attempted : List (Act × Bool)} {acts : List Act} (act : Act) (answered : Bool)
      (rest : TookEffect attempted acts) : TookEffect ((act, answered) :: attempted) (act :: acts)
  | lost {attempted : List (Act × Bool)} {acts : List Act} (act : Act)
      (rest : TookEffect attempted acts) : TookEffect ((act, false) :: attempted) acts

/-- An attempt does to a file what its act says, or nothing when it is not answered. -/
theorem Drive.Attempts.file {normalization : Normalization} {drive next : Drive} {label : Attempt}
    {drawn : Ulid} {reply : Option Reply} {id : FileSystemId} {file : File}
    (attempts : drive.Attempts normalization (label, drawn) reply next)
    (older : id ≠ drive.last + 1) (there : drive.file id = some file) :
    next.file id = some (file.after id (drive.decide normalization drawn label.request).1) ∨
      label.stop.isNone = false ∧ next.file id = some file := by
  cases attempts with
  | answered req => exact .inl (Drive.perform_file older there _)
  | before req count => exact .inr ⟨rfl, there⟩
  | after req count => exact .inl (Drive.perform_file older there _)
  | received arg ulid data count presented part => exact .inr ⟨rfl, there⟩
  | lost arg ulid count presented complete => exact .inr ⟨rfl, there⟩

/-- What is in a file after some attempts. -/
theorem survive_history (fresh : env.FreshBelow horizon) (faithful : env.Faithful)
    {later : List Attempt} (legible : Legible env horizon server)
    (permitted : Guarded (survive env) (PermittedAttempt env horizon) server later)
    {id : FileSystemId} {file : File} (there : server.drive.file id = some file) :
    ∃ acts, TookEffect (attemptedActs env server later) acts ∧
      (runAll (survive env) server later).drive.file id =
        some (acts.foldl (File.after id) file) := by
  induction later generalizing server file with
  | nil => exact ⟨[], .nil, there⟩
  | cons label rest ih =>
      obtain ⟨here, onwards⟩ := permitted
      have few := (allocated_le env server label.request).trans_lt here.few
      have step := (attempts_simulated fresh faithful).step server label here legible
      have legible' := legible.survives fresh faithful.dated here
      rcases Drive.Attempts.file step (legible.file_not_next few there) there with
        changed | ⟨stopped, same⟩
      · obtain ⟨acts, took, after⟩ := ih legible' onwards changed
        exact ⟨_, .done _ _ took, after⟩
      · obtain ⟨acts, took, after⟩ := ih legible' onwards same
        rw [attemptedActs, stopped]
        exact ⟨_, .lost _ took, after⟩

/-- **A file survives.** After a server stopped again and again, a file has the contents from before
and what was appended since, with every append that was answered and maybe some that were not,
unless it was deleted. -/
theorem survived_file (faithful : env.Faithful) {before later : List Attempt}
    (regular : RegularAttempts env horizon (before ++ later)) {id : FileSystemId} {file : File}
    (there : (survived env before).drive.file id = some file) :
    ∃ acts, TookEffect (attemptedActs env (survived env before) later) acts ∧
      (survived env (before ++ later)).drive.file id = some ⟨file.recorded,
        if acts.any (Act.clears id) then none
        else file.content.map (· ++ appendedTo id acts)⟩ := by
  obtain ⟨first, second⟩ := guarded_append_iff.mp regular.permitted
  have legible := RegularAttempts.legible faithful.dated ⟨regular.fresh, first⟩
  obtain ⟨acts, took, after⟩ := survive_history regular.fresh faithful legible second there
  rw [foldl_after] at after
  refine ⟨acts, took, ?_⟩
  rw [survived, runAll_append]
  exact after

/-- What was appended when the server stopped is in the file or is not. -/
theorem stoppedAttempts_file :
    ∃ acts, TookEffect (attemptedActs (.stamped .unchanged)
        (survived (.stamped .unchanged) uploadedAttempt) stoppedAttempts) acts ∧
      (survived (.stamped .unchanged) (uploadedAttempt ++ stoppedAttempts)).drive.file 1 =
        some ⟨some 1, if acts.any (Act.clears 1) then none
          else (some [109]).map (· ++ appendedTo 1 acts)⟩ := by
  have there : (survived (.stamped .unchanged) uploadedAttempt).drive.file 1 =
      some ⟨some 1, some [109]⟩ := by
    decide +kernel
  exact survived_file (Env.stamped_faithful _) stoppedAttempts_regular there

end Yeetbox.Storage
