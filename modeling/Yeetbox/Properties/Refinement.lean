import Yeetbox.Properties.ReadSteps
import Yeetbox.Properties.UploadSteps

/-!
# The storage implements the drive

Every request is answered on the drive as by the server (`request_onDrive`), so the storage
implements the drive (`storage_implements`): in every run the server is read as the drive that the
requests lead to, and the results are read as the answers of the drive (`server_refines_drive`).
What clients have to respect is that they present only tokens that were issued.
-/

set_option autoImplicit false

namespace Yeetbox.Storage

open Library

variable {env : Env} {horizon : ℕ} {server : Server}

/-- The storage as a service. -/
def storageService (env : Env) : Service Server Request (Except Status Response) where
  next := serve env
  answer server req := ((handle env req).run server.world).result

/-- A server is read as a drive, a request together with the ULID that would be drawn next, and a
result as what the client is told. -/
def driveReading (env : Env) :
    Reading Server Request (Except Status Response) Drive (Request × Ulid) Reply where
  state := Server.drive
  label server req := (req, env.newUlid server.world.calls)
  answer := replyOf

/-- **Every request is answered on the drive as by the server.** -/
theorem request_onDrive (fresh : env.FreshBelow horizon) (transfers : env.TransfersAll)
    (dated : env.Dated) (legible : Legible env horizon server) {req : Request}
    (permitted : Permitted env horizon server req) : OnDrive env server req := by
  cases req with
  | makeDirectory arg => exact makeDirectory_onDrive fresh legible permitted
  | upload arg => exact upload_onDrive fresh legible transfers.write permitted
  | append arg => exact append_onDrive fresh legible transfers.write permitted
  | download arg => exact download_onDrive legible transfers arg
  | delete arg => exact delete_onDrive legible fresh permitted
  | list arg =>
      exact list_onDrive legible ((allocated_le env server _).trans_lt permitted.few) arg
  | move arg => exact move_onDrive legible fresh permitted
  | copy arg => exact copy_onDrive legible fresh dated permitted

/-- **The storage implements the drive.** -/
theorem storage_implements (fresh : env.FreshBelow horizon) (transfers : env.TransfersAll)
    (dated : env.Dated) :
    Implements (storageService env) (driveService env.toNormalization) (driveReading env)
      (Permitted env horizon) (Legible env horizon) where
  sound _ _ permitted legible := legible.served fresh permitted
  state _ _ permitted legible :=
    (request_onDrive fresh transfers dated legible permitted).drive
  answer _ _ permitted legible :=
    (request_onDrive fresh transfers dated legible permitted).reply

/-! ## Runs -/

/-- Every ULID that is drawn in a run is fresh, clients present only issued tokens, and few ids are
allocated. -/
structure Regular (env : Env) (requests : List Request) : Prop where
  fresh : env.FreshBelow (serverAfter env requests).world.calls
  honest : Guarded (serve env) Honest .empty requests
  few : (serverAfter env requests).allocated < 2 ^ 64 - 1

/-- What the environment is taken to do: reads and writes transfer everything, and ULIDs carry the
time. -/
structure Env.Faithful (env : Env) : Prop where
  transfers : env.TransfersAll
  dated : env.Dated

variable {requests : List Request}

theorem Regular.permitted (regular : Regular env requests) :
    Guarded (serve env) (Permitted env (serverAfter env requests).world.calls) .empty requests :=
  permitted_of_honest regular.honest regular.few

theorem Regular.legible (regular : Regular env requests) :
    Legible env (serverAfter env requests).world.calls (serverAfter env requests) :=
  regular.permitted.invariant (fun _ _ permitted legible => legible.served regular.fresh permitted)
    (.empty env _)

/-- The requests of a run, with the ULIDs that were drawn next. -/
def drawnWith (env : Env) (requests : List Request) : List (Request × Ulid) :=
  (storageService env).labelsRead (driveReading env) .empty requests

/-- **In every run the server goes on and answers as the drive does.** -/
theorem server_refines_drive (faithful : env.Faithful) (regular : Regular env requests) :
    (serverAfter env requests).drive =
        runAll (driveService env.toNormalization).next .empty (drawnWith env requests) ∧
      ((storageService env).answers .empty requests).map replyOf =
        (driveService env.toNormalization).answers .empty (drawnWith env requests) := by
  have implements := storage_implements regular.fresh faithful.transfers faithful.dated
  have initially : (driveReading env).state .empty = .empty := Server.drive_empty
  have ran := implements.run regular.permitted (.empty env _)
  rw [initially] at ran
  exact ran

/-! ## A run -/

/-- An environment whose ULIDs carry the time is one that the drive takes for granted. -/
theorem Env.stamped_faithful (normalization : Normalization) :
    (Env.stamped normalization).Faithful where
  transfers := ⟨fun _ _ => rfl, fun _ _ => rfl⟩
  dated := Env.stamped_dated normalization

theorem Env.stamped_freshBelow (normalization : Normalization) {horizon : ℕ}
    (bounded : horizon ≤ 2 ^ 80) : (Env.stamped normalization).FreshBelow horizon := by
  intro first second firstBelow secondBelow same
  have numbers := congrArg BitVec.toNat same
  simp only [Env.stamped, BitVec.toNat_ofNat] at numbers
  rw [Nat.mod_eq_of_lt (by omega : first < 2 ^ 80), Nat.mod_eq_of_lt (by omega : second < 2 ^ 80),
    Nat.mod_eq_of_lt (by omega), Nat.mod_eq_of_lt (by omega)] at numbers
  omega

/-- A file that is uploaded in two messages into a folder, grows, is moved, copied and deleted. -/
def driveRequests : List Request :=
  [.makeDirectory ⟨some ⟨[['a']]⟩⟩,
    .upload {
      target := some ⟨[['a'], ['b']]⟩
      data := { bytes := [91] }
      incomplete := true },
    .upload {
      target := some ⟨[['a'], ['b']]⟩
      data := { bytes := [92] }
      continuation := Ulid.toBytes (.ofNat 128 (2 ^ 127)) },
    .append ⟨some ⟨[['a'], ['b']], none⟩, { bytes := [93] }⟩,
    .move ⟨some ⟨[['a'], ['b']], none⟩, [['c']]⟩,
    .copy ⟨some ⟨[['c']], none⟩, [['a'], ['b']]⟩,
    .download ⟨some ⟨[['c']], none⟩, 1, 2⟩,
    .list ⟨some ⟨[['a']], none⟩⟩,
    .delete ⟨some ⟨[['c']], none⟩⟩,
    .upload { target := some ⟨[['c']]⟩, data := { bytes := [94] } }]

theorem driveRequests_regular : Regular (.stamped .unchanged) driveRequests where
  fresh := Env.stamped_freshBelow _ (by decide +kernel)
  honest := by decide +kernel
  few := by decide +kernel

/-- The run goes as it does on the drive, and three objects come of it. -/
theorem driveRequests_refine :
    ((serverAfter (.stamped .unchanged) driveRequests).drive =
        runAll (driveService .unchanged).next .empty
          (drawnWith (.stamped .unchanged) driveRequests) ∧
      ((storageService (.stamped .unchanged)).answers .empty driveRequests).map replyOf =
        (driveService .unchanged).answers .empty
          (drawnWith (.stamped .unchanged) driveRequests)) ∧
      (serverAfter (.stamped .unchanged) driveRequests).allocated = 3 :=
  ⟨server_refines_drive (Env.stamped_faithful _) driveRequests_regular, by decide +kernel⟩

end Yeetbox.Storage
