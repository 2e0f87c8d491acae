import Yeetbox.Library.Triple
import Yeetbox.Storage.Representation

/-!
# What the representation is for

Readers decode the tables without a check: they slice values, and take bytes as text by
`from_utf8_unchecked`. Each handler is proved statement by statement to end, from tables that are
represented as they should be, neither with a slice out of bounds nor at a corrupted record nor with
text that is none (`handle_orderly`). Every reachable state has such tables
(`representation_holds`).
-/

set_option autoImplicit false

namespace Yeetbox.Storage

open Library Handler

/-- A slice out of bounds, the exit for a corrupted record, and the use of bytes that are no
text. -/
def corruptions : List Status :=
  [.panic, .internal "corrupted fs record", .undefinedBehaviour]

/-- An error that is none of these. -/
def Orderly (err : Status) : Prop := err ∉ corruptions

instance (err : Status) : Decidable (Orderly err) := inferInstanceAs (Decidable (err ∉ corruptions))

variable {env : Env}

theorem orderly_invalidArgument (message : String) : Orderly (.invalidArgument message) := by
  simp [Orderly, corruptions]

/-- The tables are represented as they should be. -/
abbrev Intact (env : Env) (world : World) : Prop := Represented env.toNormalization world.db

/-! ## Walks and decodings -/

section Decoding

variable {world : World} (intact : Intact env world)
include intact

theorem Intact.walk_orderly {spell : Name → Name} {notFolder : String} {path : List Name}
    (err : Status) (failed : walkFolders spell notFolder world.db.fs path = .error err) :
    Orderly err := by
  have one := walkFolders_error failed
  rw [walkErrors, List.mem_cons, List.mem_cons, List.mem_singleton] at one
  rcases one with rfl | rfl | rfl
  · exact orderly_invalidArgument _
  · exact absurd failed intact.walk
  · exact orderly_invalidArgument _

theorem Intact.record_decoded {key value : Bytes} (found : world.db.fs[key]? = some value)
    (missing : fsRecordFromBytes value = none) : Orderly .panic :=
  absurd missing (intact.entry key value found).decoded

theorem Intact.version_decoded {key value : Bytes} (found : world.db.ver[key]? = some value)
    (missing : versionValueFromBytes value = none) : Orderly .panic :=
  absurd missing (intact.row key value found).decoded

end Decoding

/-! ## Calls -/

section Calls

theorem openExisting_orderly (path : Bytes) :
    Triple (Intact env) (openExisting path) (fun _ => Intact env) Orderly :=
  .get_bind fun _ _ => (Triple.orFail fun _ => by decide).weaken fun _ _ known => known.1

theorem rename_orderly (source target : Bytes) :
    Triple (Intact env) (rename source target) (fun _ => Intact env) Orderly :=
  .bind (openExisting_orderly source) fun _ => .effect fun _ intact => intact

theorem removeFile_orderly (path : Bytes) :
    Triple (Intact env) (removeFile path) (fun _ => Intact env) Orderly :=
  .bind (openExisting_orderly path) fun _ => .effect fun _ intact => intact

theorem copyFile_orderly (source target : Bytes) :
    Triple (Intact env) (copyFile source target) (fun _ => Intact env) Orderly :=
  .bind (openExisting_orderly source) fun _ => .effect fun _ intact => intact

theorem newUlid_orderly : Triple (Intact env) (newUlid env) (fun _ => Intact env) Orderly :=
  .draw fun _ intact => intact

theorem timeNow_orderly : Triple (Intact env) (timeNow env) (fun _ => Intact env) Orderly :=
  .draw fun _ intact => intact

theorem commit_orderly (db : Db) : Triple (Intact env) (commit db) (fun _ _ => True) Orderly :=
  .effect fun _ _ => trivial

theorem write_orderly (path data : Bytes) :
    Triple (Intact env) (write env path data) (fun _ => Intact env) Orderly :=
  .effect fun _ intact => intact

theorem read_orderly (size : ℕ) (rest : Bytes) :
    Triple (Intact env) (read env size rest) (fun _ => Intact env) Orderly :=
  .draw fun _ intact => intact

theorem fileSize_orderly (path : Bytes) :
    Triple (Intact env) (fileSize path) (fun _ => Intact env) Orderly :=
  .get_bind fun _ _ => .pure fun _ intact => intact

theorem fromUtf8Unchecked_orderly {bytes : Bytes} (text : (ofUtf8 bytes).isNone = false) :
    Triple (Intact env) (fromUtf8Unchecked bytes) (fun _ => Intact env) Orderly :=
  .rejectIf_bind (fun none => absurd (text.symm.trans none) Bool.false_ne_true) fun _ =>
    .pure fun _ intact => intact

end Calls

/-! ## Handlers -/

theorem makeDirectory_orderly (req : MakeDirectoryArg) :
    Triple (Intact env) (makeDirectory env req) (fun _ _ => True) Orderly := by
  rw [makeDirectory]
  refine .orFail_bind (fun _ => by decide) fun target _ => ?_
  refine .orFail_bind (fun _ => by decide) fun lastName _ => .get_bind fun world intact => ?_
  refine .ofExcept_bind intact.walk_orderly fun parentId _ => ?_
  refine .rejectIf_bind (fun _ => by decide) fun _ => ?_
  refine .rejectIf_bind (fun _ => by decide) fun _ => ?_
  exact commit_orderly _

theorem uploadUlid_orderly (req : UploadArg) :
    Triple (Intact env) (uploadUlid env req) (fun _ => Intact env) Orderly := by
  rw [uploadUlid]
  split
  · exact newUlid_orderly
  · exact (Triple.orFail fun _ => by decide).weaken fun _ _ known => known.1

theorem saveBlob_orderly (singleMessageBlob : Bool) (path : Bytes) :
    Triple (Intact env) (saveBlob env singleMessageBlob path) (fun _ => Intact env) Orderly := by
  rw [saveBlob]
  split
  · exact .pure fun _ intact => intact
  · exact newUlid_orderly.bind fun _ => (rename_orderly _ _).bind fun _ =>
      .pure fun _ intact => intact

theorem previousRecord_orderly {world : World} (intact : Intact env world) {key : Bytes} :
    Triple (Intact env) (previousRecord world.db.fs[key]?) (fun _ => Intact env) Orderly := by
  cases found : world.db.fs[key]? with
  | none => exact .pure fun _ still => still
  | some value =>
      exact .orFail_bind (intact.record_decoded found) fun _ _ => .pure fun _ still => still

theorem finishUpload_orderly (req : UploadArg) (target : FileId) (lastName : Name) (ulid : Ulid) :
    Triple (Intact env) (finishUpload env req target lastName ulid) (fun _ _ => True) Orderly := by
  rw [finishUpload]
  refine .get_bind fun world intact => .ofExcept_bind intact.walk_orderly fun parentId _ => ?_
  refine .rejectIf_bind (fun _ => by decide) fun _ => ?_
  refine (previousRecord_orderly intact).bind fun previous => ?_
  refine timeNow_orderly.bind fun _ => timeNow_orderly.bind fun _ => ?_
  refine timeNow_orderly.bind fun _ => ?_
  refine .rejectIf_bind (fun _ => by decide) fun _ => timeNow_orderly.bind fun _ => ?_
  refine (saveBlob_orderly _ _).bind fun _ => ?_
  exact (commit_orderly _).bind fun _ => .pure fun _ _ => trivial

theorem upload_orderly (req : UploadArg) :
    Triple (Intact env) (upload env req) (fun _ _ => True) Orderly := by
  rw [upload]
  refine .orFail_bind (fun _ => by decide) fun target _ => ?_
  refine .orFail_bind (fun _ => by decide) fun lastName _ => ?_
  refine (uploadUlid_orderly req).bind fun ulid => ?_
  have created : Triple (Intact env) (openCreate (blobPath ulid)) (fun _ => Intact env) Orderly :=
    .effect fun _ intact => intact
  refine created.bind fun _ => (write_orderly _ _).bind fun _ => ?_
  split
  · exact .pure fun _ _ => trivial
  · exact finishUpload_orderly req target lastName ulid

theorem append_orderly (req : AppendArg) :
    Triple (Intact env) (append env req) (fun _ _ => True) Orderly := by
  rw [append]
  refine .orFail_bind (fun _ => by decide) fun target _ => ?_
  refine .orFail_bind (fun _ => by decide) fun fileName _ => .get_bind fun world intact => ?_
  refine .ofExcept_bind intact.walk_orderly fun parentId _ => ?_
  refine .orFail_bind (fun _ => by decide) fun value found => ?_
  refine .orFail_bind (intact.record_decoded found) fun record _ => ?_
  refine .rejectIf_bind (fun _ => by decide) fun _ => ?_
  refine .rejectIf_bind (fun _ => by decide) fun _ => ?_
  refine .orFail_bind (fun _ => by decide) fun row there => ?_
  refine .orFail_bind (intact.version_decoded there) fun version _ => ?_
  refine (fromUtf8Unchecked_orderly (intact.row _ _ there).text).bind fun blob => ?_
  refine (openExisting_orderly _).bind fun _ => (write_orderly _ _).bind fun _ => ?_
  have timed : Triple (Intact env) (timeNow env >>= fun _ => pure ()) (fun _ _ => True) Orderly :=
    timeNow_orderly.bind fun _ => .pure fun _ _ => trivial
  dsimp only
  split
  · exact .bind (.pure fun _ still => still) fun _ => timed
  · exact (fileSize_orderly _).bind fun _ => timed

theorem downloadVersion_orderly {world : World} (intact : Intact env world) {key row : Bytes}
    (there : world.db.ver[key]? = some row) (offset length : UInt64) :
    Triple (Intact env) (downloadVersion env offset length row) (fun _ _ => True) Orderly := by
  rw [downloadVersion]
  refine .orFail_bind (intact.version_decoded there) fun version _ => ?_
  refine .rejectIf_bind (fun _ => by decide) fun _ => ?_
  refine (fromUtf8Unchecked_orderly (intact.row _ _ there).text).bind fun blob => ?_
  refine (openExisting_orderly _).bind fun content => ?_
  have page : ∀ size rest (form : Bytes → DownloadResult),
      Triple (Intact env) (read env size rest >>= fun data => pure (form data)) (fun _ _ => True)
        Orderly :=
    fun size rest form => (read_orderly size rest).bind fun _ => .pure fun _ _ => trivial
  dsimp only
  split
  · exact .rejectIf_bind (fun _ => by decide) fun _ => page _ _ _
  · exact page _ _ _

theorem download_orderly (req : DownloadArg) :
    Triple (Intact env) (download env req) (fun _ _ => True) Orderly := by
  rw [download]
  refine .orFail_bind (fun _ => by decide) fun target _ => ?_
  refine .orFail_bind (fun _ => by decide) fun fileName _ => .get_bind fun world intact => ?_
  refine .ofExcept_bind intact.walk_orderly fun parentId _ => ?_
  refine .orFail_bind (fun _ => by decide) fun value found => ?_
  refine .orFail_bind (intact.record_decoded found) fun record _ => ?_
  refine .rejectIf_bind (fun _ => by decide) fun _ => ?_
  refine .rejectIf_bind (fun _ => by decide) fun _ => ?_
  refine .orFail_bind (fun _ => by decide) fun row there => ?_
  exact downloadVersion_orderly intact there _ _

/-- One round of the loop over the versions ends orderly, and leaves rows of the table. -/
theorem deleteVersion_orderly {world : World} (intact : Intact env world) (fileId : FileSystemId)
    (version : FsVersion) {ver : Table Bytes Bytes} (within : Within ver world.db.ver) :
    Triple (Intact env) (deleteVersion fileId version ver)
      (fun rest later => Intact env later ∧ Within rest world.db.ver) Orderly := by
  rw [deleteVersion]
  split
  · exact .pure fun _ still => ⟨still, within⟩
  · rename_i row found
    split
    · have text := (intact.row _ row (within _ row found)).text
      refine (fromUtf8Unchecked_orderly text).bind fun _ => (removeFile_orderly _).bind fun _ => ?_
      exact .pure fun _ still => ⟨still, within.erase _⟩
    · exact .pure fun _ still => ⟨still, within.erase _⟩

theorem deleteVersions_orderly {world : World} (intact : Intact env world)
    (fileId : FileSystemId) (count : ℕ) {ver : Table Bytes Bytes}
    (within : Within ver world.db.ver) :
    Triple (Intact env) (deleteVersions fileId count ver) (fun _ => Intact env) Orderly := by
  induction count generalizing ver with
  | zero => exact (deleteVersion_orderly intact fileId 0 within).weaken fun _ _ known => known.1
  | succ earlier ih =>
      refine (deleteVersion_orderly intact fileId _ within).bind fun _ => ?_
      exact .given fun rest => ih rest

theorem delete_orderly (req : DeleteArg) :
    Triple (Intact env) (delete env req) (fun _ _ => True) Orderly := by
  rw [delete]
  refine .orFail_bind (fun _ => by decide) fun target _ => ?_
  refine .orFail_bind (fun _ => by decide) fun fileName _ => .get_bind fun world intact => ?_
  refine .ofExcept_bind intact.walk_orderly fun parentId _ => ?_
  refine .orFail_bind (fun _ => by decide) fun value found => ?_
  refine .orFail_bind (intact.record_decoded found) fun record _ => ?_
  refine .rejectIf_bind (fun _ => by decide) fun _ => ?_
  split
  · exact (commit_orderly _).bind fun _ => .pure fun _ _ => trivial
  · have loop := deleteVersions_orderly intact record.id record.latestVersion.toNat
      fun _ _ (there : world.db.ver[_]? = some _) => there
    exact loop.bind fun _ => .pure fun _ _ => trivial

theorem list_orderly (req : ListArg) :
    Triple (Intact env) (list env req) (fun _ _ => True) Orderly := by
  rw [list]
  refine .orFail_bind (fun _ => by decide) fun target _ => .get_bind fun world intact => ?_
  refine .ofExcept_bind intact.walk_orderly fun parentId _ => ?_
  refine .ofExcept_bind (fun err failed => ?_) fun entries _ => ?_
  · exact absurd failed (intact.listed _ _ err)
  exact .pure fun _ _ => trivial

theorem move_orderly (req : MoveArg) :
    Triple (Intact env) (move env req) (fun _ _ => True) Orderly := by
  rw [move]
  refine .orFail_bind (fun _ => by decide) fun target _ => ?_
  refine .orFail_bind (fun _ => by decide) fun destFileName _ => ?_
  refine .orFail_bind (fun _ => by decide) fun fileName _ => .get_bind fun world intact => ?_
  refine .ofExcept_bind intact.walk_orderly fun srcParentId _ => ?_
  refine .ofExcept_bind intact.walk_orderly fun destParentId _ => ?_
  refine .orFail_bind (fun _ => by decide) fun value found => ?_
  refine .orFail_bind (intact.record_decoded found) fun record _ => ?_
  refine .rejectIf_bind (fun _ => by decide) fun _ => ?_
  refine .rejectIf_bind (fun _ => by decide) fun _ => ?_
  exact commit_orderly _

theorem copyBlob_orderly (record : FsRecordValue) (destUlid : Ulid) :
    Triple (Intact env) (copyBlob record destUlid) (fun _ => Intact env) Orderly := by
  rw [copyBlob]
  split
  · exact copyFile_orderly _ _
  · split
    · exact .pure fun _ still => still
    · split
      · exact .pure fun _ still => still
      · exact .fail (by decide)

theorem copy_orderly (req : CopyArg) :
    Triple (Intact env) (copy env req) (fun _ _ => True) Orderly := by
  rw [copy]
  refine .orFail_bind (fun _ => by decide) fun target _ => ?_
  refine .orFail_bind (fun _ => by decide) fun destFileName _ => ?_
  refine .orFail_bind (fun _ => by decide) fun fileName _ => .get_bind fun world intact => ?_
  refine .ofExcept_bind intact.walk_orderly fun srcParentId _ => ?_
  refine .ofExcept_bind intact.walk_orderly fun destParentId _ => ?_
  refine .orFail_bind (fun _ => by decide) fun value found => ?_
  refine .orFail_bind (intact.record_decoded found) fun record _ => newUlid_orderly.bind fun _ => ?_
  refine (copyBlob_orderly record _).bind fun _ => timeNow_orderly.bind fun _ => ?_
  refine .rejectIf_bind (fun _ => by decide) fun _ => ?_
  exact commit_orderly _

/-- **No handler leaves by a corruption from tables that are represented as they should be.** -/
theorem handle_orderly (req : Request) :
    Triple (Intact env) (handle env req) (fun _ _ => True) Orderly := by
  cases req with
  | makeDirectory arg => exact (makeDirectory_orderly arg).map fun _ _ _ => trivial
  | upload arg => exact (upload_orderly arg).map fun _ _ _ => trivial
  | append arg => exact (append_orderly arg).map fun _ _ _ => trivial
  | download arg => exact (download_orderly arg).map fun _ _ _ => trivial
  | delete arg => exact (delete_orderly arg).map fun _ _ _ => trivial
  | list arg => exact (list_orderly arg).map fun _ _ _ => trivial
  | move arg => exact (move_orderly arg).map fun _ _ _ => trivial
  | copy arg => exact (copy_orderly arg).map fun _ _ _ => trivial

/-- **The tables of every reachable state are represented as they should be, and no request leaves
by a corruption there.** -/
theorem representation_holds (env : Env) (requests : List Request) :
    Represented env.toNormalization (serverAfter env requests).world.db ∧
      ∀ req, ∀ err ∈ corruptions,
        ((handle env req).run (serverAfter env requests).world).result ≠ .error err := by
  have represented := serverAfter_represented env requests
  refine ⟨represented, fun req err corrupted failed => ?_⟩
  exact (handle_orderly req).error _ represented err failed corrupted

end Yeetbox.Storage
