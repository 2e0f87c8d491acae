import Yeetbox.Properties.Crashes

/-!
# What was recorded of a file

The permissions of an upload are packed into the bits of a mode, and the file driver unpacks them
when it lists (`unixPermsOfMode_toU16`). What is recorded when a file is uploaded, in its record and
in the row of its version, is never touched again, wherever the file is moved to, whatever is
appended to it, and wherever the server stops (`attributes_fixed`).
-/

set_option autoImplicit false

namespace Yeetbox.Storage

open Library

/-- The permissions that the file driver lists for a mode. -/
def unixPermsOfMode (mode : UInt32) : UnixPermissions where
  uR := mode &&& 0o0400 > 0
  uW := mode &&& 0o0200 > 0
  uX := mode &&& 0o0100 > 0
  gR := mode &&& 0o0040 > 0
  gW := mode &&& 0o0020 > 0
  gX := mode &&& 0o0010 > 0
  oR := mode &&& 0o0004 > 0
  oW := mode &&& 0o0002 > 0
  oX := mode &&& 0o0001 > 0
  sticky := mode &&& 0o1000 > 0
  setgid := mode &&& 0o2000 > 0
  setuid := mode &&& 0o4000 > 0

/-- A mask meets a union of bits when it meets one of them. -/
theorem mask_or {one other mask : UInt32} :
    0 < (one ||| other) &&& mask ↔ 0 < one &&& mask ∨ 0 < other &&& mask := by
  have distributes : (one ||| other) &&& mask = (one &&& mask) ||| (other &&& mask) :=
    UInt32.toBitVec_inj.mp BitVec.and_or_distrib_right
  simp only [distributes, UInt32.pos_iff_ne_zero, ne_eq, UInt32.or_eq_zero_iff, not_and_or]

/-- A mask meets a bit that is set when it meets the bit. -/
theorem mask_ite {flag : Bool} {bit : UInt16} {mask : UInt32} :
    0 < (if flag then bit else 0).toUInt32 &&& mask ↔ flag = true ∧ 0 < bit.toUInt32 &&& mask := by
  cases flag <;> simp

/-- **Packed permissions are unpacked again.** -/
theorem unixPermsOfMode_toU16 (perms : UnixPermissions) :
    unixPermsOfMode (unixPermsToU16 perms).toUInt32 = perms := by
  obtain ⟨uR, uW, uX, gR, gW, gX, oR, oW, oX, setuid, setgid, sticky⟩ := perms
  rw [unixPermsOfMode, unixPermsToU16]
  congr 1 <;> simp +decide [mask_or, mask_ite]

variable {env : Env} {horizon : ℕ} {server : Server}

/-! ## What stays -/

/-- A stop leaves the tables as they were, or as they are when the request is done. -/
theorem survive_db (legible : Legible env horizon server) (dated : env.Dated) (label : Attempt) :
    (survive env server label).world.db = server.world.db ∨
      (survive env server label).world.db = (serve env server label.request).world.db := by
  obtain ⟨req, _ | count⟩ := label
  · exact .inr rfl
  · rcases (attempt_stop legible dated req count).cases_end with ⟨same, _⟩ | ⟨only, _⟩
    · exact .inr (congrArg World.db same)
    · exact .inl only.db

/-- A file with a record and a row in the tables. -/
structure Recorded (db : Db) (record : FsRecordValue) (row : Bytes) : Prop where
  there : ∃ key, RecordAt db.fs key record
  versioned : record.type = objTypeVersionBlob
  row : db.ver[rowKey record.id 1]? = some row

/-- **The record of a file and the row of its version stay as they are.** -/
theorem Recorded.survives {record : FsRecordValue} {row : Bytes}
    (recorded : Recorded server.world.db record row) (legible : Legible env horizon server)
    (dated : env.Dated) {label : Attempt} (permitted : PermittedAttempt env horizon server label) :
    Recorded (survive env server label).world.db record row := by
  rcases survive_db legible dated label with same | same
  · rw [same]
    exact recorded
  · rw [same]
    have commits : Commits env server label.request (serve env server label.request) :=
      serve_commits server label.request
    obtain ⟨key, there⟩ := recorded.there
    have few := (allocated_le env server label.request).trans_lt permitted.few
    exact ⟨commits.versioned_kept there recorded.versioned, recorded.versioned,
      commits.row_kept recorded.row (legible.counted.not_next few recorded.row)⟩

/-- An upload that creates a file records it. -/
theorem upload_records {arg : UploadArg} {result : UploadResult} (complete : arg.incomplete = false)
    (ok : ((upload env arg).run server.world).result = .ok result) :
    ∃ ulid calls path, server.world.calls ≤ calls ∧
      Recorded (serve env server (.upload arg)).world.db
        (newFileRecord env server.world.db ulid calls)
        ((newFileVersion env arg calls).bytesOf ++ path) := by
  have done := upload_ok ok
  rw [serve_upload_world]
  generalize ((upload env arg).run server.world).state = later at done
  cases done with
  | fragment ulid drawn token incomplete =>
      exact absurd (complete.symm.trans incomplete) (by decide)
  | committed target lastName ulid drawn parentId saved moved stops targeted named token complete
      walked free save =>
      refine ⟨ulid, _, _, ?_, ⟨_, recordAt_insert_iff.mpr (.inl ⟨rfl, rfl⟩)⟩, rfl,
        Table.get_insert_self _ _ _⟩
      exact token.calls_le.trans (Nat.le_succ _)

/-- The permissions of a row are those that were asked for. -/
theorem newFileVersion_perms (arg : UploadArg) (calls : ℕ) :
    unixPermsOfMode (newFileVersion env arg calls).flags.toUInt32 =
      arg.perms.getD (unixPermsOfMode 0o755) := by
  rw [newFileVersion]
  rcases arg.perms with _ | perms
  · rfl
  · exact unixPermsOfMode_toU16 perms

/-- The length of a row is that of the data when it came in one message. -/
theorem newFileVersion_recorded (arg : UploadArg) (calls : ℕ) :
    recordedOf (newFileVersion env arg calls).length =
      if arg.continuation = [] then some arg.data.bytes.length else none := by
  rw [newFileVersion]
  dsimp only
  split
  · exact recordedOf_ofNat arg.data.bound
  · rfl

/-- **What was recorded of a file when it was uploaded stays for good**: its record, under whatever
key, and its row with the owner, the permissions and the length, wherever the server stops. -/
theorem attributes_fixed (dated : env.Dated) {before later : List Attempt} {arg : UploadArg}
    {result : UploadResult}
    (regular : RegularAttempts env horizon (before ++ ⟨.upload arg, none⟩ :: later))
    (complete : arg.incomplete = false)
    (ok : ((upload env arg).run (survived env before).world).result = .ok result) :
    ∃ ulid calls path, (survived env before).world.calls ≤ calls ∧
      Recorded (survived env (before ++ ⟨.upload arg, none⟩ :: later)).world.db
        (newFileRecord env (survived env before).world.db ulid calls)
        ((newFileVersion env arg calls).bytesOf ++ path) ∧
      unixPermsOfMode (newFileVersion env arg calls).flags.toUInt32 =
        arg.perms.getD (unixPermsOfMode 0o755) ∧
      recordedOf (newFileVersion env arg calls).length =
        if arg.continuation = [] then some arg.data.bytes.length else none := by
  obtain ⟨ulid, calls, path, clock, recorded⟩ := upload_records complete ok
  obtain ⟨first, here, after⟩ := guarded_append_iff.mp regular.permitted
  have legible : Legible env horizon (survived env before) :=
    RegularAttempts.legible dated ⟨regular.fresh, first⟩
  refine ⟨ulid, calls, path, clock, ?_, newFileVersion_perms arg calls,
    newFileVersion_recorded arg calls⟩
  have kept : ∀ server label, PermittedAttempt env horizon server label →
      Legible env horizon server ∧ Recorded server.world.db
        (newFileRecord env (survived env before).world.db ulid calls)
        ((newFileVersion env arg calls).bytesOf ++ path) →
      Legible env horizon (survive env server label) ∧
        Recorded (survive env server label).world.db
          (newFileRecord env (survived env before).world.db ulid calls)
          ((newFileVersion env arg calls).bytesOf ++ path) := by
    rintro server label permitted ⟨legible, recorded⟩
    exact ⟨legible.survives regular.fresh dated permitted,
      recorded.survives legible dated permitted⟩
  rw [survived, runAll_append, runAll_cons]
  exact (after.invariant kept ⟨legible.survives regular.fresh dated here, recorded⟩).2

/-- A file with permissions of its own is uploaded, and renamed while the server stops. -/
def uploadPrivate : UploadArg where
  target := some ⟨[['h']]⟩
  uid := 7
  perms := some ⟨true, true, false, false, false, false, false, false, false, false, false, true⟩
  data := { bytes := [113] }

theorem uploadPrivate_regular :
    RegularAttempts (.stamped .unchanged) 100 ([] ++ ⟨.upload uploadPrivate, none⟩ ::
      [⟨.move ⟨some ⟨[['h']], none⟩, [['i']]⟩, some 0⟩]) where
  fresh := Env.stamped_freshBelow _ (by decide)
  permitted := by decide +kernel

theorem uploadPrivate_fixed :
    ∃ ulid calls path, World.empty.calls ≤ calls ∧
      Recorded (survived (.stamped .unchanged) ([] ++ ⟨.upload uploadPrivate, none⟩ ::
          [⟨.move ⟨some ⟨[['h']], none⟩, [['i']]⟩, some 0⟩])).world.db
        (newFileRecord (.stamped .unchanged) World.empty.db ulid calls)
        ((newFileVersion (.stamped .unchanged) uploadPrivate calls).bytesOf ++ path) ∧
      unixPermsOfMode (newFileVersion (.stamped .unchanged) uploadPrivate calls).flags.toUInt32 =
        uploadPrivate.perms.getD (unixPermsOfMode 0o755) ∧
      recordedOf (newFileVersion (.stamped .unchanged) uploadPrivate calls).length = some 1 := by
  have ok : ((upload (.stamped .unchanged) uploadPrivate).run
      (survived (.stamped .unchanged) []).world).result = .ok {} := by
    decide +kernel
  exact attributes_fixed (Env.stamped_dated _) uploadPrivate_regular rfl ok

end Yeetbox.Storage
