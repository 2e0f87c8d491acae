import Yeetbox.Properties.Steps

/-!
# Requests with a target on the drive

An append, a deletion, a move and a copy first look for their target, on the server as on the drive
(`Legible.target_cases`). What follows depends on the record that they find: an append and a
deletion change the contents of a file, a deletion of anything else and a move change entries, and a
copy adds one. Each of them is answered on the drive as by the server.
-/

set_option autoImplicit false

namespace Yeetbox.Storage

open Library Handler

variable {env : Env} {horizon : ℕ} {server : Server} {world : World}

/-! ## Looking for the target -/

section DecideOn

variable {drive : Drive} {normalization : Normalization}
  {act : Place → Entry → Option (Act × Reply)}

theorem decideOn_missing {target : RequestedFileId}
    (nowhere : drive.target normalization target = none) :
    drive.decideOn normalization (some target) act = (.rest, .refused) := by
  rw [Drive.decideOn, Option.bind_some, nowhere]
  rfl

theorem decideOn_found {target : RequestedFileId} {place : Place} {entry : Entry}
    (found : drive.target normalization target = some (place, entry)) :
    drive.decideOn normalization (some target) act = (act place entry).getD (.rest, .refused) := by
  rw [Drive.decideOn, Option.bind_some, found]
  rfl

end DecideOn

/-! ## Changing the blob of a row -/

/-- The path in a row is text, and is taken as it is. -/
theorem blobPath_text (ulid : Ulid) :
    ∃ text, blobPath ulid = utf8 text ∧ inBlobs (utf8 text) = blobPath ulid := by
  have path := blobPath_eq_utf8 ulid
  exact ⟨_, path, by rw [← path, inBlobs_blobPath]⟩

/-- **Changing the blob of one row changes one file on the drive.** -/
theorem Legible.drive_blob_changed (legible : Legible env horizon server) {later : Server}
    {id : FileSystemId} {row : Bytes} (db : later.world.db = server.world.db)
    (issued : later.issued = server.issued)
    (found : server.world.db.ver[rowKey id 1]? = some row)
    (others : ∀ path, path ≠ inBlobs (row.drop versionValueSize) →
      later.world.blobs[path]? = server.world.blobs[path]?) :
    later.drive = { server.drive with
      file := Function.update server.drive.file id (fileOf later.world.blobs row) } := by
  ext1
  · exact congrArg entriesOf (congrArg Db.fs db)
  · have changed := @filesOf_changed server.world.db.ver server.world.blobs later.world.blobs id row
      found fun other row' different found' =>
        others _ (legible.row_ne_row different found found')
    rw [Server.drive, db]
    exact changed
  · rw [Server.drive, issued]
    exact pendingOf_congr fun ulid out => others _ (legible.token_ne_row out found)
  · exact congrArg (Db.lastId · fsTableName) db

/-! ## Appending -/

/-- An append without a record at its target is refused. -/
theorem append_missing {target : RequestedFileId} {data : Payload}
    (nothing : ∀ key record, keyOfPath env.toNormalization world.db.fs target.path = some key →
      ¬ RecordAt world.db.fs key record) :
    ∃ err, ((append env ⟨some target, data⟩).run world).result = .error err := by
  have cases := append_cases env world ⟨some target, data⟩
  generalize (append env ⟨some target, data⟩).run world = outcome at cases ⊢
  cases cases with
  | refused err => exact ⟨err, rfl⟩
  | appended target' fileKey record path content later targeted resolved head there result =>
      cases targeted
      exact absurd head.there (nothing fileKey record resolved)

/-- An append to a folder, a copy, or a file without its blob is refused. -/
theorem appendToRecord_refused {record : FsRecordValue} {ver : Table Bytes Bytes}
    {version : Option RequestedFileVersion}
    (refused : isReadableObjType record.type = false ∨
      (version.any fun version => version.major != record.latestVersion) = true ∨
      ver[rowKey record.id record.latestVersion]? = none ∨
      ∃ version shown, ver[rowKey record.id record.latestVersion]? =
          some (VersionRecordValue.bytesOf version ++ utf8 shown) ∧
        world.blobs[inBlobs (utf8 shown)]? = none) (data : Payload) :
    ∃ err, ((appendToRecord env ver record version data).run world).result = .error err := by
  rw [appendToRecord]
  rcases readable : isReadableObjType record.type with _ | _
  · exact ⟨_, rfl⟩
  rw [Bool.not_true, run_rejectIf_false_bind]
  by_cases outdated : (version.any fun version => version.major != record.latestVersion) = true
  · rw [outdated]
    exact ⟨_, rfl⟩
  rcases refused with unreadable | outdated' | noRow | ⟨version, shown, row, noBlob⟩
  · rw [readable] at unreadable
    cases unreadable
  · exact absurd outdated' outdated
  all_goals rw [Bool.not_eq_true] at outdated
  all_goals rw [outdated, run_rejectIf_false_bind]
  · rw [noRow]
    exact ⟨_, rfl⟩
  · rw [row, run_orFail_some_bind, versionValueFromBytes_append, run_orFail_some_bind,
      drop_versionValue_append, run_fromUtf8Unchecked_bind_utf8,
      run_openExisting_bind_missing noBlob]
    exact ⟨_, rfl⟩

section Requests

variable (fresh : env.FreshBelow horizon) (legible : Legible env horizon server)
include fresh legible

omit fresh in
/-- An append to a file with its contents makes them longer. -/
theorem appended_onDrive (writes : ∀ call size, env.write call size = size)
    {target : RequestedFileId} {data : Payload} {place : Place} {record : FsRecordValue}
    {shown : Name} {version : VersionRecordValue} {call : ℕ} {content : Bytes}
    (resolved : keyOfPath env.toNormalization server.world.db.fs target.path = some place.key)
    (there : RecordAt server.world.db.fs place.key record)
    (current : target.versionIsNot record.latestVersion = false)
    (asked : server.drive.target env.toNormalization target =
      some (place, ⟨shown, .file record.id⟩))
    (readable : isReadableObjType record.type = true)
    (row : server.world.db.ver[rowKey record.id 1]? =
      some (version.bytesOf ++ blobPath (env.newUlid call)))
    (file : server.drive.file record.id = some ⟨recordedOf version.length, some content⟩)
    (blob : server.world.blobs[blobPath (env.newUlid call)]? = some content) :
    OnDrive env server (.append ⟨some target, data⟩) := by
  obtain ⟨text, path, opens⟩ := blobPath_text (env.newUlid call)
  have found := row
  rw [path, ← legible.first there] at found
  rw [← opens] at blob
  have ran := run_append_record env resolved there target.version data
  rw [run_appendToRecord_found env readable current found blob data, opens] at ran
  rw [opens] at blob
  have handled : (handle env (.append ⟨some target, data⟩)).run server.world = _ :=
    congrArg (Outcome.map _) ran
  have world : (serve env server (.append ⟨some target, data⟩)).world =
      (withAppended env server.world (blobPath (env.newUlid call)) data.bytes).advance 1 :=
    congrArg Outcome.state handled
  have issued : (serve env server (.append ⟨some target, data⟩)).issued = server.issued := by
    rw [serve, Server.answered, handled]
    exact List.append_nil _
  have blobs : (serve env server (.append ⟨some target, data⟩)).world.blobs =
      extendIn server.world.blobs (blobPath (env.newUlid call)) data.bytes := by
    rw [world, World.advance_blobs, withAppended, writes, List.take_length]
    rfl
  have decided : server.drive.decideAppend env.toNormalization ⟨some target, data⟩ =
      (.append record.id data.bytes, .done) := by
    refine (decideOn_found asked).trans ?_
    dsimp only
    rw [file]
    rfl
  have changed := @Legible.drive_blob_changed _ _ _ legible
    (serve env server (.append ⟨some target, data⟩)) record.id _ (by rw [world]; rfl) issued row
    (fun other different => by
      rw [drop_versionValue_append, inBlobs_blobPath] at different
      rw [blobs, get_extendIn, if_neg different])
  refine ⟨?_, ?_⟩
  · rw [fileOf_append, blobs, get_extendIn, if_pos rfl, blob] at changed
    rw [changed, Drive.decide, decided, Drive.perform, file]
    rfl
  · rw [Drive.decide, decided, handled]
    rfl

/-- **An append is answered on the drive as by the server.** -/
theorem append_onDrive (writes : ∀ call size, env.write call size = size) {arg : AppendArg}
    (permitted : Permitted env horizon server (.append arg)) :
    OnDrive env server (.append arg) := by
  obtain ⟨_ | target, data⟩ := arg
  · exact legible.onDrive_of_error fresh permitted rfl rfl rfl
  have failing : (∃ err, ((append env ⟨some target, data⟩).run server.world).result = .error err) →
      server.drive.decideAppend env.toNormalization ⟨some target, data⟩ = (.rest, .refused) →
        OnDrive env server (.append ⟨some target, data⟩) :=
    fun ⟨err, failed⟩ decided => legible.onDrive_of_error fresh permitted rfl
      (congrArg (Except.map _) failed) decided
  have cases := legible.target_cases target
  generalize asked : server.drive.target env.toNormalization target = answer at cases
  cases cases with
  | missing nothing => exact failing (append_missing nothing) (decideOn_missing asked)
  | outdated key record resolved there other =>
      refine failing ?_ (decideOn_missing asked)
      rw [run_append_record env resolved there]
      exact appendToRecord_refused (.inr (.inl other)) data
  | found place record shown resolved value current =>
      have there := Legible.recordAt value
      have ran := run_append_record env resolved there target.version data
      by_cases versioned : record.type = objTypeVersionBlob
      · obtain ⟨version, call, row, file⟩ := legible.file_of_record there versioned
        have node : nodeOf record = .file record.id := nodeOf_eq_file_iff.mpr ⟨versioned, rfl⟩
        rw [node] at asked
        rcases blob : server.world.blobs[blobPath (env.newUlid call)]? with _ | content
        · rw [blob] at file
          refine failing ?_ ((decideOn_found asked).trans ?_)
          · obtain ⟨text, path, opens⟩ := blobPath_text (env.newUlid call)
            rw [← opens] at blob
            rw [path, ← legible.first there] at row
            rw [ran]
            exact appendToRecord_refused (.inr (.inr (.inr ⟨version, text, row, blob⟩))) data
          · dsimp only
            rw [file]
            rfl
        · rw [blob] at file
          exact appended_onDrive legible writes resolved there current asked
            (by rw [versioned]; decide) row file blob
      · refine failing ?_ ((decideOn_found asked).trans ?_)
        · rw [ran]
          refine appendToRecord_refused ?_ data
          rcases legible.kinds there with folder | versioned' | ⟨copy, _⟩
          · exact .inl (by rw [folder]; decide)
          · exact absurd versioned' versioned
          · exact .inr (.inr (.inl (legible.no_row_of_copy there (by rw [NotFolder, copy]; decide)
              versioned _)))
        · rcases node : nodeOf record with inside | id | _
          · rfl
          · exact absurd (nodeOf_eq_file_iff.mp node).1 versioned
          · rfl

end Requests

/-! ## Deleting -/

/-- A deletion without a record at its target is refused. -/
theorem delete_missing {target : RequestedFileId}
    (nothing : ∀ key record, keyOfPath env.toNormalization world.db.fs target.path = some key →
      ¬ RecordAt world.db.fs key record) :
    ∃ err, ((delete env ⟨some target⟩).run world).result = .error err := by
  have cases := delete_cases env world ⟨some target⟩
  generalize (delete env ⟨some target⟩).run world = outcome at cases ⊢
  cases cases with
  | refused err => exact ⟨err, rfl⟩
  | removed target' fileKey value record later targeted resolved found decoded other result =>
      cases targeted
      exact absurd ⟨value, found, decoded⟩ (nothing fileKey record resolved)
  | blobs target' fileKey value record outcome targeted resolved found decoded current versioned
      follows =>
      cases targeted
      exact absurd ⟨value, found, decoded⟩ (nothing fileKey record resolved)

/-- A deletion of a path that resolves goes on with the record that it finds. -/
theorem run_delete_record {target : RequestedFileId} {fileKey : Bytes} {record : FsRecordValue}
    (resolved : keyOfPath env.toNormalization world.db.fs target.path = some fileKey)
    (there : RecordAt world.db.fs fileKey record) :
    (delete env ⟨some target⟩).run world = (do
      rejectIf (target.versionIsNot record.latestVersion)
        (.invalidArgument "not deleting the latest version")
      if record.type != objTypeVersionBlob then do
        commit { world.db with fs := world.db.fs.erase fileKey }
        pure { shredded := false }
      else do
        let _ ← deleteVersions record.id record.latestVersion.toNat world.db.ver
        pure { shredded := false } : Op DeleteResult).run world := by
  obtain ⟨fileName, parentId, named, walked, rfl⟩ := keyOfPath_eq_some_iff.mp resolved
  obtain ⟨value, found, decoded⟩ := there
  rw [delete, run_orFail_some_bind, named, run_orFail_some_bind, run_get_bind, walked,
    run_ofExcept_ok_bind]
  dsimp only [deleteKey]
  rw [found, run_orFail_some_bind, decoded, run_orFail_some_bind]

/-- The loop over the versions of a file with one row deals with its blob. -/
theorem run_deleteVersions_first {Next : Type} {ver : Table Bytes Bytes} {id : FileSystemId}
    {version : VersionRecordValue} {ulid : Ulid} (first : FirstOnly ver id)
    (row : ver[rowKey id 1]? = some (version.bytesOf ++ blobPath ulid))
    (next : Table Bytes Bytes → Op Next) :
    (deleteVersions id (UInt64.toNat 1) ver >>= next).run world = (do
      removeFile (blobPath ulid)
      next (ver.erase (rowKey id 1)) : Op Next).run world := by
  obtain ⟨text, path, opens⟩ := blobPath_text ulid
  have named : blobPath ulid ≠ [] := by
    rw [blobPath_eq]
    exact List.append_ne_nil_of_right_ne_nil _ (List.cons_ne_nil _ _)
  have long : versionValueSize < (version.bytesOf ++ utf8 text).length := by
    rw [List.length_append, length_versionValue_bytesOf, ← path]
    exact Nat.lt_add_of_pos_right (List.length_pos_iff.mpr named)
  have rest : (ver.erase (rowKey id 1))[rowKey id 0]? = none := by
    rw [Option.eq_none_iff_forall_ne_some]
    intro row found
    exact absurd (first.erase _ 0 row found) (by decide)
  have one : UInt64.toNat 1 = 0 + 1 := rfl
  have version : UInt64.ofNat (0 + 1) = 1 := rfl
  rw [path] at row
  rw [one, deleteVersions, version, deleteVersion, row]
  dsimp only
  rw [if_pos long, drop_versionValue_append, run_bind_assoc, run_bind_assoc,
    run_fromUtf8Unchecked_bind_utf8, opens, run_bind_assoc]
  have tail : ∀ reached : World, ((pure (ver.erase (rowKey id 1)) : Op (Table Bytes Bytes)) >>=
      fun rest => deleteVersions id 0 rest >>= next).run reached =
        (next (ver.erase (rowKey id 1))).run reached := by
    intro reached
    rw [run_pure_bind, deleteVersions, deleteVersion, rest]
    rfl
  rcases found : world.blobs[blobPath ulid]? with _ | content
  · rw [run_removeFile_bind_missing found, run_removeFile_bind_missing found]
  · rw [run_removeFile_bind_found found _ rfl, run_removeFile_bind_found found _ rfl, tail]

section Requests

variable (legible : Legible env horizon server)
include legible

/-- A deletion of a file with its contents takes them away. -/
theorem cleared_onDrive {target : RequestedFileId} {place : Place} {record : FsRecordValue}
    {shown : Name} {version : VersionRecordValue} {call : ℕ} {content : Bytes}
    (asked : server.drive.target env.toNormalization target =
      some (place, ⟨shown, .file record.id⟩))
    (ran : (delete env ⟨some target⟩).run server.world = (do
      removeFile (blobPath (env.newUlid call))
      pure { shredded := false } : Op DeleteResult).run server.world)
    (row : server.world.db.ver[rowKey record.id 1]? =
      some (version.bytesOf ++ blobPath (env.newUlid call)))
    (file : server.drive.file record.id = some ⟨recordedOf version.length, some content⟩)
    (blob : server.world.blobs[blobPath (env.newUlid call)]? = some content) :
    OnDrive env server (.delete ⟨some target⟩) := by
  rw [run_removeFile_bind_found blob _ rfl] at ran
  have handled : (handle env (.delete ⟨some target⟩)).run server.world = _ :=
    congrArg (Outcome.map _) ran
  have world : (serve env server (.delete ⟨some target⟩)).world = server.world.withBlobs
      (server.world.blobs.erase (blobPath (env.newUlid call))) := congrArg Outcome.state handled
  have issued : (serve env server (.delete ⟨some target⟩)).issued = server.issued := by
    rw [serve, Server.answered, handled]
    exact List.append_nil _
  have decided : server.drive.decideDelete env.toNormalization ⟨some target⟩ =
      (.clear record.id, .done) := by
    refine (decideOn_found asked).trans ?_
    dsimp only
    rw [file]
    rfl
  have changed := @Legible.drive_blob_changed _ _ _ legible
    (serve env server (.delete ⟨some target⟩)) record.id _ (by rw [world]; rfl) issued row
    (fun other different => by
      rw [drop_versionValue_append, inBlobs_blobPath] at different
      rw [world, World.withBlobs_blobs, Table.get_erase_ne _ different])
  refine ⟨?_, ?_⟩
  · rw [fileOf_append, world, World.withBlobs_blobs, Table.get_erase_self] at changed
    rw [changed, Drive.decide, decided, Drive.perform, file]
    rfl
  · rw [Drive.decide, decided, handled]
    rfl

omit legible in
/-- A deletion of a folder or a copy removes its entry. -/
theorem removed_onDrive {target : RequestedFileId} {place : Place} {record : FsRecordValue}
    {shown : Name}
    (asked : server.drive.target env.toNormalization target = some (place, ⟨shown, nodeOf record⟩))
    (other : record.type ≠ objTypeVersionBlob)
    (ran : (delete env ⟨some target⟩).run server.world = (do
      commit { server.world.db with fs := server.world.db.fs.erase place.key }
      pure { shredded := false } : Op DeleteResult).run server.world) :
    OnDrive env server (.delete ⟨some target⟩) := by
  have handled : (handle env (.delete ⟨some target⟩)).run server.world = _ :=
    congrArg (Outcome.map _) ran
  have decided : server.drive.decideDelete env.toNormalization ⟨some target⟩ =
      (.remove place, .done) := by
    refine (decideOn_found asked).trans ?_
    rcases node : nodeOf record with inside | id | _
    · rfl
    · exact absurd (nodeOf_eq_file_iff.mp node).1 other
    · rfl
  refine ⟨?_, ?_⟩
  · rw [Drive.decide, decided, serve, handled]
    ext1
    · exact entriesOf_erase server.world.db.fs place
    · rfl
    · exact congrArg (pendingOf · server.world.blobs) (List.append_nil server.issued)
    · rfl
  · rw [Drive.decide, decided, handled]
    rfl

/-- **A deletion is answered on the drive as by the server.** -/
theorem delete_onDrive (fresh : env.FreshBelow horizon) {arg : DeleteArg}
    (permitted : Permitted env horizon server (.delete arg)) :
    OnDrive env server (.delete arg) := by
  obtain ⟨_ | target⟩ := arg
  · exact legible.onDrive_of_error fresh permitted rfl rfl rfl
  have failing : (∃ err, ((delete env ⟨some target⟩).run server.world).result = .error err) →
      server.drive.decideDelete env.toNormalization ⟨some target⟩ = (.rest, .refused) →
        OnDrive env server (.delete ⟨some target⟩) :=
    fun ⟨err, failed⟩ decided => legible.onDrive_of_error fresh permitted rfl
      (congrArg (Except.map _) failed) decided
  have cases := legible.target_cases target
  generalize asked : server.drive.target env.toNormalization target = answer at cases
  cases cases with
  | missing nothing => exact failing (delete_missing nothing) (decideOn_missing asked)
  | outdated key record resolved there other =>
      refine failing ?_ (decideOn_missing asked)
      rw [run_delete_record resolved there, other]
      exact ⟨_, rfl⟩
  | found place record shown resolved value current =>
      have there := Legible.recordAt value
      have ran := run_delete_record resolved there
      rw [current, run_rejectIf_false_bind] at ran
      by_cases versioned : record.type = objTypeVersionBlob
      · obtain ⟨version, call, row, file⟩ := legible.file_of_record there versioned
        have node : nodeOf record = .file record.id := nodeOf_eq_file_iff.mpr ⟨versioned, rfl⟩
        have isVersioned : ¬ (record.type != objTypeVersionBlob) = true := by simp [versioned]
        rw [if_neg isVersioned, legible.first there,
          run_deleteVersions_first (legible.blobs.rows.firstOnly _) row] at ran
        rw [node] at asked
        rcases blob : server.world.blobs[blobPath (env.newUlid call)]? with _ | content
        · rw [blob] at file
          refine failing ?_ ((decideOn_found asked).trans ?_)
          · rw [ran, run_removeFile_bind_missing blob]
            exact ⟨_, rfl⟩
          · dsimp only
            rw [file]
            rfl
        · rw [blob] at file
          exact cleared_onDrive legible asked ran row file blob
      · have isOther : (record.type != objTypeVersionBlob) = true := by simp [versioned]
        rw [if_pos isOther] at ran
        exact removed_onDrive asked versioned ran

end Requests

/-! ## Moving -/

/-- A move without a record at its target or a folder for its destination is refused. -/
theorem move_missing {target : RequestedFileId} {destination : List Name}
    (nothing : ∀ source key record,
      keyOfPath env.toNormalization world.db.fs target.path = some source →
      keyOfPath env.toNormalization world.db.fs destination = some key →
        ¬ RecordAt world.db.fs source record) :
    ∃ err, ((move env ⟨some target, destination⟩).run world).result = .error err := by
  have cases := move_cases env world ⟨some target, destination⟩
  generalize (move env ⟨some target, destination⟩).run world = outcome at cases ⊢
  cases cases with
  | refused err => exact ⟨err, rfl⟩
  | moved target' source value record destParentId destFileName later targeted resolved named walked
      found decoded free result =>
      cases targeted
      exact absurd ⟨value, found, decoded⟩
        (nothing source _ record resolved (keyOfPath_of_walk named walked))

/-- A move of a path that resolves goes on with the record that it finds. -/
theorem run_move_record {target : RequestedFileId} {destination : List Name} {source key : Bytes}
    {record : FsRecordValue} {destFileName : Name}
    (resolved : keyOfPath env.toNormalization world.db.fs target.path = some source)
    (there : RecordAt world.db.fs source record)
    (named : destination.getLast? = some destFileName)
    (arrives : keyOfPath env.toNormalization world.db.fs destination = some key) :
    (move env ⟨some target, destination⟩).run world = (do
      rejectIf (target.versionIsNot record.latestVersion)
        (.invalidArgument "not moving the latest version")
      rejectIf (world.db.fs.erase source)[key]?.isSome
        (.invalidArgument "destination file already exists")
      commit { world.db with fs := movedTo world.db.fs source key record destFileName } :
        Op Unit).run world := by
  obtain ⟨fileName, parentId, last, walked, rfl⟩ := keyOfPath_eq_some_iff.mp resolved
  obtain ⟨destName, destParentId, named', destWalked, rfl⟩ := keyOfPath_eq_some_iff.mp arrives
  cases named.symm.trans named'
  obtain ⟨value, found, decoded⟩ := there
  rw [move, run_orFail_some_bind, named, run_orFail_some_bind, last, run_orFail_some_bind,
    run_get_bind]
  dsimp only [moveSourceKey, moveDestinationKey]
  rw [walked, run_ofExcept_ok_bind, destWalked, run_ofExcept_ok_bind, found, run_orFail_some_bind,
    decoded, run_orFail_some_bind]
  rfl

section Requests

variable (legible : Legible env horizon server)
include legible

/-- A place is free once an entry is removed when it is the place of the entry or free before. -/
theorem Legible.free_erase_iff {source destination : Place} :
    (server.world.db.fs.erase source.key)[destination.key]? = none ↔
      destination = source ∨ server.drive.entry destination = none := by
  by_cases same : destination = source
  · rw [same, Table.get_erase_self]
    exact ⟨fun _ => .inl rfl, fun _ => rfl⟩
  · rw [Table.get_erase_ne _ (Place.key_injective.ne same), legible.entry_none_iff,
      or_iff_right same]

/-- **A move is answered on the drive as by the server.** -/
theorem move_onDrive (fresh : env.FreshBelow horizon) {arg : MoveArg}
    (permitted : Permitted env horizon server (.move arg)) : OnDrive env server (.move arg) := by
  obtain ⟨_ | target, destination⟩ := arg
  · exact legible.onDrive_of_error fresh permitted rfl rfl rfl
  have failing :
      (∃ err, ((move env ⟨some target, destination⟩).run server.world).result = .error err) →
      server.drive.decideMove env.toNormalization ⟨some target, destination⟩ = (.rest, .refused) →
        OnDrive env server (.move ⟨some target, destination⟩) :=
    fun ⟨err, failed⟩ decided => legible.onDrive_of_error fresh permitted rfl
      (congrArg (Except.map _) failed) decided
  have cases := legible.target_cases target
  generalize asked : server.drive.target env.toNormalization target = answer at cases
  cases cases with
  | missing nothing =>
      exact failing (move_missing fun source _ record resolved _ => nothing source record resolved)
        (decideOn_missing asked)
  | outdated source record resolved there other =>
      refine failing ?_ (decideOn_missing asked)
      rcases arrives : keyOfPath env.toNormalization server.world.db.fs destination with _ | key
      · exact move_missing fun _ _ _ _ same => by cases arrives.symm.trans same
      · obtain ⟨destName, _, named, _, _⟩ := keyOfPath_eq_some_iff.mp arrives
        rw [run_move_record resolved there named arrives, other]
        exact ⟨_, rfl⟩
  | found source record shown resolved value current =>
      have there := Legible.recordAt value
      have entry : server.drive.entry source = some ⟨shown, nodeOf record⟩ :=
        legible.entry_iff.mpr ⟨record, value, rfl⟩
      rcases placed : server.drive.place env.toNormalization destination with _ | place
      · refine failing ?_ ((decideOn_found asked).trans ?_)
        · refine move_missing fun _ _ _ _ arrives => ?_
          rw [legible.keyOfPath_eq, placed] at arrives
          cases arrives
        · dsimp only
          rw [placed]
          rcases destination.getLast? with _ | destName <;> rfl
      · have arrives := legible.keyOfPath_some placed
        obtain ⟨destName, _, named, _, _⟩ := keyOfPath_eq_some_iff.mp arrives
        have ran := run_move_record resolved there named arrives
        rw [current, run_rejectIf_false_bind] at ran
        by_cases free : place = source ∨ server.drive.entry place = none
        · rw [legible.free_erase_iff.mpr free, Option.isSome_none, run_rejectIf_false_bind] at ran
          have handled : (handle env (.move ⟨some target, destination⟩)).run server.world = _ :=
            congrArg (Outcome.map _) ran
          have decided : server.drive.decideMove env.toNormalization ⟨some target, destination⟩ =
              (.rename source place destName, .done) := by
            refine (decideOn_found asked).trans ?_
            dsimp only
            rw [named, placed]
            dsimp only [Option.bind_eq_bind, Option.bind_some]
            rw [if_pos free]
            rfl
          refine ⟨?_, by rw [Drive.decide, decided, handled]; rfl⟩
          rw [Drive.decide, decided, Drive.perform, entry, serve, handled]
          ext1
          · exact entriesOf_movedTo server.world.db.fs source place record destName
          · rfl
          · exact congrArg (pendingOf · server.world.blobs) (List.append_nil server.issued)
          · rfl
        · refine failing ?_ ((decideOn_found asked).trans ?_)
          · have taken : (server.world.db.fs.erase source.key)[place.key]?.isSome = true := by
              rw [Option.isSome_iff_ne_none]
              exact mt legible.free_erase_iff.mp free
            rw [ran, taken]
            exact ⟨_, rfl⟩
          · dsimp only
            rw [named, placed]
            dsimp only [Option.bind_eq_bind, Option.bind_some]
            rw [if_neg free]
            rfl

end Requests

/-! ## Copying -/

/-- A copy of a file to a free place adds a record. -/
theorem run_copy_file {target : RequestedFileId} {destination : List Name} {source key : Bytes}
    {record : FsRecordValue} {destFileName : Name}
    (resolved : keyOfPath env.toNormalization world.db.fs target.path = some source)
    (there : RecordAt world.db.fs source record) (versioned : record.type = objTypeVersionBlob)
    (named : destination.getLast? = some destFileName)
    (arrives : keyOfPath env.toNormalization world.db.fs destination = some key)
    (free : world.db.fs[key]? = none) :
    (copy env ⟨some target, destination⟩).run world =
      (commit (withCopy world.db key destFileName (copiedRecord world.db (env.newUlid world.calls)
        (.now (env.clock (world.calls + 1))))) : Op Unit).run ((world.advance 1).advance 1) := by
  obtain ⟨fileName, parentId, last, walked, rfl⟩ := keyOfPath_eq_some_iff.mp resolved
  obtain ⟨destName, destParentId, named', destWalked, rfl⟩ := keyOfPath_eq_some_iff.mp arrives
  cases named.symm.trans named'
  obtain ⟨value, found, decoded⟩ := there
  have nothing : ∀ ulid, copyBlob record ulid = pure () := by
    intro ulid
    rw [copyBlob, versioned]
    rfl
  rw [copy, run_orFail_some_bind, named, run_orFail_some_bind, last, run_orFail_some_bind,
    run_get_bind]
  dsimp only [copySourceKey, copyDestinationKey]
  rw [walked, run_ofExcept_ok_bind, destWalked, run_ofExcept_ok_bind, found, run_orFail_some_bind,
    decoded, run_orFail_some_bind, newUlid, run_draw_bind, nothing, run_pure_bind]
  simp only [timeNow, run_draw_bind, getNextId, free, Option.isSome_none, run_rejectIf_false_bind]
  rfl

/-- What can be copied is a file. -/
theorem Legible.copies_file (legible : Legible env horizon server) (dated : env.Dated) {key : Bytes}
    {record : FsRecordValue} (there : RecordAt server.world.db.fs key record)
    (copyable : Copyable server.world record) : record.type = objTypeVersionBlob := by
  rcases legible.kinds there with folder | versioned | ⟨normal, call, ulid⟩
  · rw [Copyable, folder] at copyable
    rcases copyable with versioned | link | ⟨normal | appended | blocks, _⟩
    all_goals contradiction
  · exact versioned
  · rcases copyable with versioned | link | ⟨_, found⟩
    · exact versioned
    · rw [normal] at link
      exact absurd link (by decide)
    · rw [ulid] at found
      exact absurd (decimal_missing dated legible.named call) found

section Requests

variable (legible : Legible env horizon server)
include legible

/-- A copy that is accepted has a file at its target and a free place for its destination. -/
theorem copy_accepted (dated : env.Dated) {target : RequestedFileId} {destination : List Name}
    (ok : ((copy env ⟨some target, destination⟩).run server.world).result = .ok ()) :
    ∃ source record place,
      keyOfPath env.toNormalization server.world.db.fs target.path = some source ∧
      RecordAt server.world.db.fs source record ∧ record.type = objTypeVersionBlob ∧
      server.drive.place env.toNormalization destination = some place ∧
      server.drive.entry place = none := by
  obtain ⟨source, record, resolved, there, copyable⟩ := copy_source env ok
  have cases := copy_cases env server.world ⟨some target, destination⟩
  generalize (copy env ⟨some target, destination⟩).run server.world = outcome at cases ok
  cases cases with
  | refused err => cases ok
  | stopped err copied stops count blob => cases ok
  | created destParentId destFileName copied later stops named walked free blob result =>
      have arrives := keyOfPath_of_walk named walked
      rw [legible.keyOfPath_eq, Option.map_eq_some_iff] at arrives
      obtain ⟨place, placed, same⟩ := arrives
      refine ⟨source, record, place, resolved, there, legible.copies_file dated there copyable,
        placed, ?_⟩
      rw [legible.entry_none_iff, same]
      exact free

/-- **A copy is answered on the drive as by the server.** -/
theorem copy_onDrive (fresh : env.FreshBelow horizon) (dated : env.Dated) {arg : CopyArg}
    (permitted : Permitted env horizon server (.copy arg)) : OnDrive env server (.copy arg) := by
  obtain ⟨_ | target, destination⟩ := arg
  · exact legible.onDrive_of_error fresh permitted rfl rfl rfl
  have failing : ((copy env ⟨some target, destination⟩).run server.world).result ≠ .ok () →
      server.drive.decideCopy env.toNormalization ⟨some target, destination⟩ = (.rest, .refused) →
        OnDrive env server (.copy ⟨some target, destination⟩) := by
    intro failed decided
    rcases result : ((copy env ⟨some target, destination⟩).run server.world).result with err | _
    · exact legible.onDrive_of_error fresh permitted rfl (congrArg (Except.map _) result) decided
    · exact absurd result failed
  have cases := legible.target_cases { target with version := none }
  generalize asked : server.drive.target env.toNormalization { target with version := none } =
    answer at cases
  cases cases with
  | missing nothing =>
      refine failing (fun ok => ?_) (decideOn_missing asked)
      obtain ⟨source, record, _, resolved, there, _⟩ := copy_accepted legible dated ok
      exact nothing source record resolved there
  | outdated source record resolved there other => cases other
  | found source record shown resolved value current =>
      have there := Legible.recordAt value
      by_cases versioned : record.type = objTypeVersionBlob
      · have node : nodeOf record = .file record.id := nodeOf_eq_file_iff.mpr ⟨versioned, rfl⟩
        rw [node] at asked
        by_cases free : ∃ place, server.drive.place env.toNormalization destination = some place ∧
            server.drive.entry place = none
        · obtain ⟨place, placed, empty⟩ := free
          have arrives := legible.keyOfPath_some placed
          obtain ⟨destName, _, named, _, _⟩ := keyOfPath_eq_some_iff.mp arrives
          have ran := @run_copy_file _ _ target _ _ _ _ _ resolved there versioned named arrives
            (legible.entry_none_iff.mp empty)
          have handled : (handle env (.copy ⟨some target, destination⟩)).run server.world = _ :=
            congrArg (Outcome.map _) ran
          have decided : server.drive.decideCopy env.toNormalization ⟨some target, destination⟩ =
              (.copy place destName, .done) := by
            refine (decideOn_found asked).trans ?_
            dsimp only
            rw [named, placed]
            dsimp only [Option.bind_eq_bind, Option.bind_some]
            rw [if_pos empty]
            rfl
          refine ⟨?_, by rw [Drive.decide, decided, handled]; rfl⟩
          rw [Drive.decide, decided, Drive.perform, serve, handled]
          ext1
          · exact entriesOf_insert server.world.db.fs place (copiedRecord server.world.db
              (env.newUlid server.world.calls) (.now (env.clock (server.world.calls + 1)))) destName
          · rfl
          · exact congrArg (pendingOf · server.world.blobs) (List.append_nil server.issued)
          · exact lastId_withCopy _ _ _ _
        · refine failing (fun ok => ?_) ((decideOn_found asked).trans ?_)
          · obtain ⟨_, _, place, _, _, _, placed, empty⟩ := copy_accepted legible dated ok
            exact free ⟨place, placed, empty⟩
          · dsimp only
            rcases placed : server.drive.place env.toNormalization destination with _ | place
            · rcases destination.getLast? with _ | destName <;> rfl
            · have taken : ¬ server.drive.entry place = none :=
                fun empty => free ⟨place, placed, empty⟩
              rcases destination.getLast? with _ | destName
              · rfl
              · dsimp only [Option.bind_eq_bind, Option.bind_some]
                rw [if_neg taken]
                rfl
      · refine failing (fun ok => ?_) ((decideOn_found asked).trans ?_)
        · obtain ⟨_, record', _, resolved', there', versioned', _⟩ := copy_accepted legible dated ok
          cases resolved.symm.trans resolved'
          exact versioned (there.unique there' ▸ versioned')
        · rcases node : nodeOf record with inside | id | _
          · rfl
          · exact absurd (nodeOf_eq_file_iff.mp node).1 versioned
          · rfl

end Requests

end Yeetbox.Storage
