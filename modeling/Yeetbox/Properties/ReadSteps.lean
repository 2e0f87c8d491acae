import Yeetbox.Properties.Listings
import Yeetbox.Properties.RecordSteps
import Yeetbox.Storage.Pages

/-!
# Requests that read on the drive

A download and a listing change nothing on the drive (`download_drive`, `list_drive`). The page that
a download returns is the page of the file on the drive (`page_of_version`), and the names that are
listed are those of the folder (`listed_names`). A recorded length bounds the page on both levels.
-/

set_option autoImplicit false

namespace Yeetbox.Storage

open Library Handler

variable {env : Env} {horizon : ℕ} {server : Server} {world : World}

/-! ## Downloading -/

/-- A download changes nothing on the drive. -/
theorem download_drive (arg : DownloadArg) :
    (serve env server (.download arg)).drive = server.drive := by
  have cases := download_cases env server.world arg
  generalize ran : (download env arg).run server.world = outcome at cases
  have handled : (handle env (.download arg)).run server.world = outcome.map .downloaded :=
    congrArg (Outcome.map _) ran
  rw [serve, handled]
  cases cases with
  | refused err => exact Server.drive_congr rfl rfl (List.append_nil _)
  | served result => exact Server.drive_congr rfl rfl (List.append_nil _)

/-- A download does nothing on the drive. -/
theorem decideDownload_rest (drive : Drive) (normalization : Normalization) (arg : DownloadArg) :
    (drive.decideDownload normalization arg).1 = .rest := by
  rw [Drive.decideDownload, Drive.decideOn]
  rcases arg.target.bind (drive.target normalization) with _ | ⟨place, entry⟩
  · rfl
  · rw [Option.bind_some]
    dsimp only
    rcases entry.node with inside | id | _
    · rfl
    · dsimp only
      rcases drive.file id with _ | file <;> rfl
    · rfl

/-- A download without a record at its target is refused. -/
theorem download_missing {target : RequestedFileId} {offset length : UInt64}
    (nothing : ∀ key record, keyOfPath env.toNormalization world.db.fs target.path = some key →
      ¬ RecordAt world.db.fs key record) :
    ∃ err, ((download env ⟨some target, offset, length⟩).run world).result = .error err := by
  rw [download, run_orFail_some_bind]
  rcases named : target.path.getLast? with _ | fileName
  · exact ⟨_, rfl⟩
  rw [run_orFail_some_bind, run_get_bind]
  rcases walked : descendPath env.toNormalization world.db.fs target.path.dropLast with
    err | parentId
  · exact ⟨_, rfl⟩
  rw [run_ofExcept_ok_bind]
  dsimp only [downloadKey]
  rcases found : world.db.fs[makeKey env.toNormalization parentId fileName]? with _ | value
  · exact ⟨_, rfl⟩
  rw [run_orFail_some_bind]
  rcases decoded : fsRecordFromBytes value with _ | record
  · exact ⟨_, rfl⟩
  · exact absurd ⟨value, found, decoded⟩ (nothing _ record (keyOfPath_of_walk named walked))

/-- A request that does not ask for another version asks for the latest one. -/
theorem versionIsNot_eq_false_iff {target : RequestedFileId} {latest : FsVersion} :
    target.versionIsNot latest = false ↔
      (target.version.map RequestedFileVersion.major).getD latest = latest := by
  rw [RequestedFileId.versionIsNot]
  rcases target.version with _ | version
  · exact ⟨fun _ => rfl, fun _ => rfl⟩
  · rw [Option.any_some, bne_eq_false_iff_eq, Option.map_some, Option.getD_some]

/-- The buffer of a download is as long as the page on the drive asks for. -/
theorem bufferSize_eq_pageLength {recorded offset length : UInt64}
    (inside : recorded = unknownSize ∨ offset ≤ recorded) :
    bufferSize recorded offset length = pageLength (recordedOf recorded) offset length := by
  by_cases unknown : recorded = unknownSize
  · have none : recordedOf recorded = none := if_pos unknown
    rw [none]
    exact bufferSize_whole (.inl unknown)
  · have known : recordedOf recorded = some recorded.toNat := if_neg unknown
    have atMost := UInt64.le_iff_toNat_le.mp (inside.resolve_left unknown)
    rw [known]
    by_cases past : recorded.toNat < (offset + length).toNat
    · rw [bufferSize_truncated unknown past atMost]
      exact congrArg (min · maxReadSize) (if_pos past).symm
    · rw [bufferSize_whole (.inr (Nat.not_lt.mp past))]
      exact congrArg (min · maxReadSize) (if_neg past).symm

/-- **A version reads as the page of its file.** -/
theorem page_of_version (transfers : env.TransfersAll) {path : List Name}
    {requested : Option FsVersion} {recorded offset length : UInt64} {blob : Bytes}
    (readable : ReadableVersion env world path requested recorded blob) :
    replyOf (((download env (pageRequest path requested offset length)).run world).result.map
      .downloaded) = (File.mk (recordedOf recorded) (some blob)).page offset length := by
  rw [File.page]
  by_cases beyond : recorded = unknownSize ∨ offset ≤ recorded
  · have inside : (recordedOf recorded).any (· < offset.toNat) = false := by
      rw [recordedOf]
      split
      · rfl
      · rename_i known
        rw [Option.any_some, decide_eq_false_iff_not, Nat.not_lt, ← UInt64.le_iff_toNat_le]
        exact beyond.resolve_left known
    by_cases large : 2 ^ 63 ≤ offset.toNat
    · rw [readable.not_seekable beyond large]
      dsimp only
      rw [if_pos (.inr large)]
      rfl
    · have size : (blob.drop offset.toNat).take (pageSize env world recorded blob offset length) =
          (blob.drop offset.toNat).take (pageLength (recordedOf recorded) offset length) := by
        rw [pageSize, transfers.read, bufferSize_eq_pageLength beyond, ← List.take_take,
          List.take_length]
      have flag := length_page env world recorded blob offset length
      rw [size] at flag
      have small : ¬ ((recordedOf recorded).any (· < offset.toNat) = true ∨
          2 ^ 63 ≤ offset.toNat) := by
        rw [inside]
        exact not_or.mpr ⟨Bool.false_ne_true, large⟩
      rw [readable.page_at beyond (Nat.not_le.mp large), size, ← flag,
        bufferSize_eq_pageLength beyond]
      dsimp only
      rw [if_neg small]
      rfl
  · rw [not_or, UInt64.not_le] at beyond
    have past : (recordedOf recorded).any (· < offset.toNat) = true := by
      rw [recordedOf, if_neg beyond.1, Option.any_some, decide_eq_true_eq]
      exact UInt64.lt_iff_toNat_lt.mp beyond.2
    rw [readable.refused beyond.1 beyond.2]
    dsimp only
    rw [if_pos (.inl past)]
    rfl

/-- A download of a folder or of a version without its row is refused. -/
theorem download_refused {target : RequestedFileId} {offset length : UInt64} {fileKey : Bytes}
    {record : FsRecordValue}
    (resolved : keyOfPath env.toNormalization world.db.fs target.path = some fileKey)
    (there : RecordAt world.db.fs fileKey record)
    (refused : isReadableObjType record.type = false ∨ world.db.ver[rowKey record.id
      ((target.version.map RequestedFileVersion.major).getD record.latestVersion)]? = none) :
    ∃ err, ((download env ⟨some target, offset, length⟩).run world).result = .error err := by
  have targeted : (⟨some target, offset, length⟩ : DownloadArg).target = some target := rfl
  rw [run_download_record env targeted resolved there]
  rcases readable : isReadableObjType record.type with _ | _
  · exact ⟨_, rfl⟩
  rw [Bool.not_true, run_rejectIf_false_bind]
  rcases world.db.verCreated with _ | _
  · exact ⟨_, rfl⟩
  rw [Bool.not_true, run_rejectIf_false_bind, refused.resolve_left (by simp [readable])]
  exact ⟨_, rfl⟩

/-- A download of a file without its contents is refused. -/
theorem downloadVersion_missing {offset length : UInt64} {version : VersionRecordValue}
    {ulid : Ulid} (missing : world.blobs[blobPath ulid]? = none) :
    ∃ err, ((downloadVersion env offset length (version.bytesOf ++ blobPath ulid)).run
      world).result = .error err := by
  obtain ⟨text, path, opens⟩ := blobPath_text ulid
  rw [path, downloadVersion, versionValueFromBytes_append, run_orFail_some_bind]
  dsimp only
  cases (decide (offset > 0) && version.length != unknownSize &&
    decide (offset > version.length)) with
  | true => exact ⟨_, rfl⟩
  | false =>
      rw [← opens] at missing
      rw [run_rejectIf_false_bind, drop_versionValue_append, run_fromUtf8Unchecked_bind_utf8,
        run_openExisting_bind_missing missing]
      exact ⟨_, rfl⟩

section Requests

variable (legible : Legible env horizon server)
include legible

/-- **A download is answered on the drive as by the server.** -/
theorem download_onDrive (transfers : env.TransfersAll) (arg : DownloadArg) :
    OnDrive env server (.download arg) := by
  have drive : (serve env server (.download arg)).drive = server.drive.perform
      (server.drive.decide env.toNormalization (env.newUlid server.world.calls)
        (.download arg)).1 := by
    rw [download_drive, Drive.decide, decideDownload_rest]
    rfl
  refine ⟨drive, ?_⟩
  obtain ⟨_ | target, offset, length⟩ := arg
  · rfl
  have failing :
      (∃ err, ((download env ⟨some target, offset, length⟩).run server.world).result = .error err) →
      server.drive.decideDownload env.toNormalization ⟨some target, offset, length⟩ =
        (.rest, .refused) →
      replyOf ((handle env (.download ⟨some target, offset, length⟩)).run server.world).result =
        (server.drive.decideDownload env.toNormalization ⟨some target, offset, length⟩).2 := by
    rintro ⟨err, failed⟩ decided
    have result : ((handle env (.download ⟨some target, offset, length⟩)).run
        server.world).result = .error err := congrArg (Except.map _) failed
    rw [decided, result]
    rfl
  have cases := legible.target_cases target
  generalize asked : server.drive.target env.toNormalization target = answer at cases
  cases cases with
  | missing nothing => exact failing (download_missing nothing) (decideOn_missing asked)
  | outdated key record resolved there other =>
      refine failing (download_refused resolved there (.inr ?_)) (decideOn_missing asked)
      have first := legible.first there
      rw [Option.eq_none_iff_forall_ne_some]
      intro row found
      have major := legible.blobs.rows.firstOnly record.id _ row found
      rw [versionIsNot_eq_false_iff.mpr (major.trans first.symm)] at other
      cases other
  | found place record shown resolved value current =>
      have there := Legible.recordAt value
      have first := legible.first there
      have asks := (versionIsNot_eq_false_iff.mp current).trans first
      by_cases versioned : record.type = objTypeVersionBlob
      · obtain ⟨version, call, row, file⟩ := legible.file_of_record there versioned
        have node : nodeOf record = .file record.id := nodeOf_eq_file_iff.mpr ⟨versioned, rfl⟩
        have readable : isReadableObjType record.type = true := by rw [versioned]; decide
        have created := legible.versions.created row
        rw [node] at asked
        rw [← asks] at row
        have decided : server.drive.decideDownload env.toNormalization
            ⟨some target, offset, length⟩ = (.rest, (File.mk (recordedOf version.length)
              server.world.blobs[blobPath (env.newUlid call)]?).page offset length) := by
          refine (decideOn_found asked).trans ?_
          dsimp only
          rw [file]
          rfl
        rcases blob : server.world.blobs[blobPath (env.newUlid call)]? with _ | content
        · rw [blob] at decided
          refine failing ?_ decided
          rw [run_download env rfl resolved there readable created row]
          exact downloadVersion_missing blob
        · obtain ⟨text, path, opens⟩ := blobPath_text (env.newUlid call)
          rw [path] at row
          rw [← opens] at blob
          have version' : ReadableVersion env server.world target.path
              (target.version.map RequestedFileVersion.major) version.length content :=
            ⟨created, place.key, record, version, text, resolved, there, readable, row, rfl, blob⟩
          have request : pageRequest target.path (target.version.map RequestedFileVersion.major)
              offset length = ⟨some target, offset, length⟩ := by
            rcases target with ⟨names, _ | asked⟩ <;> rfl
          have page := @page_of_version _ _ transfers _ _ _ offset length _ version'
          rw [request] at page
          rw [opens] at blob
          rw [Drive.decide, decided, blob]
          exact page
      · refine failing ?_ ((decideOn_found asked).trans ?_)
        · refine download_refused resolved there ?_
          rcases legible.kinds there with folder | versioned' | ⟨copy, _⟩
          · exact .inl (by rw [folder]; decide)
          · exact absurd versioned' versioned
          · exact .inr (legible.no_row_of_copy there (by rw [NotFolder, copy]; decide) versioned _)
        · rcases node : nodeOf record with inside | id | _
          · rfl
          · exact absurd (nodeOf_eq_file_iff.mp node).1 versioned
          · rfl

/-! ## Listing -/

omit legible in
/-- A listing changes nothing on the drive. -/
theorem list_drive (arg : ListArg) : (serve env server (.list arg)).drive = server.drive := by
  have world : (serve env server (.list arg)).world = server.world :=
    (list_unchanged env server.world arg).1
  have issued : (serve env server (.list arg)).issued = server.issued := by
    rcases result : ((list env arg).run server.world).result with err | listed
    · rw [serve, Server.answered, handle, run_map, Outcome.map, result]
      exact List.append_nil _
    · rw [serve, Server.answered, handle, run_map, Outcome.map, result]
      exact List.append_nil _
  exact Server.drive_congr (by rw [world]) (by rw [world]) issued

omit legible in
/-- An entry is listed with its name. -/
theorem listEntry_name {key : Bytes} {record : FsRecordValue} {shown : Name} {entry : ListEntry}
    (lists : listEntry (key, record.bytesOf ++ utf8 shown) = .ok entry) :
    entry.relativeName = shown := by
  rw [listEntry] at lists
  split at lists
  · cases lists
  · rw [fsRecordFromBytes_append, drop_fsRecord_append, ofUtf8_utf8] at lists
    cases lists
    rfl

omit legible in
theorem related_of_mem {First Second : Type} {Related : First → Second → Prop}
    {ones : List First} {others : List Second} (related : List.Forall₂ Related ones others)
    {one : First} (member : one ∈ ones) : ∃ other ∈ others, Related one other := by
  induction related with
  | nil => cases member
  | cons head _ ih =>
      rcases List.mem_cons.mp member with rfl | later
      · exact ⟨_, List.mem_cons_self, head⟩
      · obtain ⟨other, inside, same⟩ := ih later
        exact ⟨other, List.mem_cons_of_mem _ inside, same⟩

/-- **The names that are listed are those in the folder.** -/
theorem listed_names {folder : FileSystemId} {keys : List Bytes} {entries : List ListEntry}
    (lists : ListsFolder env.toNormalization server.world.db.fs folder keys entries) :
    { shown | shown ∈ entries.map ListEntry.relativeName } = server.drive.names folder := by
  ext shown
  constructor
  · intro member
    obtain ⟨entry, inside, rfl⟩ := List.mem_map.mp member
    obtain ⟨key, _, ⟨value, found, listed⟩, made⟩ := related_of_mem lists.listed.flip inside
    obtain ⟨_, record, name, _, rfl⟩ := legible.entries _ _ found
    rw [← made] at found
    have shown := listEntry_name listed
    exact ⟨env.nfkd entry.relativeName, ⟨name, nodeOf record⟩,
      legible.entry_iff.mpr ⟨record, found, rfl⟩, shown.symm⟩
  · rintro ⟨name, entry, found, rfl⟩
    obtain ⟨record, there, _⟩ := legible.entry_iff.mp found
    have inFolder : (Place.key ⟨folder, name⟩).take 8 = beBytes 8 folder.toNat :=
      List.take_left' (length_beBytes 8 _)
    have member := (lists.exact _).mpr ⟨⟨_, there⟩, inFolder⟩
    obtain ⟨listed, inside, ⟨value, found', lists'⟩, _⟩ := related_of_mem lists.listed member
    cases there.symm.trans found'
    exact List.mem_map.mpr ⟨listed, inside, listEntry_name lists'⟩

omit legible in
/-- Only the last of all ids has no next number when it is read the other way round. -/
theorem parentIdOfRecord_has_next {id : FileSystemId} (notLast : id.toNat < 2 ^ 64 - 1) :
    (parentIdOfRecord id).toNat + 1 < 2 ^ 64 := by
  have range := (parentIdOfRecord id).toNat_lt
  have last : (0xFFFFFFFFFFFFFFFF : UInt64).toNat = 2 ^ 64 - 1 := rfl
  have palindrome : parentIdOfRecord 0xFFFFFFFFFFFFFFFF = 0xFFFFFFFFFFFFFFFF := by decide
  have different : (parentIdOfRecord id).toNat ≠ 2 ^ 64 - 1 := by
    rw [← last, Ne, UInt64.toNat_inj, ← palindrome, parentIdOfRecord_injective.eq_iff,
      ← UInt64.toNat_inj, last]
    exact notLast.ne
  omega

/-- A walk arrives at a number that has a next one. -/
theorem Legible.has_next (few : server.allocated < 2 ^ 64 - 1) {path : List Name}
    {inside : FileSystemId} (leads : LeadsTo server.world.db.fs path inside) :
    inside.toNat + 1 < 2 ^ 64 := by
  rcases List.eq_nil_or_concat' path with rfl | ⟨front, component, rfl⟩
  · rw [descends_nil_iff.mp leads]
    decide
  · obtain ⟨parent, _, entered⟩ := descends_append_singleton_iff.mp leads
    obtain ⟨record, there, _, rfl⟩ := folderAt_iff.mp entered
    have bound := legible.ids there
    exact parentIdOfRecord_has_next (by omega)

/-- **A listing is answered on the drive as by the server.** -/
theorem list_onDrive (few : server.allocated < 2 ^ 64 - 1) (arg : ListArg) :
    OnDrive env server (.list arg) := by
  obtain ⟨_ | target⟩ := arg
  · exact ⟨list_drive _, rfl⟩
  rcases arrives : server.drive.walk (target.path.map env.nfkc) with _ | folder
  · have walked : ∃ err, listWalk env.toNormalization server.world.db.fs target.path = .error err :=
      legible.walk_error arrives
    obtain ⟨err, walked⟩ := walked
    have failed : ((list env ⟨some target⟩).run server.world).result = .error err := by
      rw [list, run_orFail_some_bind, run_get_bind, walked]
      rfl
    have decided : server.drive.decide env.toNormalization (env.newUlid server.world.calls)
        (.list ⟨some target⟩) = (.rest, .refused) := by
      rw [Drive.decide, Option.bind_some, arrives]
    have result : ((handle env (.list ⟨some target⟩)).run server.world).result = .error err :=
      congrArg (Except.map _) failed
    refine ⟨?_, ?_⟩
    · rw [decided]
      exact list_drive _
    · rw [decided, result]
      rfl
  · have walked : listWalk env.toNormalization server.world.db.fs target.path = .ok folder :=
      legible.walk_iff.mpr arrives
    obtain ⟨keys, entries, ok, lists⟩ := range_lists legible.entries
      (legible.has_next few (walkFolders_eq_ok_iff.mp walked))
    have decided : server.drive.decide env.toNormalization (env.newUlid server.world.calls)
        (.list ⟨some target⟩) = (.rest, .listing (server.drive.names folder)) := by
      rw [Drive.decide, Option.bind_some, arrives]
    have result : ((handle env (.list ⟨some target⟩)).run server.world).result =
        .ok (.listed ⟨entries⟩) := by
      have ran := run_list walked
      rw [ok] at ran
      exact congrArg (Except.map _) ran
    refine ⟨?_, ?_⟩
    · rw [decided]
      exact list_drive _
    · rw [decided, result, replyOf, listed_names legible lists]

end Requests

end Yeetbox.Storage
