import Yeetbox.Properties.Copies
import Yeetbox.Properties.Listings
import Yeetbox.Storage.Pages

/-!
# The types that `list` reports

Four places of the source look at the type of a record: the walks, which enter folders only, the
downloads and the appends, which take readable objects only, and `obj_type`, whose answer `list`
reports. The first three tell folders from files. `obj_type` answers `File` for every type. The file
that a copy makes passes the checks of the type, but it has no version, and every download and
append of it fails (`copied_refused`). So what `list` reports of an entry is what the other
operations do with it exactly when the entry is no folder, and its latest version has a row and a
blob (`listed_type_iff`).
-/

set_option autoImplicit false

namespace Yeetbox.Storage

open Library Handler

/-- `descend_path` goes all the way to the end of a path. -/
def Descendable (env : Env) (world : World) (path : List Name) : Prop :=
  ∃ inside, descendPath env.toNormalization world.db.fs path = .ok inside

/-- Every download of the object at a path from the start returns a page, and every append to it
succeeds. -/
structure TakenAsContent (env : Env) (world : World) (path : List Name) : Prop where
  download : ∀ length, ∃ page,
    ((download env ⟨some ⟨path, none⟩, 0, length⟩).run world).result = .ok page
  append : ∀ data, ((append env ⟨some ⟨path, none⟩, data⟩).run world).result = .ok ()

/-- The type that is reported of an entry of a folder is what the other operations take it for. -/
structure TypeReported (env : Env) (world : World) (path : List Name) (entry : ListEntry) :
    Prop where
  folder : entry.attrs.type = some .folder ↔ Descendable env world (path ++ [entry.relativeName])
  file : entry.attrs.type = some .file ↔ TakenAsContent env world (path ++ [entry.relativeName])

/-- The latest version of an object has a row, and the blob that the row names is there. -/
def HasLatest (world : World) (record : FsRecordValue) : Prop :=
  ∃ row : Bytes, world.db.ver[rowKey record.id record.latestVersion]? = some row ∧
    ∃ content, world.blobs[inBlobs (row.drop versionValueSize)]? = some content

/-- The record of an entry that is listed in a folder is not that of a folder, and its latest
version is there. -/
def ListsAFile (env : Env) (world : World) (path : List Name) (entry : ListEntry) : Prop :=
  ∃ parentId record, listWalk env.toNormalization world.db.fs path = .ok parentId ∧
    RecordAt world.db.fs (makeKey env.toNormalization parentId entry.relativeName) record ∧
      record.type ≠ objTypeFolder ∧ HasLatest world record

/-! ## What the operations take an object for -/

section Object

variable {env : Env} {world : World} {path : List Name} {key : Bytes} {record : FsRecordValue}

/-- `descend_path` goes through an object exactly when it is a folder. -/
theorem descendable_iff (resolved : keyOfPath env.toNormalization world.db.fs path = some key)
    (there : RecordAt world.db.fs key record) :
    Descendable env world path ↔ record.type = objTypeFolder := by
  have through : ∀ inside, descendPath env.toNormalization world.db.fs path = .ok inside ↔
      FolderAt world.db.fs key inside :=
    fun inside => walkFolders_eq_ok_iff.trans (leadsTo_iff_folderAt resolved)
  constructor
  · rintro ⟨inside, walked⟩
    obtain ⟨folder, found, type, _⟩ := folderAt_iff.mp ((through inside).mp walked)
    exact there.unique found ▸ type
  · intro type
    exact ⟨_, (through _).mpr (folderAt_iff.mpr ⟨record, there, type, rfl⟩)⟩

/-- **An object is taken as content exactly when its type is readable and its latest version is
there.** -/
theorem takenAsContent_iff (represented : Represented env.toNormalization world.db)
    (first : FirstVersions world.db)
    (resolved : keyOfPath env.toNormalization world.db.fs path = some key)
    (there : RecordAt world.db.fs key record) : TakenAsContent env world path ↔
      isReadableObjType record.type = true ∧ HasLatest world record := by
  constructor
  · intro taken
    have appended := taken.append { bytes := [] }
    have outcome := append_cases env world ⟨some ⟨path, none⟩, { bytes := [] }⟩
    generalize (append env ⟨some ⟨path, none⟩, { bytes := [] }⟩).run world = done
      at appended outcome
    cases outcome with
    | refused err => cases appended
    | appended target fileKey other blob content later targeted found head opened result =>
        cases targeted
        obtain rfl := Option.some_inj.mp (resolved.symm.trans found)
        obtain rfl := there.unique head.there
        obtain ⟨row, inTable, _, rfl⟩ := head.row
        exact ⟨head.readable, row, inTable, content, opened⟩
  · rintro ⟨readable, row, inTable, content, opened⟩
    obtain ⟨_, version, shown, ulid, rfl, _⟩ := represented.row _ row inTable
    rw [drop_versionValue_append] at opened
    constructor
    · intro length
      have version : ReadableVersion env world path none version.length content :=
        ⟨first.created inTable, key, record, version, shown, resolved, there, readable, inTable,
          rfl, opened⟩
      have page := @ReadableVersion.page_at _ _ _ _ _ _ 0 length version
        (.inr (UInt64.zero_le)) (by decide)
      exact ⟨_, congrArg Outcome.result page⟩
    · intro data
      rw [run_append_record env resolved there,
        run_appendToRecord_found env readable rfl inTable opened]

/-- A file that a copy made has no row of any version. -/
theorem copied_without_row {requests : List Request}
    (few : (serverAfter env requests).allocated < 2 ^ 64 - 1)
    (there : RecordAt (serverAfter env requests).world.db.fs key record)
    (copied : record.type = objTypeNormalBlob) (version : FsVersion) :
    (serverAfter env requests).world.db.ver[rowKey record.id version]? = none := by
  rcases found : (serverAfter env requests).world.db.ver[rowKey record.id version]? with _ | row
  · rfl
  · obtain ⟨owner, other, owns, versioned, _, same⟩ := serverAfter_row_owner env requests found
    have counted := serverAfter_counted env requests few
    have notFolder : NotFolder record ∧ NotFolder other := by
      rw [NotFolder, NotFolder, copied, versioned]
      decide
    obtain rfl := counted.ids.unique there owns notFolder.1 notFolder.2 (rowKey_inj same).1
    rw [there.unique owns, versioned] at copied
    exact absurd copied (by decide)

/-- **Every download of a file that a copy made fails, and every append to it**, as long as few ids
are allocated. -/
theorem copied_refused {requests : List Request}
    (few : (serverAfter env requests).allocated < 2 ^ 64 - 1)
    (resolved : keyOfPath env.toNormalization (serverAfter env requests).world.db.fs path =
      some key)
    (there : RecordAt (serverAfter env requests).world.db.fs key record)
    (copied : record.type = objTypeNormalBlob) (version : Option RequestedFileVersion) :
    (∀ offset length, ∃ err, ((download env ⟨some ⟨path, version⟩, offset, length⟩).run
        (serverAfter env requests).world).result = .error err) ∧
      ∀ data, ∃ err, ((append env ⟨some ⟨path, version⟩, data⟩).run
        (serverAfter env requests).world).result = .error err := by
  have missing := copied_without_row few there copied
  constructor
  · intro offset length
    rw [run_download_record env rfl resolved there, missing]
    rcases isReadableObjType record.type with _ | _
    · exact ⟨_, rfl⟩
    rcases (serverAfter env requests).world.db.verCreated with _ | _
    · exact ⟨_, rfl⟩
    · exact ⟨_, rfl⟩
  · intro data
    have outcome := append_cases env (serverAfter env requests).world ⟨some ⟨path, version⟩, data⟩
    generalize (append env ⟨some ⟨path, version⟩, data⟩).run (serverAfter env requests).world =
      done at outcome
    cases outcome with
    | refused err => exact ⟨err, rfl⟩
    | appended target fileKey other blob content later targeted found head opened result =>
        cases targeted
        obtain rfl := Option.some_inj.mp (resolved.symm.trans found)
        obtain rfl := there.unique head.there
        obtain ⟨row, inTable, _⟩ := head.row
        cases (missing _).symm.trans inTable

end Object

/-! ## What is listed -/

variable {env : Env} {world : World} {target : RequestedFileId} {entries : List ListEntry}
  {entry : ListEntry}

/-- The reported type is that of the record. -/
theorem listEntry_type {key value : Bytes} (lists : listEntry (key, value) = .ok entry) :
    ∃ record, fsRecordFromBytes value = some record ∧ entry.attrs.type = record.objType := by
  rw [listEntry] at lists
  split at lists
  · cases lists
  · split at lists
    · cases lists
    · rename_i record decoded
      split at lists
      · cases lists
      · cases lists
        exact ⟨record, decoded, rfl⟩

/-- **A listed entry reports the type of the object that its name leads to.** -/
theorem listed_record (represented : Represented env.toNormalization world.db)
    (listed : ((list env ⟨some target⟩).run world).result = .ok ⟨entries⟩)
    (member : entry ∈ entries) :
    ∃ parentId record, listWalk env.toNormalization world.db.fs target.path = .ok parentId ∧
      RecordAt world.db.fs (makeKey env.toNormalization parentId entry.relativeName) record ∧
        entry.attrs.type = record.objType := by
  cases walked : listWalk env.toNormalization world.db.fs target.path with
  | error err =>
      rw [list, run_orFail_some_bind, run_get_bind, walked] at listed
      cases listed
  | ok parentId =>
      rw [run_list walked] at listed
      cases rounds : (folderRows world.db.fs parentId).mapM listEntry with
      | error err =>
          rw [rounds] at listed
          cases listed
      | ok found =>
          rw [rounds] at listed
          cases listed
          obtain ⟨⟨key, value⟩, row, lists⟩ := mem_of_mapM_ok rounds member
          obtain ⟨there, id⟩ := of_mem_folderRows represented.entry row
          obtain ⟨same, lists', rest⟩ := (represented.entry key value there).lists
          cases lists.symm.trans lists'
          obtain ⟨record, decoded, type⟩ := listEntry_type lists
          refine ⟨parentId, record, rfl, ?_, type⟩
          rw [makeKey_of_take id rest]
          exact ⟨value, there, decoded⟩

/-- **What is reported of an entry is what the operations take it for exactly when it is no folder
and its latest version is there.** -/
theorem listed_type_iff (env : Env) (requests : List Request) {target : RequestedFileId}
    {entries : List ListEntry} {entry : ListEntry}
    (listed : ((list env ⟨some target⟩).run (serverAfter env requests).world).result =
      .ok ⟨entries⟩) (member : entry ∈ entries) :
    TypeReported env (serverAfter env requests).world target.path entry ↔
      ListsAFile env (serverAfter env requests).world target.path entry := by
  have canonical := serverAfter_canonical env requests
  have represented := serverAfter_represented env requests
  obtain ⟨parentId, record, walked, there, type⟩ := listed_record represented listed member
  have leads := walkFolders_eq_ok_iff.mp walked
  rw [canonical.leadsTo_nfkc leads] at leads
  have resolved := keyOfPath_concat leads entry.relativeName
  have reported : entry.attrs.type = some .file := type
  have taken := takenAsContent_iff represented (serverAfter_firstVersions env requests) resolved
    there
  constructor
  · intro reports
    refine ⟨parentId, record, walked, there, fun isFolder => ?_, ?_⟩
    · have descends := reports.folder.mpr ((descendable_iff resolved there).mpr isFolder)
      cases reported.symm.trans descends
    · exact (taken.mp (reports.file.mp reported)).2
  · rintro ⟨_, other, walked', there', notFolder, latest⟩
    cases walked.symm.trans walked'
    obtain rfl := there.unique there'
    have readable : isReadableObjType record.type = true := by
      rcases serverAfter_kinds env requests there with isFolder | versioned | ⟨copied, _⟩
      · exact absurd isFolder notFolder
      · rw [versioned]
        rfl
      · rw [copied]
        rfl
    constructor
    · refine iff_of_false (fun isFolder => ?_) fun descends => ?_
      · cases reported.symm.trans isFolder
      · exact notFolder ((descendable_iff resolved there).mp descends)
    · exact iff_of_true reported (taken.mpr ⟨readable, latest⟩)

/-! ## A folder in the root -/

/-- The request that makes a folder in the root. -/
def folderInRoot : List Request := [.makeDirectory ⟨some ⟨[['b']]⟩⟩]

/-- The entry that is listed for it. -/
def listedFolder : ListEntry where
  relativeName := ['b']
  attrs := {
    type := some .file
    createTime := none
    modifyTime := none
    accessTime := none
    changeTime := none
    deleteTime := none }

theorem root_lists_folder : ((list (.numbered .unchanged) ⟨some ⟨[], none⟩⟩).run
    (serverAfter (.numbered .unchanged) folderInRoot).world).result = .ok ⟨[listedFolder]⟩ := by
  have rows : (folderRows (serverAfter (.numbered .unchanged) folderInRoot).world.db.fs
      rootFsid).mapM listEntry = .ok [listedFolder] := by decide
  rw [run_list rfl, rows]
  rfl

theorem listed_folder_type_iff :
    TypeReported (.numbered .unchanged) (serverAfter (.numbered .unchanged) folderInRoot).world []
        listedFolder ↔
      ListsAFile (.numbered .unchanged) (serverAfter (.numbered .unchanged) folderInRoot).world []
        listedFolder :=
  listed_type_iff (.numbered .unchanged) folderInRoot root_lists_folder List.mem_cons_self

/-! ## A copied file in the root -/

/-- An upload to the root, and the requests that copy its file. -/
def uploadSource : UploadArg := { target := some ⟨[['s']]⟩, data := { bytes := [120] } }

def copySource : CopyArg := ⟨some ⟨[['s']], none⟩, [['t']]⟩

def copiedInRoot : List Request := [.upload uploadSource, .copy copySource]

theorem root_lists_copy : ∃ entries entry, ((list (.numbered .unchanged) ⟨some ⟨[], none⟩⟩).run
    (serverAfter (.numbered .unchanged) copiedInRoot).world).result = .ok ⟨entries⟩ ∧
      entry ∈ entries ∧ entry.relativeName = ['t'] := by
  have names : ((folderRows (serverAfter (.numbered .unchanged) copiedInRoot).world.db.fs
      rootFsid).mapM listEntry).map (List.map ListEntry.relativeName) = .ok [['s'], ['t']] := by
    decide
  rcases rows : (folderRows (serverAfter (.numbered .unchanged) copiedInRoot).world.db.fs
    rootFsid).mapM listEntry with err | entries
  · rw [rows] at names
    cases names
  · rw [rows] at names
    have member : ['t'] ∈ entries.map ListEntry.relativeName := by
      rw [Except.ok.inj names]
      exact List.mem_cons_of_mem _ List.mem_cons_self
    obtain ⟨entry, inside, named⟩ := List.mem_map.mp member
    refine ⟨entries, entry, ?_, inside, named⟩
    rw [run_list rfl, rows]
    rfl

/-- No download of the copy succeeds. -/
theorem copiedInRoot_refused : ¬ TakenAsContent (.numbered .unchanged)
    (serverAfter (.numbered .unchanged) copiedInRoot).world [['t']] := by
  intro taken
  have ok : ((copy (.numbered .unchanged) copySource).run
      (serverAfter (.numbered .unchanged) [.upload uploadSource]).world).result = .ok () := by
    decide
  obtain ⟨key, record, resolved, there, copied⟩ := copy_destination ok
  have refused := @copied_refused _ _ _ _ copiedInRoot (by decide) resolved there copied none
  obtain ⟨err, failed⟩ := refused.1 0 0
  obtain ⟨page, served⟩ := taken.download 0
  cases failed.symm.trans served

/-! ## Both are listed as files -/

/-- **A folder is listed as a file, and `descend_path` goes through it.** A copied file is listed as
one too, and no download of it succeeds. -/
theorem folder_listed_as_file :
    (((list (.numbered .unchanged) ⟨some ⟨[], none⟩⟩).run
        (serverAfter (.numbered .unchanged) folderInRoot).world).result = .ok ⟨[listedFolder]⟩ ∧
      ¬ TypeReported (.numbered .unchanged)
        (serverAfter (.numbered .unchanged) folderInRoot).world [] listedFolder) ∧
    ∃ entries entry, ((list (.numbered .unchanged) ⟨some ⟨[], none⟩⟩).run
        (serverAfter (.numbered .unchanged) copiedInRoot).world).result = .ok ⟨entries⟩ ∧
      entry ∈ entries ∧ entry.relativeName = ['t'] ∧ entry.attrs.type = some .file ∧
      ¬ TypeReported (.numbered .unchanged)
        (serverAfter (.numbered .unchanged) copiedInRoot).world [] entry := by
  refine ⟨⟨root_lists_folder, fun reports => ?_⟩, ?_⟩
  · have descends : Descendable (.numbered .unchanged)
        (serverAfter (.numbered .unchanged) folderInRoot).world [['b']] :=
      ⟨parentIdOfRecord 1, by decide⟩
    cases reports.folder.mpr descends
  · obtain ⟨entries, entry, listed, member, named⟩ := root_lists_copy
    obtain ⟨_, _, _, _, type⟩ :=
      listed_record (serverAfter_represented _ copiedInRoot) listed member
    have reported : entry.attrs.type = some .file := type
    refine ⟨entries, entry, listed, member, named, reported, fun reports => ?_⟩
    have taken := reports.file.mp reported
    rw [named] at taken
    exact copiedInRoot_refused taken

end Yeetbox.Storage
