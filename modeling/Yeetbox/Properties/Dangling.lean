import Yeetbox.Storage.Entries

/-!
# Blobs that version rows name

The tables change in transactions and the blob directory does not, and the server may stop between
any two side effects of a request. A version row should always name a blob that is there. Two kinds
of request break this: a deletion of a file removes the blobs and never commits the removal of the
rows, and a final upload may present as its token the ULID of a blob that a row already names, and
rename it away, unless the server stops before the rename. Without them no row dangles, wherever
the server stops (`noDangling_of_keeps`).
-/

set_option autoImplicit false

namespace Yeetbox.Storage

open Library

variable (env : Env)

/-- Every version row that carries a path names a file in the blob directory. -/
def NoDangling (world : World) : Prop :=
  ∀ key row : Bytes, world.db.ver[key]? = some row → versionValueSize < row.length →
    ∃ content, world.blobs[inBlobs (row.drop versionValueSize)]? = some content

/-! ## A server that may stop -/

/-- A request and, when the server stops while it handles the request, after which side effect. (A
stop before the first one leaves the world as it was.) -/
structure Attempt where
  request : Request
  stop : Option ℕ := none

/-- What is left after a request, or after the server stopped in the middle of it. -/
def attempt (world : World) (label : Attempt) : World :=
  let outcome := (handle env label.request).run world
  match label.stop with
  | none => outcome.state
  | some stop => outcome.stops.getD stop outcome.state

/-- A request that takes away a blob that a version row names. -/
inductive DropsNamedBlob (world : World) : Request → Prop where
  | deletion (arg : DeleteArg) (target : RequestedFileId) (key : Bytes) (record : FsRecordValue)
      (version : FsVersion) (row : Bytes) (targeted : arg.target = some target)
      (file : FileAt env.toNormalization world.db.fs target.path key record)
      (current : target.versionIsNot record.latestVersion = false)
      (older : version.toNat ≤ record.latestVersion.toNat)
      (found : world.db.ver[rowKey record.id version]? = some row)
      (carries : versionValueSize < row.length) : DropsNamedBlob world (.delete arg)
  | finishing (arg : UploadArg) (target : FileId) (lastName : Name) (parentId : FileSystemId)
      (ulid : Ulid) (key row : Bytes) (targeted : arg.target = some target)
      (named : target.path.getLast? = some lastName) (complete : arg.incomplete = false)
      (presented : arg.continuation = ulid.toBytes)
      (walked : LeadsTo world.db.fs target.path.dropLast parentId)
      (free : world.db.fs[uploadKey env.toNormalization parentId lastName]? = none)
      (found : world.db.ver[key]? = some row) (carries : versionValueSize < row.length)
      (names : inBlobs (row.drop versionValueSize) = blobPath ulid) :
      DropsNamedBlob world (.upload arg)

/-- The side effect of a request that may take a blob away: the rename of an upload, which comes
after the opening and the writing of the blob, and the first removal of a deletion. -/
def droppingEffect : Request → ℕ
  | .upload _ => 2
  | _ => 0

/-- An attempt that takes away a blob that a version row names: the server does not stop before. -/
structure Attempt.DropsBlob (env : Env) (world : World) (label : Attempt) : Prop where
  request : DropsNamedBlob env world label.request
  reached : ∀ stop, label.stop = some stop → droppingEffect label.request ≤ stop

variable {env}

/-- What holds at every stop of a request and at its end holds after every attempt at it. -/
theorem attempt_holds {Holds : World → Prop} {world : World} {label : Attempt}
    (throughout : ((handle env label.request).run world).Throughout Holds) :
    Holds (attempt env world label) := by
  rw [attempt]
  rcases label.stop with _ | stop
  · exact throughout.state
  · dsimp only
    rw [List.getD_eq_getElem?_getD]
    rcases reached : ((handle env label.request).run world).stops[stop]? with _ | state
    · exact throughout.state
    · exact throughout.stops state (List.mem_of_getElem? reached)

/-! ## Keeping every file -/

/-- Every file of the one directory is in the other. -/
def KeepsFiles (before later : Table Bytes Bytes) : Prop :=
  ∀ path content : Bytes, before[path]? = some content → ∃ content', later[path]? = some content'

theorem keepsFiles_insert (blobs : Table Bytes Bytes) (path content : Bytes) :
    KeepsFiles blobs (blobs.insert path content) := by
  intro other content' found
  rw [Table.get_insert]
  split
  · exact ⟨_, rfl⟩
  · exact ⟨content', found⟩

theorem NoDangling.of_keeps {before later : World} (holds : NoDangling before)
    (ver : later.db.ver = before.db.ver) (keeps : KeepsFiles before.blobs later.blobs) :
    NoDangling later := by
  intro key row found carries
  rw [ver] at found
  obtain ⟨content, there⟩ := holds key row found carries
  exact keeps _ content there

theorem NoDangling.of_same {before later : World} (holds : NoDangling before)
    (ver : later.db.ver = before.db.ver) (blobs : later.blobs = before.blobs) : NoDangling later :=
  holds.of_keeps ver fun _ content found => ⟨content, blobs ▸ found⟩

theorem NoDangling.advance {world : World} (holds : NoDangling world) (count : ℕ) :
    NoDangling (world.advance count) :=
  holds

/-- A file that no row names may be renamed. -/
theorem NoDangling.rename {world : World} (holds : NoDangling world) {source target : Bytes}
    (unnamed : ∀ key row : Bytes, world.db.ver[key]? = some row → versionValueSize < row.length →
      inBlobs (row.drop versionValueSize) ≠ source) (content : Bytes) :
    NoDangling (world.withBlobs ((world.blobs.erase source).insert target content)) := by
  intro key row found carries
  obtain ⟨before, there⟩ := holds key row found carries
  rw [World.withBlobs_blobs, Table.get_insert]
  split
  · exact ⟨content, rfl⟩
  · rw [Table.get_erase_ne _ (unnamed key row found carries)]
    exact ⟨before, there⟩

/-! ## One request at a time -/

variable {world : World}

theorem MakeDirectoryCases.noDangling {arg : MakeDirectoryArg} {outcome : Outcome World Status Unit}
    (cases : MakeDirectoryCases env world arg outcome) (holds : NoDangling world) :
    outcome.Throughout NoDangling := by
  cases cases with
  | refused err notCreated => exact .still holds _
  | created target lastName parentId later targeted named walked free result =>
      exact .single (holds.of_same (by rw [result]; rfl) (by rw [result]; rfl)) _

theorem noDangling_received {drawn : World} {arg : UploadArg} {ulid : Ulid}
    (token : UploadToken env world arg ulid drawn) (holds : NoDangling world) :
    NoDangling (withOpened drawn ulid) ∧ NoDangling (withReceived env drawn arg ulid) := by
  have start : NoDangling drawn := holds.of_same (congrArg Db.ver token.db) token.blobs
  exact ⟨start.of_keeps rfl (keepsFiles_insert _ _ _), start.of_keeps rfl (keepsFiles_insert _ _ _)⟩

/-- A row for a blob that is there may be added. -/
theorem NoDangling.withNewFile {moved : World} (holds : NoDangling moved) {db : Db} {key : Bytes}
    (ver : moved.db.ver = db.ver) {name : Name} {record : FsRecordValue}
    {version : VersionRecordValue} {ulid : Ulid} {content : Bytes}
    (there : moved.blobs[blobPath ulid]? = some content) :
    NoDangling (moved.withDb (withNewFile db key name record version (blobPath ulid))) := by
  intro rowKey' row found carries
  rw [World.withDb_blobs]
  rw [World.withDb_db, Storage.withNewFile, Table.get_insert] at found
  split at found
  · rw [Option.some_inj] at found
    rw [← found, drop_versionValue_append, inBlobs_blobPath]
    exact ⟨content, there⟩
  · exact holds rowKey' row (ver ▸ found) carries

theorem UploadCases.noDangling {arg : UploadArg} {outcome : Outcome World Status UploadResult}
    (cases : UploadCases env world arg outcome) (keeps : ¬ DropsNamedBlob env world (.upload arg))
    (holds : NoDangling world) : outcome.Throughout NoDangling := by
  cases cases with
  | refused err notCheck => exact .still holds _
  | fragment ulid drawn token incomplete =>
      obtain ⟨opened, received⟩ := noDangling_received token holds
      exact ⟨by simpa using ⟨opened, received⟩, received⟩
  | final target lastName ulid drawn finished targeted named token complete finish =>
      obtain ⟨opened, received⟩ := noDangling_received token holds
      have db : (withReceived env drawn arg ulid).db = world.db := token.db
      refine .after ?_ (by simpa using ⟨opened, received⟩)
      cases finish with
      | rejected err count check => exact .still (received.advance count) _
      | broken err count notCheck reason => exact .still (received.advance count) _
      | committed parentId saved moved later stops walked free save result =>
          rw [db] at walked free result
          cases save with
          | single fresh =>
              refine .single ?_ _
              rw [result]
              exact (received.advance 4).withNewFile (congrArg Db.ver db)
                (Table.get_insert_self _ _ _)
          | renamed content _ continued there moves =>
              have unnamed : ∀ key row : Bytes, world.db.ver[key]? = some row →
                  versionValueSize < row.length →
                    inBlobs (row.drop versionValueSize) ≠ blobPath ulid := by
                intro key row found carries names
                cases token with
                | fresh new => exact continued new
                | continued _ presented =>
                    have leads := walkFolders_eq_ok_iff.mp walked
                    rw [List.map_id] at leads
                    exact keeps (.finishing arg target lastName parentId ulid key row targeted named
                      complete presented leads free found carries names)
              have renamed : NoDangling moved := by
                rw [moves]
                exact (received.advance 5).rename (db ▸ unnamed) content
              have finished : NoDangling later := by
                have ver : moved.db.ver = world.db.ver := by rw [moves, ← db]; rfl
                have saved : moved.blobs[blobPath (env.newUlid
                    ((withReceived env drawn arg ulid).calls + 4))]? = some content := by
                  rw [moves]
                  exact Table.get_insert_self _ _ _
                rw [result]
                exact renamed.withNewFile ver saved
              exact ⟨by simpa using ⟨renamed, finished⟩, finished⟩

/-- Up to the rename, an upload leaves the rows and every file in place. -/
theorem UploadCases.noDangling_early {arg : UploadArg} {outcome : Outcome World Status UploadResult}
    (cases : UploadCases env world arg outcome) (holds : NoDangling world) {stop : ℕ}
    (early : stop < 2) : NoDangling (outcome.stops.getD stop outcome.state) := by
  have first : stop = 0 ∨ stop = 1 := by omega
  cases cases with
  | refused err notCheck => exact holds
  | fragment ulid drawn token incomplete =>
      obtain ⟨opened, received⟩ := noDangling_received token holds
      rcases first with rfl | rfl
      · exact opened
      · exact received
  | final target lastName ulid drawn finished targeted named token complete finish =>
      obtain ⟨opened, received⟩ := noDangling_received token holds
      rcases first with rfl | rfl
      · exact opened
      · exact received

theorem AppendCases.noDangling {arg : AppendArg} {outcome : Outcome World Status Unit}
    (cases : AppendCases env world arg outcome) (holds : NoDangling world) :
    outcome.Throughout NoDangling := by
  cases cases with
  | refused err => exact .still holds _
  | appended target fileKey record path content later targeted resolved head there result =>
      have longer : NoDangling later := by
        rw [result]
        exact holds.of_keeps rfl (keepsFiles_insert _ _ _)
      exact ⟨by simpa using longer, longer.of_same rfl rfl⟩

theorem DownloadCases.noDangling {outcome : Outcome World Status DownloadResult}
    (cases : DownloadCases world outcome) (holds : NoDangling world) :
    outcome.Throughout NoDangling := by
  cases cases with
  | refused err => exact .still holds _
  | served result => exact .still (holds.advance 1) _

theorem DeleteCases.noDangling {arg : DeleteArg} {outcome : Outcome World Status DeleteResult}
    (cases : DeleteCases env world arg outcome) (keeps : ¬ DropsNamedBlob env world (.delete arg))
    (holds : NoDangling world) : outcome.Throughout NoDangling := by
  cases cases with
  | refused err => exact .still holds _
  | removed target fileKey value record later targeted resolved found decoded other result =>
      exact .single (holds.of_same (by rw [result]; rfl) (by rw [result]; rfl)) _
  | blobs target fileKey value record _ targeted resolved found decoded current versioned follows =>
      refine follows.invariant holds ?_
      rintro before later ⟨version, row, older, there, carries, _⟩ _
      exact absurd (.deletion arg target fileKey record version row targeted
        ⟨resolved, ⟨value, found, decoded⟩, versioned⟩ current older there carries) keeps

theorem MoveCases.noDangling {arg : MoveArg} {outcome : Outcome World Status Unit}
    (cases : MoveCases env world arg outcome) (holds : NoDangling world) :
    outcome.Throughout NoDangling := by
  cases cases with
  | refused err => exact .still holds _
  | moved target source value record destParentId destFileName later targeted resolved named walked
      found decoded free result =>
      exact .single (holds.of_same (by rw [result]; rfl) (by rw [result]; rfl)) _

theorem CopyCases.noDangling {arg : CopyArg} {outcome : Outcome World Status Unit}
    (cases : CopyCases env world arg outcome) (holds : NoDangling world) :
    outcome.Throughout NoDangling := by
  have copy : ∀ {copied : World} {stops : List World},
      CopiedBlob (world.advance 1) (env.newUlid world.calls) copied stops →
        (∀ stop ∈ stops, NoDangling stop) ∧ NoDangling copied := by
    intro copied stops blob
    cases blob with
    | nothing => exact ⟨by simp, holds.advance 1⟩
    | copied content _ result =>
        have more : NoDangling copied := by
          rw [result]
          exact holds.of_keeps rfl (keepsFiles_insert _ _ _)
        exact ⟨by simpa using more, more⟩
  cases cases with
  | refused err => exact .still holds _
  | stopped err copied stops count blob =>
      obtain ⟨before, reached⟩ := copy blob
      exact ⟨before, reached.advance count⟩
  | created destParentId destFileName copied later stops named walked free blob result =>
      obtain ⟨before, reached⟩ := copy blob
      have db : copied.db = world.db := blob.db
      have finished : NoDangling later := by
        rw [result]
        exact reached.of_same (by rw [db]; rfl) rfl
      exact (Outcome.Throughout.single finished (.ok ())).after before

theorem list_noDangling (arg : ListArg) (holds : NoDangling world) :
    ((list env arg).run world).Throughout NoDangling := by
  obtain ⟨state, stops⟩ := list_unchanged env world arg
  exact ⟨by rw [stops]; simp, by rw [state]; exact holds⟩

/-- **A request that drops no named blob leaves no row dangling, wherever the server stops.** -/
theorem handle_noDangling (req : Request) (keeps : ¬ DropsNamedBlob env world req)
    (holds : NoDangling world) : ((handle env req).run world).Throughout NoDangling := by
  cases req with
  | makeDirectory arg => exact ((makeDirectory_cases env world arg).noDangling holds).map _
  | upload arg => exact ((upload_cases env world arg).noDangling keeps holds).map _
  | append arg => exact ((append_cases env world arg).noDangling holds).map _
  | download arg => exact ((download_cases env world arg).noDangling holds).map _
  | delete arg => exact ((delete_cases env world arg).noDangling keeps holds).map _
  | list arg => exact (list_noDangling arg holds).map _
  | move arg => exact ((move_cases env world arg).noDangling holds).map _
  | copy arg => exact ((copy_cases env world arg).noDangling holds).map _

/-- A stop before a request would take a blob away leaves no row dangling. -/
theorem attempt_early {label : Attempt} {stop : ℕ} (stopped : label.stop = some stop)
    (early : stop < droppingEffect label.request) (holds : NoDangling world) :
    NoDangling (attempt env world label) := by
  obtain ⟨req, count⟩ := label
  cases stopped
  cases req with
  | upload arg => exact (upload_cases env world arg).noDangling_early holds early
  | _ => exact absurd early (Nat.not_lt_zero stop)

/-- **An attempt that takes away no named blob leaves no row dangling.** -/
theorem attempt_noDangling {label : Attempt} (keeps : ¬ label.DropsBlob env world)
    (holds : NoDangling world) : NoDangling (attempt env world label) := by
  by_cases drops : DropsNamedBlob env world label.request
  · have early : ∃ stop, label.stop = some stop ∧ stop < droppingEffect label.request := by
      by_contra never
      refine keeps ⟨drops, fun stop stopped => ?_⟩
      exact Nat.le_of_not_lt fun early => never ⟨stop, stopped, early⟩
    obtain ⟨stop, stopped, early⟩ := early
    exact attempt_early stopped early holds
  · exact attempt_holds (handle_noDangling label.request drops holds)

/-- **No version row dangles in a state reached by attempts that take away no named blob, wherever
the server stops on the way.** -/
theorem noDangling_of_keeps (env : Env) (labels : List Attempt)
    (keep : Guarded (attempt env) (fun world label => ¬ label.DropsBlob env world) .empty labels) :
    NoDangling (runAll (attempt env) .empty labels) := by
  refine keep.invariant (fun world label keeps holds => attempt_noDangling keeps holds) ?_
  intro key row found
  exact absurd found (World.empty_row key row)

/-- An upload that presents the ULID of a blob that is named already, and during which the server
stops before the rename. -/
def stoppedUpload : List Attempt :=
  [⟨.upload uploadOneFile, none⟩,
    ⟨.upload { uploadOneFile with continuation := Ulid.toBytes 0, target := some ⟨[['b']]⟩ },
      some 1⟩]

theorem stoppedUpload_noDangling :
    NoDangling (runAll (attempt (.numbered .unchanged)) .empty stoppedUpload) := by
  refine noDangling_of_keeps (.numbered .unchanged) stoppedUpload ⟨?_, ?_, trivial⟩
  · rintro ⟨drops, _⟩
    cases drops with
    | finishing _ _ _ _ ulid _ _ _ _ _ presented => exact Ulid.toBytes_ne_nil ulid presented.symm
  · rintro ⟨_, reached⟩
    exact absurd (reached 1 rfl) (by decide)

/-- After an upload and a deletion the row of the file is left, and its blob is gone. -/
theorem uploadThenDelete_dangling :
    ¬ NoDangling (runAll (attempt (.numbered .unchanged)) .empty
      [⟨.upload uploadOneFile, none⟩, ⟨.delete deleteOneFile, none⟩]) := by
  intro holds
  obtain ⟨content, there⟩ := holds (rowKey 1 1) _ rfl (by decide)
  exact absurd (Option.isSome_iff_exists.mpr ⟨content, there⟩) (by decide)

end Yeetbox.Storage
