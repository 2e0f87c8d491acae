import Yeetbox.Storage.Frame

/-!
# Rows, blobs and ULIDs

Every version row is the first version of its file and names the blob of a ULID drawn before
(`RowsDrawn`). As long as ULIDs are fresh, and no client presents one before it is drawn, the blobs
of the ULIDs that are yet to be drawn are absent, and no two rows name the same blob
(`BlobsSound`).
-/

set_option autoImplicit false

namespace Yeetbox.Storage

open Library

variable (env : Env)

/-- A version row names the blob of the ULID that a call drew. -/
def RowNames (ver : Table Bytes Bytes) (key : Bytes) (call : ℕ) : Prop :=
  ∃ version : VersionRecordValue,
    ver[key]? = some (version.bytesOf ++ blobPath (env.newUlid call))

/-- Every version row is the first of its file and names the blob of a ULID drawn before. -/
def RowsDrawn (world : World) : Prop :=
  ∀ key row : Bytes, world.db.ver[key]? = some row → ∃ id version call, key = rowKey id 1 ∧
    call < world.calls ∧ row = VersionRecordValue.bytesOf version ++ blobPath (env.newUlid call)

variable {env}

/-! ## Where rows come from -/

/-- **A row is there already, or the request commits it for a new file and a ULID that it
draws.** -/
theorem Commits.row_cases {server later : Server} {req : Request}
    (commits : Commits env server req later) {key row : Bytes}
    (found : later.world.db.ver[key]? = some row) :
    server.world.db.ver[key]? = some row ∨
      ∃ version call, key = rowKey (server.world.db.lastId fsTableName + 1) 1 ∧
        server.world.calls ≤ call ∧ call < later.world.calls ∧
        row = VersionRecordValue.bytesOf version ++ blobPath (env.newUlid call) := by
  cases commits with
  | nothing db => exact .inl (db ▸ found)
  | folder arg parentId lastName asked creates free counted db =>
      rw [db] at found
      exact .inl found
  | file parentId lastName record version call free id type first drawn before counted db =>
      rw [db, withNewFile] at found
      rcases Table.of_get_insert found with ⟨same, content⟩ | older
      · exact .inr ⟨version, call, id ▸ same, drawn, before, content⟩
      · exact .inl older
  | removed arg source value record asked there decoded other db =>
      rw [db] at found
      exact .inl found
  | moved arg source value record parentId name asked there decoded free db =>
      rw [db] at found
      exact .inl found
  | copied parentId name call time free counted db =>
      rw [db] at found
      exact .inl found

/-- A row stays as it is unless it is that of the next id. -/
theorem Commits.row_kept {server later : Server} {req : Request}
    (commits : Commits env server req later) {key row : Bytes}
    (found : server.world.db.ver[key]? = some row)
    (older : key ≠ rowKey (server.world.db.lastId fsTableName + 1) 1) :
    later.world.db.ver[key]? = some row := by
  cases commits with
  | nothing db => rw [db]; exact found
  | folder arg parentId lastName asked creates free counted db => rw [db]; exact found
  | file parentId lastName record version call free id type first drawn before counted db =>
      rw [db, withNewFile, Table.get_insert_ne _ _ (id ▸ older), found]
  | removed arg source value record asked there decoded other db => rw [db]; exact found
  | moved arg source value record parentId name asked there decoded free db => rw [db]; exact found
  | copied parentId name call time free counted db => rw [db]; exact found

/-- `VER_TABLE` is not dropped. -/
theorem Commits.verCreated_kept {server later : Server} {req : Request}
    (commits : Commits env server req later) (created : server.world.db.verCreated = true) :
    later.world.db.verCreated = true := by
  cases commits with
  | nothing db => rw [db]; exact created
  | folder arg parentId lastName asked creates free counted db => rw [db]; exact created
  | file parentId lastName record version call free id type first drawn before counted db =>
      rw [db, withNewFile]
  | removed arg source value record asked there decoded other db => rw [db]; exact created
  | moved arg source value record parentId name asked there decoded free db =>
      rw [db]
      exact created
  | copied parentId name call time free counted db => rw [db]; exact created

theorem RowsDrawn.empty : RowsDrawn env .empty := by
  intro key row found
  exact absurd found (World.empty_row key row)

theorem RowsDrawn.served {server : Server} (drawn : RowsDrawn env server.world) (req : Request) :
    RowsDrawn env (serve env server req).world := by
  have rises : server.world.calls ≤ (serve env server req).world.calls := serve_calls_le server req
  intro key row found
  rcases (serve_commits server req).row_cases found with before | ⟨version, call, rfl, _, late, rfl⟩
  · obtain ⟨id, version, call, rfl, early, rfl⟩ := drawn key row before
    exact ⟨id, version, call, rfl, early.trans_le rises, rfl⟩
  · exact ⟨_, version, call, rfl, late, rfl⟩

/-- **Every row of a reachable state names the blob of a ULID drawn before.** -/
theorem serverAfter_rowsDrawn (env : Env) (requests : List Request) :
    RowsDrawn env (serverAfter env requests).world := by
  have kept : ∀ server req, RowsDrawn env server.world →
      RowsDrawn env (serve env server req).world := by
    intro server req drawn
    exact drawn.served req
  exact runAll_invariant kept requests .empty

theorem RowNames.congr {ver : Table Bytes Bytes} {key : Bytes} {first second : ℕ}
    (names : RowNames env ver key first) (same : env.newUlid first = env.newUlid second) :
    RowNames env ver key second := by
  obtain ⟨version, found⟩ := names
  exact ⟨version, same ▸ found⟩

/-- A row determines the ULID whose blob it names. -/
theorem ulid_of_row_eq {one other : VersionRecordValue} {first second : Ulid}
    (same : one.bytesOf ++ blobPath first = other.bytesOf ++ blobPath second) : first = second :=
  blobPath_injective (List.append_inj same (by simp)).2

/-! ## What a touched blob is -/

/-- The path in a row is that of the blob that it names. -/
theorem RowsDrawn.path {world : World} (drawn : RowsDrawn env world) {key row : Bytes}
    (found : world.db.ver[key]? = some row) : ∃ call, RowNames env world.db.ver key call ∧
      call < world.calls ∧ inBlobs (row.drop versionValueSize) = blobPath (env.newUlid call) := by
  obtain ⟨id, version, call, rfl, early, rfl⟩ := drawn key row found
  refine ⟨call, ⟨version, found⟩, early, ?_⟩
  rw [drop_versionValue_append, inBlobs_blobPath]

/-- A touched blob is that of the presented token, of a ULID drawn meanwhile, or of a row. -/
theorem RowsDrawn.touches {world later : World} (drawn : RowsDrawn env world) {req : Request}
    {path : Bytes} (touches : Touches env world later req path) :
    (∃ ulid, req.token = Ulid.toBytes ulid ∧ path = blobPath ulid) ∨
      (∃ call, world.calls ≤ call ∧ call < later.calls ∧ path = blobPath (env.newUlid call)) ∨
      ∃ key call, RowNames env world.db.ver key call ∧ call < world.calls ∧
        path = blobPath (env.newUlid call) := by
  cases touches with
  | presented arg ulid token => exact .inl ⟨ulid, token, rfl⟩
  | drawn req call early late => exact .inr (.inl ⟨call, early, late, rfl⟩)
  | appended arg target key record path targeted resolved head =>
      obtain ⟨row, found, _, rfl⟩ := head.row
      obtain ⟨call, names, early, same⟩ := drawn.path found
      exact .inr (.inr ⟨_, call, names, early, same⟩)
  | deleted arg target key record version row targeted file found =>
      obtain ⟨call, names, early, same⟩ := drawn.path found
      exact .inr (.inr ⟨_, call, names, early, same⟩)

/-! ## Blobs that rows name and blobs that are yet to come -/

/-- Rows name blobs of ULIDs drawn before, no two of them the same one, and the blobs of the ULIDs
that are yet to be drawn are absent. -/
structure BlobsSound (env : Env) (horizon : ℕ) (world : World) : Prop where
  rows : RowsDrawn env world
  distinct : ∀ {first second call}, RowNames env world.db.ver first call →
    RowNames env world.db.ver second call → first = second
  absent : ∀ call, world.calls ≤ call → call < horizon →
    world.blobs[blobPath (env.newUlid call)]? = none

theorem BlobsSound.empty (horizon : ℕ) : BlobsSound env horizon .empty where
  rows := .empty
  distinct := by
    rintro first second call ⟨version, found⟩
    exact absurd found (World.empty_row _ _)
  absent call _ _ := Option.eq_none_iff_forall_ne_some.mpr (World.empty_blob _)

/-- The ULID that is drawn next names no blob. -/
theorem BlobsSound.absent_next {horizon : ℕ} {world : World} (sound : BlobsSound env horizon world)
    (below : world.calls < horizon) : world.blobs[blobPath (env.newUlid world.calls)]? = none :=
  sound.absent world.calls (Nat.le_refl _) below

section Fresh

variable {horizon : ℕ} (fresh : env.FreshBelow horizon)
include fresh

/-- No row names a ULID that is yet to be drawn. -/
theorem RowsDrawn.unnamed {world : World} (rows : RowsDrawn env world) {call : ℕ}
    (later : world.calls ≤ call) (below : call < horizon) (key : Bytes) :
    ¬ RowNames env world.db.ver key call := by
  rintro ⟨version, found⟩
  obtain ⟨_, _, older, _, early, same⟩ := rows key _ found
  have calls := fresh below (by omega) (ulid_of_row_eq same)
  omega

/-- A ULID drawn before a request is not the one that it names in a new row. -/
theorem RowsDrawn.names_older {server : Server} {req : Request} {key : Bytes} {call : ℕ}
    (bounded : (serve env server req).world.calls ≤ horizon) (drawn : call < server.world.calls)
    (names : RowNames env (serve env server req).world.db.ver key call) :
    RowNames env server.world.db.ver key call := by
  obtain ⟨version, found⟩ := names
  rcases (serve_commits server req).row_cases found with before | ⟨_, newCall, _, early, late, same⟩
  · exact ⟨version, before⟩
  · have calls := fresh (by omega) (by omega) (ulid_of_row_eq same)
    omega

/-- **A request keeps rows and blobs sound, unless it presents a ULID before it is drawn.** -/
theorem BlobsSound.served {server : Server} {req : Request}
    (sound : BlobsSound env horizon server.world) (unforeseen : Unforeseen env horizon server req)
    (bounded : (serve env server req).world.calls ≤ horizon) :
    BlobsSound env horizon (serve env server req).world := by
  have rises : server.world.calls ≤ (serve env server req).world.calls := serve_calls_le server req
  refine ⟨sound.rows.served req, ?_, ?_⟩
  · rintro first second call ⟨version, found⟩ ⟨version', found'⟩
    have older : ∀ {key : Bytes} {version : VersionRecordValue},
        server.world.db.ver[key]? = some (version.bytesOf ++ blobPath (env.newUlid call)) →
          ∃ before, before < server.world.calls ∧ env.newUlid call = env.newUlid before := by
      intro key version there
      obtain ⟨_, _, before, _, early, same⟩ := sound.rows key _ there
      exact ⟨before, early, ulid_of_row_eq same⟩
    rcases (serve_commits server req).row_cases found with
      before | ⟨_, new, rfl, early, late, same⟩ <;>
    rcases (serve_commits server req).row_cases found' with
      before' | ⟨_, new', rfl, early', late', same'⟩
    · exact sound.distinct ⟨version, before⟩ ⟨version', before'⟩
    · obtain ⟨old, oldEarly, oldSame⟩ := older before
      have calls := fresh (by omega) (by omega) (oldSame.symm.trans (ulid_of_row_eq same'))
      omega
    · obtain ⟨old, oldEarly, oldSame⟩ := older before'
      have calls := fresh (by omega) (by omega) (oldSame.symm.trans (ulid_of_row_eq same))
      omega
    · rfl
  · intro call later below
    have kept : (serve env server req).world.blobs[blobPath (env.newUlid call)]? =
        server.world.blobs[blobPath (env.newUlid call)]? := by
      refine serve_blob_kept fun touches => ?_
      rcases sound.rows.touches touches with
        ⟨ulid, token, path⟩ | ⟨other, early, late, path⟩ | ⟨key, other, names, early, path⟩
      · have same := blobPath_injective path
        exact unforeseen call below (rises.trans later) (same ▸ token)
      · have calls := fresh (by omega) (by omega) (blobPath_injective path)
        omega
      · have calls := fresh (by omega) (by omega) (blobPath_injective path)
        omega
    rw [kept]
    exact sound.absent call (rises.trans later) below

end Fresh

/-! ## Files have one version -/

/-- The latest version of a file is its first, and the table of rows exists when there is one. -/
structure FirstVersions (db : Db) : Prop where
  latest : ∀ {key record}, RecordAt db.fs key record → record.type = objTypeVersionBlob →
    record.latestVersion = 1
  created : ∀ {key row : Bytes}, db.ver[key]? = some row → db.verCreated = true

theorem FirstVersions.empty : FirstVersions World.empty.db where
  latest := by
    intro key record there
    exact absurd there not_recordAt_empty
  created := by
    intro key row found
    exact absurd found (World.empty_row key row)

theorem Commits.firstVersions {server later : Server} {req : Request}
    (commits : Commits env server req later) (first : FirstVersions server.world.db) :
    FirstVersions later.world.db := by
  have inserted : ∀ {fs : Table Bytes Bytes} {added rest : Bytes} {new : FsRecordValue},
      (new.type = objTypeVersionBlob → new.latestVersion = 1) →
      (∀ {key record}, RecordAt fs key record → record.type = objTypeVersionBlob →
        record.latestVersion = 1) →
      ∀ {key record}, RecordAt (fs.insert added (new.bytesOf ++ rest)) key record →
        record.type = objTypeVersionBlob → record.latestVersion = 1 := by
    intro fs added rest new isFirst before key record there versioned
    rcases recordAt_insert_iff.mp there with ⟨_, rfl⟩ | ⟨_, earlier⟩
    · exact isFirst versioned
    · exact before earlier versioned
  cases commits with
  | nothing db => rwa [db]
  | folder arg parentId lastName asked creates free counted db =>
      rw [db]
      exact ⟨inserted (fun versioned => absurd versioned (by decide : objTypeFolder ≠ _))
        first.latest, first.created⟩
  | file parentId lastName record version call free id type isFirst drawn before counted db =>
      rw [db]
      exact ⟨inserted (fun _ => isFirst) first.latest, fun _ => rfl⟩
  | removed arg key value record asked found decoded other db =>
      rw [db]
      exact ⟨fun there => first.latest (recordAt_erase_iff.mp there).2, first.created⟩
  | moved arg source value record parentId name asked found decoded free db =>
      rw [db]
      exact ⟨inserted (first.latest ⟨value, found, decoded⟩)
        fun there => first.latest (recordAt_erase_iff.mp there).2, first.created⟩
  | copied parentId name call time free counted db =>
      rw [db]
      exact ⟨inserted (fun _ => rfl) first.latest, first.created⟩

/-- **A file has one version after every run.** -/
theorem serverAfter_firstVersions (env : Env) (requests : List Request) :
    FirstVersions (serverAfter env requests).world.db := by
  have kept : ∀ server req, FirstVersions server.world.db →
      FirstVersions (serve env server req).world.db := by
    intro server req first
    have commits : Commits env server req (serve env server req) := serve_commits server req
    exact commits.firstVersions first
  exact runAll_invariant kept requests .empty

end Yeetbox.Storage
