import Yeetbox.Storage.Owners

/-!
# The owner of a version row

No two files share their versions: every version row belongs to exactly one object of the table, its
id is one that the counter has given out, and no request writes other bytes over it. This holds in
every run that does not exhaust the ids (`rows_have_one_owner`).
-/

set_option autoImplicit false

namespace Yeetbox.Storage

open Library

/-- Objects that are no folders have distinct ids from 1 up to the counter, and every version row
belongs to exactly one of them. -/
structure RowsOwned (db : Db) : Prop where
  distinct : ∀ {first second one other}, RecordAt db.fs first one → RecordAt db.fs second other →
    NotFolder one → NotFolder other → one.id = other.id → first = second
  range : ∀ {key record}, RecordAt db.fs key record → NotFolder record →
    1 ≤ record.id.toNat ∧ record.id.toNat ≤ (db.lastId fsTableName).toNat
  rows : ∀ key row : Bytes, db.ver[key]? = some row → ∃ (id : FileSystemId) (version : FsVersion),
    key = rowKey id version ∧ id.toNat ≤ (db.lastId fsTableName).toNat ∧
      ∃! entry, ∃ record, RecordAt db.fs entry record ∧ NotFolder record ∧ record.id = id ∧
        1 ≤ version.toNat ∧ version.toNat ≤ record.latestVersion.toNat

/-- Rows that stay in the table have the same bytes. -/
def KeepsRows (before later : Db) : Prop :=
  ∀ key row row' : Bytes, before.ver[key]? = some row → later.ver[key]? = some row' → row' = row

theorem Owned.rowsOwned {db : Db} {allocated : ℕ} (owned : Owned db)
    (counted : Counted db allocated) : RowsOwned db where
  distinct := counted.ids.unique
  range there notFolder := ⟨owned.positive there notFolder, counted.ids.bound there notFolder⟩
  rows := by
    intro key row found
    obtain ⟨entry, record, there, versioned, first, same⟩ := owned.rows key row found
    have notFolder : NotFolder record := by
      rw [NotFolder, versioned]
      decide
    refine ⟨record.id, 1, same, counted.ids.bound there notFolder, entry, ?_, ?_⟩
    · exact ⟨record, there, notFolder, rfl, by decide, by rw [first]⟩
    · rintro other ⟨record', there', notFolder', id, _⟩
      exact counted.ids.unique there' there notFolder' notFolder id

theorem Commits.keepsRows {env : Env} {server later : Server} {req : Request}
    (commits : Commits env server req later) (counted : Counted server.world.db server.allocated)
    (few : server.allocated < 2 ^ 64 - 1) : KeepsRows server.world.db later.world.db := by
  intro key row row' before after
  have kept := commits.row_kept before (counted.not_next few before)
  rw [kept, Option.some_inj] at after
  exact after.symm

/-- **Version rows have exactly one owner, and no request of the run writes over them.** -/
theorem rows_have_one_owner (env : Env) (requests : List Request)
    (few : (serverAfter env requests).allocated < 2 ^ 64 - 1) :
    RowsOwned (serverAfter env requests).world.db ∧
      ∀ before req after, requests = before ++ req :: after →
        KeepsRows (serverAfter env before).world.db
          (serve env (serverAfter env before) req).world.db := by
  refine ⟨(serverAfter_owned env requests few).rowsOwned (serverAfter_counted env requests few), ?_⟩
  rintro before req after rfl
  have fewer : (serverAfter env before).allocated < 2 ^ 64 - 1 := by
    refine lt_of_le_of_lt ?_ few
    rw [serverAfter_append]
    exact le_runAll (allocated_le env) _ _
  have commits :
      Commits env (serverAfter env before) req (serve env (serverAfter env before) req) :=
    serve_commits _ req
  exact commits.keepsRows (serverAfter_counted env before fewer) fewer

/-- A folder takes the id after the counter, and a file then takes the same id. -/
def folderAndFiles : List Request :=
  [.makeDirectory { target := some ⟨[['d']]⟩ },
    .upload { target := some ⟨[['d'], ['x']]⟩, data := { bytes := [21] } },
    .copy { target := some ⟨[['d'], ['x']], none⟩, destination := [['y']] },
    .move { target := some ⟨[['d']], none⟩, destination := [['e']] }]

theorem folderAndFiles_one_owner :
    RowsOwned (serverAfter (.numbered .unchanged) folderAndFiles).world.db ∧
      ∀ before req after, folderAndFiles = before ++ req :: after →
        KeepsRows (serverAfter (.numbered .unchanged) before).world.db
          (serve (.numbered .unchanged) (serverAfter (.numbered .unchanged) before) req).world.db :=
  rows_have_one_owner (.numbered .unchanged) folderAndFiles (by decide +kernel)

end Yeetbox.Storage
