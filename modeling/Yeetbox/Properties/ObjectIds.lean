import Yeetbox.Storage.Identifiers

/-!
# Object ids

The children of a folder are found by its id, so two objects should never share one. Uploads and
copies take their ids from the counter and move it on. `make_directory` takes the next id and
leaves the counter where it is, so the folder's id is above the counter at once, and the next
object gets the same id. Ids are unique along a run exactly when no request of it creates a folder
(`objectIdsUnique_iff`).
-/

set_option autoImplicit false

namespace Yeetbox.Storage

open Library

/-- Distinct keys hold different ids, and the counter is at least every id. -/
structure ObjectIdsUnique (db : Db) : Prop where
  distinct : ∀ {first second one other}, RecordAt db.fs first one → RecordAt db.fs second other →
    one.id = other.id → first = second
  counter : ∀ {key record}, RecordAt db.fs key record →
    record.id.toNat ≤ (db.lastId fsTableName).toNat

variable (env : Env)

/-- The request makes a folder: it is a `make_directory` whose checks pass. -/
def MakesFolder (server : Server) : Request → Prop
  | .makeDirectory arg => CreatesFolder env server.world arg
  | _ => False

/-- No entry is a folder. -/
def NoFolders (fs : Table Bytes Bytes) : Prop :=
  ∀ key record, RecordAt fs key record → NotFolder record

theorem NoFolders.empty : NoFolders ∅ := by
  rintro key record ⟨value, found, _⟩
  simp at found

variable {env}

/-- A request that makes no folder leaves a table without folders without folders. -/
theorem Commits.noFolders {server later : Server} {req : Request}
    (commits : Commits env server req later) (makesNone : ¬ MakesFolder env server req)
    (none : NoFolders server.world.db.fs) : NoFolders later.world.db.fs := by
  intro key record there
  cases commits with
  | nothing db => exact none _ _ (db ▸ there)
  | folder arg parentId lastName asked creates free counted db =>
      rw [asked] at makesNone
      exact absurd creates makesNone
  | file parentId lastName newRecord version call free id type first drawn before counted db =>
      rw [db] at there
      rcases recordAt_insert_iff.mp there with ⟨_, rfl⟩ | ⟨_, before⟩
      · rw [NotFolder, type]
        decide
      · exact none _ _ before
  | removed arg source value removed asked found decoded other db =>
      rw [db] at there
      exact none _ _ (recordAt_erase_iff.mp there).2
  | moved arg source value moved parentId name asked found decoded free db =>
      rw [db] at there
      rcases recordAt_insert_iff.mp there with ⟨_, rfl⟩ | ⟨_, before⟩
      · exact none _ _ ⟨value, found, decoded⟩
      · exact none _ _ (recordAt_erase_iff.mp before).2
  | copied parentId name call time free counted db =>
      rw [db] at there
      rcases recordAt_insert_iff.mp there with ⟨_, rfl⟩ | ⟨_, before⟩
      · show objTypeNormalBlob ≠ objTypeFolder
        decide
      · exact none _ _ before

/-- The id of a new folder is above the counter. -/
theorem MakesFolder.not_unique {server : Server} {req : Request}
    (makes : MakesFolder env server req)
    (noWrap : (server.world.db.lastId fsTableName).toNat + 1 < 2 ^ 64) :
    ¬ ObjectIdsUnique (serve env server req).world.db := by
  intro unique
  cases req with
  | makeDirectory arg =>
      have outcome := makeDirectory_cases env server.world arg
      rw [serve_makeDirectory_world] at unique
      generalize (makeDirectory env arg).run server.world = done at outcome unique
      cases outcome with
      | refused err notCreated => exact notCreated makes
      | created target lastName parentId later targeted named walked free result =>
          rw [result, World.withDb_db] at unique
          have above := unique.counter (recordAt_insert_iff.mpr (.inl ⟨rfl, rfl⟩))
          rw [lastId_withNewFolder, newFolderRecord, UInt64.toNat_add, UInt64.toNat_one,
            Nat.mod_eq_of_lt noWrap] at above
          omega
  | _ => exact makes

/-- **Object ids stay unique along a run exactly when no request of the run makes a folder.** -/
theorem objectIdsUnique_iff (env : Env) (requests : List Request)
    (few : (serverAfter env requests).allocated < 2 ^ 64 - 1) :
    (∀ earlier, earlier <+: requests → ObjectIdsUnique (serverAfter env earlier).world.db) ↔
      Guarded (serve env) (fun server req => ¬ MakesFolder env server req) .empty requests := by
  have counted : ∀ earlier, earlier <+: requests → Counted (serverAfter env earlier).world.db
      (serverAfter env earlier).allocated := by
    rintro earlier ⟨rest, rfl⟩
    refine serverAfter_counted env earlier (lt_of_le_of_lt ?_ few)
    rw [serverAfter, serverAfter, runAll_append]
    exact le_runAll (allocated_le env) _ _
  constructor
  · intro unique
    rw [guarded_iff]
    rintro before req rest rfl makes
    have counter := (counted before (List.prefix_append _ _)).counter
    have fewBefore : (serverAfter env before).allocated ≤
        (serverAfter env (before ++ req :: rest)).allocated := by
      rw [serverAfter, serverAfter, runAll_append]
      exact le_runAll (allocated_le env) _ _
    have later := unique (before ++ [req]) ⟨rest, by simp⟩
    rw [serverAfter, runAll_append] at later
    exact makes.not_unique (by rw [serverAfter] at counter fewBefore; omega) later
  · rintro guarded earlier ⟨rest, rfl⟩
    have kept : ∀ server req, ¬ MakesFolder env server req → NoFolders server.world.db.fs →
        NoFolders (serve env server req).world.db.fs := by
      intro server req makesNone none
      exact (serve_commits server req).noFolders makesNone none
    have none : NoFolders (serverAfter env earlier).world.db.fs :=
      Guarded.invariant kept (guarded_append_iff.mp guarded).1 .empty
    have ids := (counted earlier (List.prefix_append _ _)).ids
    exact {
      distinct := fun there there' => ids.unique there there' (none _ _ there) (none _ _ there')
      counter := fun there => ids.bound there (none _ _ there) }

/-- Two files, one after the other, in the root. -/
def twoFiles : List Request :=
  [.upload { target := some ⟨[['a']]⟩, data := { bytes := [1] } },
    .upload { target := some ⟨[['b']]⟩, data := { bytes := [2] } }]

/-- Ids are unique after two uploads. -/
theorem twoFiles_ids_unique :
    ObjectIdsUnique (serverAfter (.numbered .unchanged) twoFiles).world.db :=
  (objectIdsUnique_iff (.numbered .unchanged) twoFiles (by decide)).mpr ⟨id, id, trivial⟩ twoFiles
    (List.prefix_refl twoFiles)

/-- Two folders, one after the other, in the root. -/
def twoFolders : List Request :=
  [.makeDirectory { target := some ⟨[['a']]⟩ }, .makeDirectory { target := some ⟨[['b']]⟩ }]

/-- The second folder gets the id of the first. -/
theorem twoFolders_share_id :
    (serverAfter (.numbered .unchanged) twoFolders).allocated < 2 ^ 64 - 1 ∧
      ¬ ObjectIdsUnique (serverAfter (.numbered .unchanged) twoFolders).world.db := by
  refine ⟨by decide, fun unique => ?_⟩
  have first : RecordAt (serverAfter (.numbered .unchanged) twoFolders).world.db.fs
      (entryKey rootFsid ['a']) { id := 1, type := objTypeFolder } := ⟨_, rfl, by decide⟩
  have second : RecordAt (serverAfter (.numbered .unchanged) twoFolders).world.db.fs
      (entryKey rootFsid ['b']) { id := 1, type := objTypeFolder } := ⟨_, rfl, by decide⟩
  exact absurd (unique.distinct first second rfl) (by decide)

end Yeetbox.Storage
