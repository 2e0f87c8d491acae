import Yeetbox.Storage.Entries
import Yeetbox.Storage.Idle

/-!
# The loop over the versions

`delete` removes the rows of a file from its latest version down to version 0, and the blobs that
they point to. The loop counts an unsigned number down, and tests it for zero between its use and
the decrement. It ends after one round for each version and never goes below zero
(`run_deleteLoop`). What it does is to remove the blobs of the rows that carry a path, one after
the other, and the rows of the file up to the latest version (`version_loop_exact`).
-/

set_option autoImplicit false

namespace Yeetbox.Storage

open Library Handler

/-! ## The loop as it is written -/

/-- `a - b` in a build that checks for overflow. -/
def checkedSub (first second : UInt64) : Option UInt64 :=
  if second ≤ first then some (first - second) else none

/-- The `loop` of `delete`, for at most some rounds; there is no result when they are used up. -/
def deleteLoop (fileId : FileSystemId) :
    ℕ → FsVersion → Table Bytes Bytes → Op (Option (Table Bytes Bytes))
  | 0, _, _ => pure none
  | rounds + 1, latestVersion, ver => do
      let ver ← deleteVersion fileId latestVersion ver
      if latestVersion == 0 then pure (some ver)
      else do
        let latestVersion ← orFail .panic (checkedSub latestVersion 1)
        deleteLoop fileId rounds latestVersion ver

/-- **The loop ends without an underflow**, after one round for each version from the latest one
down to 0. -/
theorem run_deleteLoop (fileId : FileSystemId) {rounds : ℕ} {latest : FsVersion}
    (enough : latest.toNat < rounds) (ver : Table Bytes Bytes) (world : World) :
    (deleteLoop fileId rounds latest ver).run world =
      ((deleteVersions fileId latest.toNat ver).map some).run world := by
  induction rounds generalizing latest ver world with
  | zero => exact absurd enough (Nat.not_lt_zero _)
  | succ rounds ih =>
      rw [deleteLoop]
      rcases number : latest.toNat with _ | earlier
      · have first : latest = 0 := UInt64.toNat_inj.mp number
        rw [first, deleteVersions, ← run_bind_pure]
        rfl
      · have fits : earlier + 1 < 2 ^ 64 := number ▸ latest.toNat_lt
        have later : latest = .ofNat (earlier + 1) := by
          rw [← number, UInt64.ofNat_toNat]
        have above : (latest == 0) = false := by
          rw [beq_eq_false_iff_ne]
          rintro rfl
          cases number
        have one : (1 : FsVersion) ≤ latest := by
          rw [UInt64.le_iff_toNat_le, number]
          exact Nat.le_add_left 1 earlier
        have before : (latest - 1).toNat = earlier := by
          rw [UInt64.toNat_sub_of_le _ _ one, number]
          rfl
        -- The test for zero has failed, so the decrement stays in range.
        have decremented : checkedSub latest 1 = some (latest - 1) := if_pos one
        rw [deleteVersions, run_map_bind, ← later, run_bind, run_bind]
        rcases (deleteVersion fileId latest ver).run world with ⟨err | rest, reached, stops⟩
        · rfl
        · rw [resume_ok, resume_ok, above, if_neg Bool.false_ne_true, decremented,
            run_orFail_some_bind, ih (by omega), before]

/-! ## What the loop is for -/

/-- The versions from some number down to 0. -/
def versionsDown : ℕ → List FsVersion
  | 0 => [0]
  | earlier + 1 => .ofNat (earlier + 1) :: versionsDown earlier

/-- `remove_file` on the path in a row, which is used as a string. -/
def removeBlob (blobName : Bytes) : Op Unit := do
  let blobName ← fromUtf8Unchecked blobName
  removeFile (inBlobs blobName)

/-- `remove_file` on one path after the other. -/
def removeBlobs : List Bytes → Op Unit
  | [] => pure ()
  | blobName :: rest => do
      removeBlob blobName
      removeBlobs rest

/-- The path in the row of a version, if there is a row and it carries one. -/
def carriedPath (fileId : FileSystemId) (ver : Table Bytes Bytes) (version : FsVersion) :
    Option Bytes :=
  (namedRow fileId ver version).map fun row => row.drop versionValueSize

/-- The paths that the rows of a file carry, one for each row that carries one. -/
def carriedPaths (fileId : FileSystemId) (ver : Table Bytes Bytes) (latest : FsVersion) :
    List Bytes :=
  (versionsDown latest.toNat).filterMap (carriedPath fileId ver)

/-- Every call of `remove_file` succeeds. -/
def RemovalsSucceed : World → List Bytes → Prop
  | _, [] => True
  | world, blobName :: rest => ((removeBlob blobName).run world).result = .ok () ∧
      RemovalsSucceed ((removeBlob blobName).run world).state rest

/-- The rows of a file up to its latest version are removed, and no other row is touched. -/
structure RowsRemoved (fileId : FileSystemId) (latest : FsVersion)
    (ver rest : Table Bytes Bytes) : Prop where
  removed : ∀ version : FsVersion, version ≤ latest → rest[rowKey fileId version]? = none
  kept : ∀ key : Bytes, (∀ version : FsVersion, version ≤ latest → key ≠ rowKey fileId version) →
    rest[key]? = ver[key]?
  others : ∀ (other : FileSystemId) (version : FsVersion), other ≠ fileId →
    rest[rowKey other version]? = ver[rowKey other version]?
  above : ∀ version : FsVersion, latest < version →
    rest[rowKey fileId version]? = ver[rowKey fileId version]?

/-- Some paths come one from each row of a file, up to its latest version, that carries a path. -/
def OncePerRow (fileId : FileSystemId) (latest : FsVersion) (ver : Table Bytes Bytes)
    (names : List Bytes) : Prop :=
  ∃ versions : List FsVersion, versions.Nodup ∧
    (∀ version, version ∈ versions ↔
      version ≤ latest ∧ carriedPath fileId ver version ≠ none) ∧
    versions.map (carriedPath fileId ver) = names.map some

/-! ## Counting down -/

/-- The versions from a number down to 0 are those that are not above it. -/
theorem mem_versionsDown_iff {version : FsVersion} {count : ℕ} (fits : count < 2 ^ 64) :
    version ∈ versionsDown count ↔ version.toNat ≤ count := by
  induction count with
  | zero =>
      rw [versionsDown, List.mem_singleton, Nat.le_zero, ← UInt64.toNat_inj]
      rfl
  | succ earlier ih =>
      rw [versionsDown, List.mem_cons, ih (by omega), ← UInt64.toNat_inj,
        UInt64.toNat_ofNat_of_lt' fits]
      omega

/-- Each of them comes up once. -/
theorem nodup_versionsDown {count : ℕ} (fits : count < 2 ^ 64) : (versionsDown count).Nodup := by
  induction count with
  | zero => exact List.nodup_singleton 0
  | succ earlier ih =>
      rw [versionsDown, List.nodup_cons, mem_versionsDown_iff (by omega),
        UInt64.toNat_ofNat_of_lt' fits]
      exact ⟨by omega, ih (by omega)⟩

/-! ## One round -/

/-- Removing some blobs and then some more. -/
theorem run_removeBlobs_append (first second : List Bytes) (world : World) :
    (removeBlobs (first ++ second)).run world =
      (removeBlobs first >>= fun _ => removeBlobs second).run world := by
  induction first generalizing world with
  | nil => rfl
  | cons blobName rest ih =>
      rw [List.cons_append, removeBlobs, removeBlobs, run_bind_assoc, run_bind, run_bind]
      rcases (removeBlob blobName).run world with ⟨err | done, reached, stops⟩
      · rfl
      · rw [resume_ok, resume_ok, ih]

/-- **One round removes the blob that the row carries, and then the row.** -/
theorem run_deleteVersion (fileId : FileSystemId) (version : FsVersion) (ver : Table Bytes Bytes)
    (world : World) :
    (deleteVersion fileId version ver).run world =
      ((removeBlobs (carriedPath fileId ver version).toList).map fun _ =>
        ver.erase (rowKey fileId version)).run world := by
  rw [deleteVersion, carriedPath, namedRow]
  rcases found : ver[rowKey fileId version]? with _ | row
  · rw [Table.erase_of_missing found]
    rfl
  · by_cases named : versionValueSize < row.length
    · simp only [named, if_pos, Option.filter_some, decide_true]
      rw [Option.map_some, Option.toList_some, removeBlobs, run_map_bind, removeBlob,
        run_bind_assoc]
      rfl
    · simp only [named, Option.filter_some, decide_false]
      rfl

/-- **The loop removes the blobs that the rows carry, one after the other, and all the rows.** -/
theorem run_deleteVersions (fileId : FileSystemId) {count : ℕ} (fits : count < 2 ^ 64)
    (ver : Table Bytes Bytes) (world : World) :
    (deleteVersions fileId count ver).run world =
      ((removeBlobs ((versionsDown count).filterMap (carriedPath fileId ver))).map fun _ =>
        Table.eraseAll ver ((versionsDown count).map (rowKey fileId))).run world := by
  induction count generalizing ver world with
  | zero =>
      rw [deleteVersions, run_deleteVersion, versionsDown, List.filterMap_eq_flatMap_toList,
        List.flatMap_singleton]
      rfl
  | succ earlier ih =>
      have kept : (versionsDown earlier).filterMap (carriedPath fileId
          (ver.erase (rowKey fileId (.ofNat (earlier + 1))))) =
            (versionsDown earlier).filterMap (carriedPath fileId ver) := by
        refine List.filterMap_congr fun version member => ?_
        have older := (mem_versionsDown_iff (by omega)).mp member
        rw [carriedPath, carriedPath, namedRow_erase_ne]
        rintro rfl
        rw [UInt64.toNat_ofNat_of_lt' fits] at older
        omega
      rw [deleteVersions, run_bind, run_deleteVersion, run_map, resume_map, versionsDown, run_map,
        List.filterMap_eq_flatMap_toList, List.flatMap_cons, run_removeBlobs_append, ← run_map,
        run_map_bind, run_bind, ← List.filterMap_eq_flatMap_toList]
      rcases (removeBlobs (carriedPath fileId ver (.ofNat (earlier + 1))).toList).run world with
        ⟨err | done, reached, stops⟩
      · rfl
      · rw [resume_ok, resume_ok, ih (by omega), kept]
        rfl

/-! ## Removals that succeed -/

/-- A call of `remove_file` that succeeds has removed the blob at the path, and nothing else. -/
theorem run_removeBlob_of_ok {blobName : Bytes} {world : World}
    (ok : ((removeBlob blobName).run world).result = .ok ()) :
    (removeBlob blobName).run world =
      ⟨.ok (), world.withBlobs (world.blobs.erase (inBlobs blobName)),
        [world.withBlobs (world.blobs.erase (inBlobs blobName))]⟩ := by
  rw [removeBlob] at ok ⊢
  rcases run_fromUtf8Unchecked_bind blobName (fun blobName => removeFile (inBlobs blobName)) world
    with bad | text
  · rw [bad] at ok
    cases ok
  · rw [text] at ok ⊢
    rw [removeFile] at ok ⊢
    rcases there : world.blobs[inBlobs blobName]? with _ | content
    · rw [run_openExisting_bind_missing there] at ok
      cases ok
    · rw [run_openExisting_bind_found there]
      rfl

/-- **When every call succeeds the blobs are gone**, after one side effect for each call. -/
theorem run_removeBlobs_of_succeed {names : List Bytes} {world : World}
    (succeed : RemovalsSucceed world names) :
    ((removeBlobs names).run world).result = .ok () ∧
      ((removeBlobs names).run world).state =
        world.withBlobs (Table.eraseAll world.blobs (names.map inBlobs)) ∧
      ((removeBlobs names).run world).stops.length = names.length := by
  induction names generalizing world with
  | nil => exact ⟨rfl, rfl, rfl⟩
  | cons blobName rest ih =>
      obtain ⟨here, later⟩ := succeed
      have first := run_removeBlob_of_ok here
      rw [first] at later
      obtain ⟨result, state, stops⟩ := ih later
      rw [removeBlobs, run_bind, first, resume_ok, Outcome.after_result, Outcome.after_state,
        Outcome.after_stops, List.length_append, List.length_cons, stops]
      exact ⟨result, state, Nat.add_comm _ _⟩

/-! ## The rows -/

/-- **The rows that the loop removes** are those of the file up to the latest version. -/
theorem rowsRemoved_eraseAll (fileId : FileSystemId) (latest : FsVersion)
    (ver : Table Bytes Bytes) :
    RowsRemoved fileId latest ver
      (Table.eraseAll ver ((versionsDown latest.toNat).map (rowKey fileId))) := by
  have kept : ∀ key : Bytes,
      (∀ version : FsVersion, version ≤ latest → key ≠ rowKey fileId version) →
        (Table.eraseAll ver ((versionsDown latest.toNat).map (rowKey fileId)))[key]? =
          ver[key]? := by
    intro key outside
    refine Table.get_eraseAll_of_not_mem fun member => ?_
    obtain ⟨version, among, rfl⟩ := List.mem_map.mp member
    have older := (mem_versionsDown_iff latest.toNat_lt).mp among
    exact outside version (UInt64.le_iff_toNat_le.mpr older) rfl
  refine ⟨fun version older => ?_, kept, fun other version different => ?_,
    fun version newer => ?_⟩
  · apply Table.get_eraseAll_of_mem
    apply List.mem_map_of_mem
    exact (mem_versionsDown_iff latest.toNat_lt).mpr (UInt64.le_iff_toNat_le.mp older)
  · exact kept _ fun _ _ same => different (rowKey_inj same).1
  · refine kept _ fun removed older same => ?_
    rw [(rowKey_inj same).2] at newer
    exact absurd older (UInt64.not_le.mpr newer)

/-- **The paths that the loop removes** come one from each row that carries a path. -/
theorem oncePerRow_carriedPaths (fileId : FileSystemId) (latest : FsVersion)
    (ver : Table Bytes Bytes) :
    OncePerRow fileId latest ver (carriedPaths fileId ver latest) := by
  refine ⟨(versionsDown latest.toNat).filter fun version =>
    (carriedPath fileId ver version).isSome, ?_, fun version => ?_, ?_⟩
  · exact (nodup_versionsDown latest.toNat_lt).filter _
  · rw [List.mem_filter, mem_versionsDown_iff latest.toNat_lt, UInt64.le_iff_toNat_le,
      Option.isSome_iff_ne_none]
  · rw [carriedPaths]
    induction versionsDown latest.toNat with
    | nil => rfl
    | cons version rest ih =>
        rcases carried : carriedPath fileId ver version with _ | blobName
        · rw [List.filterMap_cons_none carried, List.filter_cons_of_neg (by simp [carried]), ih]
        · rw [List.filterMap_cons_some carried, List.filter_cons_of_pos (by simp [carried]),
            List.map_cons, List.map_cons, ih, carried]

/-! ## The loop -/

/-- **The loop over the versions is exact.** When every call of `remove_file` succeeds, the loop
ends with the rows up to the latest version removed and all others untouched, after one call for
each removed row that carries a path and no other side effect. -/
theorem version_loop_exact (fileId : FileSystemId) (latest : FsVersion) (ver : Table Bytes Bytes)
    {world : World} (succeed : RemovalsSucceed world (carriedPaths fileId ver latest))
    {rounds : ℕ} (enough : latest.toNat < rounds) :
    ∃ rest names, RowsRemoved fileId latest ver rest ∧ OncePerRow fileId latest ver names ∧
      ((deleteLoop fileId rounds latest ver).run world).result = .ok (some rest) ∧
      (deleteLoop fileId rounds latest ver).run world =
        ((removeBlobs names).map fun _ => some rest).run world ∧
      ((deleteLoop fileId rounds latest ver).run world).stops.length = names.length ∧
      ((deleteLoop fileId rounds latest ver).run world).state =
        world.withBlobs (Table.eraseAll world.blobs (names.map inBlobs)) ∧
      (deleteLoop fileId rounds latest ver).run world =
        ((deleteVersions fileId latest.toNat ver).map some).run world := by
  have loop := run_deleteLoop fileId enough ver world
  have removes : (deleteLoop fileId rounds latest ver).run world =
      ((removeBlobs (carriedPaths fileId ver latest)).map fun _ =>
        some (Table.eraseAll ver ((versionsDown latest.toNat).map (rowKey fileId)))).run world := by
    rw [loop, run_map, run_deleteVersions fileId latest.toNat_lt ver world, run_map, run_map,
      Outcome.map_map]
    rfl
  obtain ⟨result, state, stops⟩ := run_removeBlobs_of_succeed succeed
  refine ⟨_, _, rowsRemoved_eraseAll fileId latest ver, oncePerRow_carriedPaths fileId latest ver,
    ?_, removes, ?_, ?_, loop⟩
  · rw [removes, run_map, Outcome.map, result]
    rfl
  · rw [removes]
    exact stops
  · rw [removes]
    exact state

/-- In the world after one upload, the loop removes the one row and the one blob. -/
theorem version_loop_exact_upload : ∃ rest names, RowsRemoved 1 1 oneFile.db.ver rest ∧
    OncePerRow 1 1 oneFile.db.ver names ∧
    ((deleteLoop 1 2 1 oneFile.db.ver).run oneFile).result = .ok (some rest) ∧
    (deleteLoop 1 2 1 oneFile.db.ver).run oneFile =
      ((removeBlobs names).map fun _ => some rest).run oneFile ∧
    ((deleteLoop 1 2 1 oneFile.db.ver).run oneFile).stops.length = names.length ∧
    ((deleteLoop 1 2 1 oneFile.db.ver).run oneFile).state =
      oneFile.withBlobs (Table.eraseAll oneFile.blobs (names.map inBlobs)) ∧
    (deleteLoop 1 2 1 oneFile.db.ver).run oneFile =
      ((deleteVersions 1 1 oneFile.db.ver).map some).run oneFile := by
  have carried : carriedPaths 1 oneFile.db.ver 1 = [blobPath 0] := by decide
  have removed : ((removeBlob (blobPath 0)).run oneFile).result = .ok () := by decide
  have succeed : RemovalsSucceed oneFile (carriedPaths 1 oneFile.db.ver 1) := by
    rw [carried]
    exact ⟨removed, trivial⟩
  exact version_loop_exact 1 1 oneFile.db.ver succeed (by decide)

end Yeetbox.Storage
