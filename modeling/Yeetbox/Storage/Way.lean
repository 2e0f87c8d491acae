import Mathlib.Data.List.Infix
import Yeetbox.Storage.Entries

/-!
# The way of a path

The way of a path consists of the entries of the folders that it goes through and of its own entry.
Only deletions and moves remove entries. A request that removes none on the way of a path leaves
the records there as they are (`Commits.recordAt_kept`), and so the path resolves to the same key
as before (`Commits.keyOfPath_kept`).
-/

set_option autoImplicit false

namespace Yeetbox.Storage

open Library

/-- The keys of the entries on the way of a path, its own included. -/
def wayKeys (normalization : Normalization) (fs : Table Bytes Bytes) (path : List Name) :
    List Bytes :=
  path.inits.filterMap (keyOfPath normalization fs)

theorem mem_wayKeys_iff {normalization : Normalization} {fs : Table Bytes Bytes} {path : List Name}
    {key : Bytes} : key ∈ wayKeys normalization fs path ↔
      ∃ front, front <+: path ∧ keyOfPath normalization fs front = some key := by
  simp only [wayKeys, List.mem_filterMap, List.mem_inits]

theorem wayKeys_mono {normalization : Normalization} {fs : Table Bytes Bytes}
    {front path : List Name} (before : front <+: path) {key : Bytes}
    (onWay : key ∈ wayKeys normalization fs front) : key ∈ wayKeys normalization fs path := by
  obtain ⟨start, shorter, resolved⟩ := mem_wayKeys_iff.mp onWay
  exact mem_wayKeys_iff.mpr ⟨start, shorter.trans before, resolved⟩

theorem keyOfPath_concat {normalization : Normalization} {fs : Table Bytes Bytes}
    {front : List Name} {parentId : FileSystemId}
    (leads : LeadsTo fs (front.map normalization.nfkd) parentId) (component : Name) :
    keyOfPath normalization fs (front ++ [component]) =
      some (makeKey normalization parentId component) := by
  refine keyOfPath_of_walk (by simp) ?_
  rw [List.dropLast_concat]
  exact walkFolders_eq_ok_iff.mpr leads

/-- A path that resolves leads to the folder under its key. -/
theorem leadsTo_iff_folderAt {normalization : Normalization} {fs : Table Bytes Bytes}
    {path : List Name} {key : Bytes} {inside : FileSystemId}
    (resolved : keyOfPath normalization fs path = some key) :
    LeadsTo fs (path.map normalization.nfkd) inside ↔ FolderAt fs key inside := by
  obtain ⟨lastName, parentId, named, walked, rfl⟩ := keyOfPath_eq_some_iff.mp resolved
  have leads := walkFolders_eq_ok_iff.mp walked
  rw [← List.dropLast_append_getLast? lastName named, List.map_append, LeadsTo, List.map_cons,
    List.map_nil, descends_append_singleton_iff]
  constructor
  · rintro ⟨parent, before, entered⟩
    rwa [leads.unique before]
  · intro folder
    exact ⟨parentId, leads, folder⟩

/-- **A path still leads to its folder when the folders on its way are kept.** -/
theorem LeadsTo.along_way {normalization : Normalization} {fs fs' : Table Bytes Bytes}
    {path : List Name} {inside : FileSystemId}
    (leads : LeadsTo fs (path.map normalization.nfkd) inside)
    (kept : ∀ key ∈ wayKeys normalization fs path, ∀ inner, FolderAt fs key inner →
      FolderAt fs' key inner) :
    LeadsTo fs' (path.map normalization.nfkd) inside := by
  refine leads.carry_map ?_
  rintro front component back node inner rfl reached entered
  -- The entry that is entered here is that of a prefix of the path.
  refine kept _ (mem_wayKeys_iff.mpr ⟨front ++ [component], ?_, ?_⟩) inner entered
  · exact ⟨back, (List.append_cons front component back).symm⟩
  · exact keyOfPath_concat reached component

/-- **A path resolves as before when the entries on its way are as before.** -/
theorem descendPath_congr {normalization : Normalization} {fs fs' : Table Bytes Bytes}
    {path : List Name} (same : ∀ key ∈ wayKeys normalization fs path, fs'[key]? = fs[key]?) :
    descendPath normalization fs' path = descendPath normalization fs path := by
  induction path using List.reverseRecOn with
  | nil => rfl
  | append_singleton front component ih =>
      have before := ih fun key onWay => same key (wayKeys_mono (List.prefix_append _ _) onWay)
      rw [descendPath_concat, descendPath_concat, before]
      rcases walked : descendPath normalization fs front with err | parentId
      · rfl
      · have resolved := keyOfPath_concat (walkFolders_eq_ok_iff.mp walked) component
        have here := same _ (mem_wayKeys_iff.mpr ⟨_, List.prefix_refl _, resolved⟩)
        rw [makeKey] at here
        simp only [bind, Except.bind, walkStep, here]

theorem keyOfPath_congr {normalization : Normalization} {fs fs' : Table Bytes Bytes}
    {path : List Name} (same : ∀ key ∈ wayKeys normalization fs path, fs'[key]? = fs[key]?) :
    keyOfPath normalization fs' path = keyOfPath normalization fs path := by
  rw [keyOfPath, keyOfPath, descendPath_congr fun key onWay =>
    same key (wayKeys_mono (List.dropLast_prefix path) onWay)]

/-- The requests that can remove an entry. -/
def Request.isRemoval : Request → Bool
  | .delete _ | .move _ => true
  | _ => false

variable {env : Env} {server later : Server} {req : Request}

/-- **A record stays under its key unless a deletion or a move removes the entry.** -/
theorem Commits.recordAt_kept (commits : Commits env server req later) {key : Bytes}
    {record : FsRecordValue} (stays : req.isRemoval = true → later.world.db.fs[key]? ≠ none)
    (there : RecordAt server.world.db.fs key record) : RecordAt later.world.db.fs key record := by
  have inserted : ∀ {new rest : Bytes} {other : FsRecordValue}, server.world.db.fs[new]? = none →
      RecordAt (server.world.db.fs.insert new (other.bytesOf ++ rest)) key record := by
    intro new rest other free
    refine recordAt_insert_iff.mpr (.inr ⟨?_, there⟩)
    rintro rfl
    exact there.not_free free
  cases commits with
  | nothing db => rw [db]; exact there
  | folder arg parentId lastName asked creates free counted db => rw [db]; exact inserted free
  | file parentId lastName record version call free id type first drawn before counted db =>
      rw [db]
      exact inserted free
  | removed arg source value other asked found decoded notFile db =>
      have present := stays (by rw [asked]; rfl)
      rw [db] at present ⊢
      refine recordAt_erase_iff.mpr ⟨?_, there⟩
      rintro rfl
      exact present (Table.get_erase_self _ _)
  | moved arg source value other parentId name asked found decoded free db =>
      have present := stays (by rw [asked]; rfl)
      rw [db] at present ⊢
      refine recordAt_insert_iff.mpr ?_
      by_cases atSource : key = source
      · subst atSource
        -- An entry that was moved and is still there was moved to its own key.
        by_cases back : key = makeKey env.toNormalization parentId name
        · exact .inl ⟨back, there.unique ⟨value, found, decoded⟩⟩
        · refine absurd ?_ present
          rw [movedTo, Table.get_insert_ne _ _ back, Table.get_erase_self]
      · refine .inr ⟨?_, recordAt_erase_iff.mpr ⟨atSource, there⟩⟩
        rintro rfl
        rw [Table.get_erase_ne _ atSource] at free
        exact there.not_free free
  | copied parentId name call time free counted db => rw [db]; exact inserted free

/-- **A path resolves to the same key as long as no entry on its way is removed.** -/
theorem Commits.keyOfPath_kept (commits : Commits env server req later)
    {path : List Name} {key : Bytes}
    (stays : req.isRemoval = true →
      ∀ onWay ∈ wayKeys env.toNormalization server.world.db.fs path,
        server.world.db.fs[onWay]? ≠ none → later.world.db.fs[onWay]? ≠ none)
    (resolved : keyOfPath env.toNormalization server.world.db.fs path = some key) :
    keyOfPath env.toNormalization later.world.db.fs path = some key := by
  obtain ⟨lastName, parentId, named, walked, rfl⟩ := keyOfPath_eq_some_iff.mp resolved
  refine keyOfPath_of_walk named (walkFolders_eq_ok_iff.mpr ?_)
  refine (walkFolders_eq_ok_iff.mp walked).along_way fun onWay member inner entered => ?_
  obtain ⟨record, there, folder, rfl⟩ := folderAt_iff.mp entered
  have onPath := wayKeys_mono (List.dropLast_prefix path) member
  exact folderAt_iff.mpr
    ⟨record, commits.recordAt_kept (fun removes => stays removes _ onPath there.not_free) there,
      folder, rfl⟩

end Yeetbox.Storage
