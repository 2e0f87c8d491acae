import Yeetbox.Storage.Entries
import Yeetbox.Storage.Tree

/-!
# Moves and deletions in the tree

Every entry should stay reachable from the root. `move` finds the folder that it moves to before it
removes the entry, so it accepts a destination inside the folder that it moves, and then nothing
leads there any more: a move that returns `Ok` keeps the tree exactly when its destination is
outside (`move_keepsTree_iff`). `delete` removes a folder without a look at what is in it: a
deletion that returns `Ok` leaves every entry reached exactly when it leaves none behind
(`delete_keepsReached_iff`).
-/

set_option autoImplicit false

namespace Yeetbox.Storage

open Library

variable (env : Env)

/-! ## Moves -/

/-- The table is still a tree, and no folder is inside itself (a folder with the id of the root
would be from the start). -/
structure KeepsTree (before later : Table Bytes Bytes) : Prop where
  tree : Tree later
  notInside : (∀ key, ¬ FolderAt before key rootFsid) → ∀ key inside, FolderAt later key inside →
    ¬ Relation.TransGen (Child (Enters later)) inside inside

/-- The folder that a move goes to is reached without passing the entry that is moved. -/
def DestinationOutside (world : World) (req : MoveArg) : Prop :=
  ∃ target source parentId, req.target = some target ∧
    keyOfPath env.toNormalization world.db.fs target.path = some source ∧
    descendPath env.toNormalization world.db.fs req.destination.dropLast = .ok parentId ∧
    FolderReached (world.db.fs.erase source) parentId

variable {env}

/-- **A move that returns `Ok` keeps the tree exactly when its destination is outside the folder
that is moved.** -/
theorem move_keepsTree_iff (world : World) (req : MoveArg) (tree : Tree world.db.fs)
    (ok : ((move env req).run world).result = .ok ()) :
    KeepsTree world.db.fs ((move env req).run world).state.db.fs ↔
      DestinationOutside env world req := by
  have outcome := move_cases env world req
  generalize (move env req).run world = done at outcome ok ⊢
  cases outcome with
  | refused err => cases ok
  | moved target source value record parentId name later targeted resolved named walked found
      decoded free result =>
      have there : RecordAt world.db.fs source record := ⟨value, found, decoded⟩
      have moved : later.db.fs = movedTo world.db.fs source
          (makeKey env.toNormalization parentId name) record name := by rw [result]; rfl
      have keeps := tree_movedTo_iff name tree there free
      rw [moved]
      constructor
      · intro kept
        exact ⟨target, source, parentId, targeted, resolved, walked, keeps.mp kept.tree⟩
      · rintro ⟨target', source', parentId', targeted', resolved', walked', outside⟩
        cases targeted.symm.trans targeted'
        cases resolved.symm.trans resolved'
        cases walked.symm.trans walked'
        have after := keeps.mpr outside
        refine ⟨after, fun noRoot key inside folder => after.not_inside_itself ?_ ?_⟩
        · intro other entered
          rcases (folderAt_movedTo_iff name there).mp entered with ⟨_, before⟩ | ⟨_, _, before⟩
          · exact noRoot _ before
          · exact noRoot _ before
        · obtain ⟨content, record', present, rest⟩ := folder
          obtain ⟨parent, spelled, rfl, reached⟩ := after.reached key content present
          exact reached.tail ⟨spelled, content, record', present, rest⟩

/-- The folder `a` in the root. -/
def oneFolder : World :=
  (serverAfter (.numbered .unchanged) [.makeDirectory { target := some ⟨[['a']]⟩ }]).world

theorem oneFolder_fs : oneFolder.db.fs =
    (∅ : Table Bytes Bytes).insert (entryKey rootFsid ['a'])
      ((newFolderRecord {}).bytesOf ++ utf8 ['a']) :=
  rfl

theorem oneFolder_key {key value : Bytes} (found : oneFolder.db.fs[key]? = some value) :
    key = entryKey rootFsid ['a'] := by
  rw [oneFolder_fs, Table.get_insert] at found
  split at found
  · assumption
  · simp at found

theorem oneFolder_tree : Tree oneFolder.db.fs where
  distinct := by
    rintro first second one other ⟨_, found, _⟩ ⟨_, found', _⟩ _ _ _
    rw [oneFolder_key found, oneFolder_key found']
  reached := fun key value found => ⟨rootFsid, ['a'], oneFolder_key found, .refl⟩

/-- The folder is renamed. -/
def renameFolder : MoveArg where
  target := some ⟨[['a']], none⟩
  destination := [['b']]

/-- The folder is moved into itself. -/
def moveIntoItself : MoveArg where
  target := some ⟨[['a']], none⟩
  destination := [['a'], ['b']]

theorem renameFolder_keepsTree_iff :
    KeepsTree oneFolder.db.fs
        ((move (.numbered .unchanged) renameFolder).run oneFolder).state.db.fs ↔
      DestinationOutside (.numbered .unchanged) oneFolder renameFolder :=
  move_keepsTree_iff oneFolder renameFolder oneFolder_tree (by decide)

/-- **A folder that is moved into itself can be reached no more, although the move returns
`Ok`.** -/
theorem moveIntoItself_no_tree :
    Tree oneFolder.db.fs ∧
      ((move (.numbered .unchanged) moveIntoItself).run oneFolder).result = .ok () ∧
      ¬ Tree ((move (.numbered .unchanged) moveIntoItself).run oneFolder).state.db.fs := by
  refine ⟨oneFolder_tree, by decide, fun after => ?_⟩
  have there : RecordAt oneFolder.db.fs (entryKey rootFsid ['a']) (newFolderRecord {}) :=
    ⟨_, rfl, by decide⟩
  have outside : FolderReached (oneFolder.db.fs.erase (entryKey rootFsid ['a']))
      (parentIdOfRecord 1) :=
    (tree_movedTo_iff ['b'] oneFolder_tree there (by decide)).mp after
  rcases Relation.ReflTransGen.cases_tail outside with root | ⟨_, _, _, entered⟩
  · exact absurd root (by decide)
  · obtain ⟨other, _, _, found, _⟩ := enters_erase_iff.mp entered
    exact other (oneFolder_key found)

/-! ## Deletions -/

variable (env) in
/-- The entry that a deletion removes is no folder, nothing else is in the folder, or there is
another way into it. -/
def LeavesNoneBehind (world : World) (req : DeleteArg) : Prop :=
  ∃ target key, req.target = some target ∧
    keyOfPath env.toNormalization world.db.fs target.path = some key ∧
    ∀ inside, FolderAt world.db.fs key inside →
      (∃ (spelled : Name) (value : Bytes),
        (world.db.fs.erase key)[entryKey inside spelled]? = some value) →
      FolderReached (world.db.fs.erase key) inside

/-- **A deletion that returns `Ok` keeps every entry reached exactly when it leaves none
behind.** -/
theorem delete_keepsReached_iff (world : World) (req : DeleteArg) (result : DeleteResult)
    (all : AllReached world.db.fs) (ok : ((delete env req).run world).result = .ok result) :
    AllReached ((delete env req).run world).state.db.fs ↔ LeavesNoneBehind env world req := by
  have outcome := delete_cases env world req
  generalize (delete env req).run world = done at outcome ok ⊢
  cases outcome with
  | refused err => cases ok
  | removed target key value record later targeted resolved found decoded other committed =>
      have erased : later.db.fs = world.db.fs.erase key := by rw [committed]; rfl
      rw [erased, allReached_erase_iff all]
      constructor
      · intro kept
        exact ⟨target, key, targeted, resolved, kept⟩
      · rintro ⟨target', key', targeted', resolved', kept⟩
        cases targeted.symm.trans targeted'
        cases resolved.symm.trans resolved'
        exact kept
  | blobs target key value record outcome targeted resolved found decoded current versioned
      follows =>
      rw [removesBlob_db follows.state]
      refine ⟨fun _ => ⟨target, key, targeted, resolved, fun inside folder _ => ?_⟩, fun _ => all⟩
      obtain ⟨record', there, isFolder, _⟩ := folderAt_iff.mp folder
      have same : record' = record := there.unique ⟨value, found, decoded⟩
      rw [same, versioned] at isFolder
      exact absurd isFolder (by decide)

/-- The folder `a` with a file in it. -/
def folderWithFile : World :=
  (serverAfter (.numbered .unchanged) [.makeDirectory { target := some ⟨[['a']]⟩ },
    .upload { target := some ⟨[['a'], ['x']]⟩, data := { bytes := [31] } }]).world

/-- The deletion of the folder. -/
def deleteFolder : DeleteArg := { target := some ⟨[['a']], none⟩ }

/-- The key of the file. -/
def fileInFolder : Bytes := entryKey (parentIdOfRecord 1) ['x']

theorem folderWithFile_key {key value : Bytes} (found : folderWithFile.db.fs[key]? = some value) :
    key = fileInFolder ∨ key = entryKey rootFsid ['a'] := by
  have fs : folderWithFile.db.fs = oneFolder.db.fs.insert fileInFolder
      ((newFileRecord (.numbered .unchanged) oneFolder.db 0 2).bytesOf ++ utf8 ['x']) := rfl
  rw [fs, Table.get_insert] at found
  split at found
  · rename_i same
    exact .inl same
  · exact .inr (oneFolder_key found)

theorem folderWithFile_reached : AllReached folderWithFile.db.fs := by
  have folder : FolderAt folderWithFile.db.fs (entryKey rootFsid ['a']) (parentIdOfRecord 1) :=
    ⟨_, newFolderRecord {}, rfl, by decide, rfl, by decide⟩
  intro key value found
  rcases folderWithFile_key found with same | same
  · exact ⟨parentIdOfRecord 1, ['x'], same, .single ⟨['a'], folder⟩⟩
  · exact ⟨rootFsid, ['a'], same, .refl⟩

theorem deleteFolder_keepsReached_iff :
    AllReached ((delete (.numbered .unchanged) deleteFolder).run folderWithFile).state.db.fs ↔
      LeavesNoneBehind (.numbered .unchanged) folderWithFile deleteFolder :=
  delete_keepsReached_iff folderWithFile deleteFolder ⟨false⟩ folderWithFile_reached (by decide)

/-- **A file in a folder that is deleted can be reached no more, although the deletion returns
`Ok`.** -/
theorem deleteFolder_strands :
    AllReached folderWithFile.db.fs ∧
      ((delete (.numbered .unchanged) deleteFolder).run folderWithFile).result = .ok ⟨false⟩ ∧
      ¬ AllReached
        ((delete (.numbered .unchanged) deleteFolder).run folderWithFile).state.db.fs := by
  refine ⟨folderWithFile_reached, by decide, fun after => ?_⟩
  have stranded : FolderReached (folderWithFile.db.fs.erase (entryKey rootFsid ['a']))
      (parentIdOfRecord 1) := by
    refine (allReached_erase_iff folderWithFile_reached).mp after _ ?_ ⟨['x'], ?_⟩
    · exact ⟨_, newFolderRecord {}, rfl, by decide, rfl, by decide⟩
    · exact ⟨_, rfl⟩
  rcases Relation.ReflTransGen.cases_tail stranded with root | ⟨_, _, _, entered⟩
  · exact absurd root (by decide)
  · obtain ⟨other, _, record, found, decoded, folder, _⟩ := enters_erase_iff.mp entered
    rcases folderWithFile_key found with same | same
    · have file : RecordAt folderWithFile.db.fs fileInFolder
          (newFileRecord (.numbered .unchanged) oneFolder.db 0 2) :=
        ⟨_, rfl, fsRecordFromBytes_append _ _⟩
      have noFolder : record.type = objTypeVersionBlob := by
        rw [← file.unique ⟨_, same ▸ found, decoded⟩]
        rfl
      rw [noFolder] at folder
      exact absurd folder (by decide)
    · exact other same

end Yeetbox.Storage
