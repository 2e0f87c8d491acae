import Yeetbox.Storage.Entries

/-!
# Paths and keys

The operations spell a name in different ways before they look it up. The four folder walks take a
component as it is, in NFKD, or in NFKC (`pathsAgree_iff`). `make_directory` and `upload` trim the
last component before they make its key, and the other operations do not (`sameKeys_iff`).
-/

set_option autoImplicit false

namespace Yeetbox.Storage

open Library

/-! ## Keys of the last component -/

/-- The keys under which `make_directory` and `upload` write a name. -/
def createdKeys (normalization : Normalization) (parentId : FileSystemId) (name : Name) :
    List Bytes :=
  [makeDirectoryKey normalization parentId name, uploadKey normalization parentId name]

/-- The keys under which the other operations look for a name. -/
def usedKeys (normalization : Normalization) (parentId : FileSystemId) (name : Name) :
    List Bytes :=
  [downloadKey normalization parentId name, appendKey normalization parentId name,
    deleteKey normalization parentId name, moveSourceKey normalization parentId name,
    moveDestinationKey normalization parentId name, copySourceKey normalization parentId name,
    copyDestinationKey normalization parentId name]

/-- Under a parent, the one name is created under the key that is used for the other. -/
def SameKeys (normalization : Normalization) (parentId : FileSystemId) (first second : Name) :
    Prop :=
  ∀ created ∈ createdKeys normalization parentId first,
    ∀ used ∈ usedKeys normalization parentId second, created = used

/-- **A name is created under the key that is used for it exactly when it has no white space at
its ends.** -/
theorem sameKeys_iff (normalization : Normalization) (parentId : FileSystemId)
    (first second : Name) (same : normalization.nfkd first = normalization.nfkd second) :
    SameKeys normalization parentId first second ↔ trim first = first := by
  constructor
  · intro agree
    have key : makeKey normalization parentId (trim first) =
        makeKey normalization parentId second :=
      agree _ (by simp [createdKeys, uploadKey]) _ (by simp [usedKeys, downloadKey])
    have spelled := (entryKey_inj key).2
    rw [← same] at spelled
    exact (normalization.nfkd_trim_eq_iff first).mp spelled
  · intro trimmed created isCreated used isUsed
    have createdKey : created = makeKey normalization parentId first := by
      rw [createdKeys, makeDirectoryKey, uploadKey, trimmed] at isCreated
      simpa [makeKey, entryKey] using isCreated
    have usedKey : used = makeKey normalization parentId second := by
      simpa [usedKeys, downloadKey, appendKey, deleteKey, moveSourceKey, moveDestinationKey,
        copySourceKey, copyDestinationKey] using isUsed
    rw [createdKey, usedKey, makeKey, same, makeKey]

/-- A name without white space. -/
theorem sameKeys_plain : SameKeys .unchanged rootFsid ['a'] ['a'] :=
  (sameKeys_iff .unchanged rootFsid ['a'] ['a'] rfl).mpr rfl

/-- A name that begins with a blank is created under one key and looked up under another. -/
theorem not_sameKeys_blank :
    Normalization.unchanged.nfkd [' ', 'a'] = Normalization.unchanged.nfkd [' ', 'a'] ∧
      ¬ SameKeys .unchanged rootFsid [' ', 'a'] [' ', 'a'] := by
  refine ⟨rfl, fun agree => ?_⟩
  have key := agree (uploadKey .unchanged rootFsid [' ', 'a']) (by simp [createdKeys])
    (downloadKey .unchanged rootFsid [' ', 'a']) (by simp [usedKeys])
  exact absurd key (by decide)

/-! ## Walks -/

/-- The four folder walks, each with its spelling of a component. -/
def folderWalks (normalization : Normalization) :
    List ((Name → Name) × (Table Bytes Bytes → List Name → Except Status FileSystemId)) :=
  [(id, makeDirectoryWalk), (id, uploadWalk), (normalization.nfkc, listWalk normalization),
    (normalization.nfkd, descendPath normalization)]

/-- The walks return the same parent id, or all fail. -/
def WalksAgree (normalization : Normalization) (fs : Table Bytes Bytes) (path : List Name) : Prop :=
  ∀ one ∈ folderWalks normalization, ∀ other ∈ folderWalks normalization,
    (one.2 fs path).toOption = (other.2 fs path).toOption

/-- A walk enters, at the end of the path, an entry that was not there before. -/
def ReachesNew (before after : Table Bytes Bytes) (path : List Name)
    (walk : (Name → Name) × (Table Bytes Bytes → List Name → Except Status FileSystemId)) : Prop :=
  ∃ dirs last parentId inside, path = dirs ++ [last] ∧ walk.2 after dirs = .ok parentId ∧
    before[entryKey parentId (walk.1 last)]? = none ∧ walk.2 after path = .ok inside

/-- The walks agree on a path, and a folder that `make_directory` creates there is entered by all
of them at that path. -/
structure PathsAgree (env : Env) (world : World) (path : List Name) : Prop where
  walks : WalksAgree env.toNormalization world.db.fs path
  reached : ∀ later, later = ((makeDirectory env ⟨some ⟨path⟩⟩).run world).state →
    ((makeDirectory env ⟨some ⟨path⟩⟩).run world).result = .ok () →
    ∀ walk ∈ folderWalks env.toNormalization, ReachesNew world.db.fs later.db.fs path walk

/-- A name that is its own NFKD and NFKC form. -/
def Plain (normalization : Normalization) (name : Name) : Prop :=
  normalization.nfkd name = name ∧ normalization.nfkc name = name

section Walking

variable {normalization : Normalization} {fs : Table Bytes Bytes}

/-- The walk with a spelling arrives in a folder exactly when the spelled path leads there. -/
theorem folderWalks_eq_ok_iff {walk : (Name → Name) ×
      (Table Bytes Bytes → List Name → Except Status FileSystemId)}
    (member : walk ∈ folderWalks normalization) {path : List Name} {inside : FileSystemId} :
    walk.2 fs path = .ok inside ↔ LeadsTo fs (path.map walk.1) inside := by
  simp only [folderWalks, List.mem_cons, List.not_mem_nil, or_false] at member
  rcases member with rfl | rfl | rfl | rfl <;> exact walkFolders_eq_ok_iff

/-- Plain names are spelled the same way by every walk. -/
theorem map_spelling {walk : (Name → Name) ×
      (Table Bytes Bytes → List Name → Except Status FileSystemId)}
    (member : walk ∈ folderWalks normalization) {path : List Name}
    (plain : ∀ name ∈ path, Plain normalization name) : path.map walk.1 = path := by
  simp only [folderWalks, List.mem_cons, List.not_mem_nil, or_false] at member
  rcases member with rfl | rfl | rfl | rfl
  · exact List.map_id path
  · exact List.map_id path
  · exact (List.map_congr_left fun name inPath => (plain name inPath).2).trans (List.map_id path)
  · exact (List.map_congr_left fun name inPath => (plain name inPath).1).trans (List.map_id path)

/-- In a canonical table every walk that arrives does so along the NFKD spelling. -/
theorem Canonical.leadsTo_spelled (canonical : Canonical normalization fs)
    {walk : (Name → Name) × (Table Bytes Bytes → List Name → Except Status FileSystemId)}
    (member : walk ∈ folderWalks normalization) {path : List Name} {inside : FileSystemId}
    (arrives : walk.2 fs path = .ok inside) : path.map walk.1 = path.map normalization.nfkd := by
  have leads := (folderWalks_eq_ok_iff member).mp arrives
  simp only [folderWalks, List.mem_cons, List.not_mem_nil, or_false] at member
  rcases member with rfl | rfl | rfl | rfl
  · rw [List.map_id] at leads ⊢
    exact (canonical.leadsTo_nfkd leads).symm
  · rw [List.map_id] at leads ⊢
    exact (canonical.leadsTo_nfkd leads).symm
  · exact canonical.leadsTo_nfkc leads
  · rfl

/-- When all walks arrive the names are plain. -/
theorem Canonical.plain_of_arrives (canonical : Canonical normalization fs) {path : List Name}
    (arrive : ∀ walk ∈ folderWalks normalization, ∃ inside, walk.2 fs path = .ok inside) :
    ∀ name ∈ path, Plain normalization name := by
  obtain ⟨_, raw⟩ := arrive (id, uploadWalk) (by simp [folderWalks])
  obtain ⟨_, composed⟩ :=
    arrive (normalization.nfkc, listWalk normalization) (by simp [folderWalks])
  have rawSpelled := canonical.leadsTo_spelled (by simp [folderWalks]) raw
  have composedSpelled := canonical.leadsTo_spelled (by simp [folderWalks]) composed
  rw [List.map_id] at rawSpelled
  rw [← rawSpelled] at composedSpelled
  have unchanged : ∀ spell : Name → Name, path.map spell = path →
      ∀ name ∈ path, spell name = name := by
    intro spell same
    exact List.map_inj_left.mp (same.trans (List.map_id path).symm)
  exact fun name inPath =>
    ⟨unchanged _ rawSpelled.symm name inPath, unchanged _ composedSpelled name inPath⟩

theorem toOption_eq_some_iff {walked : Except Status FileSystemId} {inside : FileSystemId} :
    walked.toOption = some inside ↔ walked = .ok inside := by
  cases walked <;> simp [Except.toOption]

/-- **The walks agree on a path exactly when its NFKD spelling leads nowhere or its names are
plain.** -/
theorem Canonical.walksAgree_iff (canonical : Canonical normalization fs) (path : List Name) :
    WalksAgree normalization fs path ↔
      ((∃ inside, LeadsTo fs (path.map normalization.nfkd) inside) →
        ∀ name ∈ path, Plain normalization name) := by
  constructor
  · rintro agree ⟨inside, leads⟩
    have member : (normalization.nfkd, descendPath normalization) ∈ folderWalks normalization := by
      simp [folderWalks]
    have descends := toOption_eq_some_iff.mpr ((folderWalks_eq_ok_iff member).mpr leads)
    exact canonical.plain_of_arrives fun walk isWalk =>
      ⟨inside, toOption_eq_some_iff.mp ((agree walk isWalk _ member).trans descends)⟩
  · intro plain one isOne other isOther
    refine Option.ext fun inside => ?_
    rw [toOption_eq_some_iff, toOption_eq_some_iff]
    have carries : ∀ {walk walk'}, walk ∈ folderWalks normalization →
        walk' ∈ folderWalks normalization → walk.2 fs path = .ok inside →
          walk'.2 fs path = .ok inside := by
      intro walk walk' isWalk isWalk' arrives
      have leads := (folderWalks_eq_ok_iff isWalk).mp arrives
      have spelled := canonical.leadsTo_spelled isWalk arrives
      have names := plain ⟨inside, spelled ▸ leads⟩
      rw [folderWalks_eq_ok_iff isWalk', map_spelling isWalk' names]
      rwa [map_spelling isWalk names] at leads
    exact ⟨carries isOne isOther, carries isOther isOne⟩

end Walking

/-! ## Folders that are created -/

/-- `make_directory` can create a folder: the names before the last lead to a parent as they are,
and the key of the trimmed last name is free there. -/
def FolderCanBeMade (normalization : Normalization) (fs : Table Bytes Bytes) (dirs : List Name)
    (last : Name) (parentId : FileSystemId) : Prop :=
  LeadsTo fs dirs parentId ∧ fs[makeKey normalization parentId (trim last)]? = none

theorem makeDirectory_creates {env : Env} {world : World} {path : List Name}
    (ok : ((makeDirectory env ⟨some ⟨path⟩⟩).run world).result = .ok ()) :
    ∃ dirs last parentId, path = dirs ++ [last] ∧
      FolderCanBeMade env.toNormalization world.db.fs dirs last parentId ∧
      ((makeDirectory env ⟨some ⟨path⟩⟩).run world).state.db = withNewFolder world.db
        (makeKey env.toNormalization parentId (trim last)) (trim last) := by
  have outcome := makeDirectory_cases env world ⟨some ⟨path⟩⟩
  generalize (makeDirectory env ⟨some ⟨path⟩⟩).run world = done at outcome ok
  cases outcome with
  | refused err notCreated => cases ok
  | created target last parentId later targeted named walked free result =>
      cases targeted
      have leads := walkFolders_eq_ok_iff.mp walked
      rw [List.map_id] at leads
      exact ⟨path.dropLast, last, parentId, (List.dropLast_append_getLast? last named).symm,
        ⟨leads, free⟩, by rw [result]; rfl⟩

theorem makeDirectory_of_folderCanBeMade {env : Env} {world : World} {dirs : List Name}
    {last : Name} {parentId : FileSystemId}
    (can : FolderCanBeMade env.toNormalization world.db.fs dirs last parentId) :
    ((makeDirectory env ⟨some ⟨dirs ++ [last]⟩⟩).run world).result = .ok () := by
  have outcome := makeDirectory_cases env world ⟨some ⟨dirs ++ [last]⟩⟩
  generalize (makeDirectory env ⟨some ⟨dirs ++ [last]⟩⟩).run world = done at outcome
  cases outcome with
  | refused err notCreated =>
      refine absurd ⟨⟨dirs ++ [last]⟩, last, parentId, rfl, by simp, ?_, can.2⟩ notCreated
      refine walkFolders_eq_ok_iff.mpr ?_
      simpa using can.1
  | created => rfl

section Created

variable {normalization : Normalization} {fs : Table Bytes Bytes} {dirs : List Name} {last : Name}
variable {parentId : FileSystemId} {record : FsRecordValue} {shown : Name}

/-- A created folder with plain names is reached by every walk. -/
theorem FolderCanBeMade.reaches (can : FolderCanBeMade normalization fs dirs last parentId)
    (folder : record.type = objTypeFolder)
    (plain : ∀ name ∈ dirs ++ [last], Plain normalization name) (trimmed : trim last = last)
    {walk : (Name → Name) × (Table Bytes Bytes → List Name → Except Status FileSystemId)}
    (isWalk : walk ∈ folderWalks normalization) :
    ReachesNew fs (fs.insert (makeKey normalization parentId (trim last))
      (record.bytesOf ++ utf8 shown)) (dirs ++ [last]) walk := by
  have spelled := map_spelling isWalk plain
  rw [List.map_append, List.map_singleton] at spelled
  obtain ⟨dirsSpelled, lastSpelled⟩ := List.append_inj spelled (by simp)
  rw [List.singleton_inj] at lastSpelled
  have key : makeKey normalization parentId (trim last) = entryKey parentId last := by
    rw [trimmed, makeKey, (plain last (by simp)).1]
  have leads := can.1.insert can.2 (record.bytesOf ++ utf8 shown)
  have enters : Enters (fs.insert (makeKey normalization parentId (trim last))
      (record.bytesOf ++ utf8 shown)) parentId last (parentIdOfRecord record.id) := by
    refine ⟨record.bytesOf ++ utf8 shown, record, ?_, fsRecordFromBytes_append _ _, folder,
      (parentIdOfValue_append _ _).symm⟩
    rw [key, Table.get_insert_self]
  refine ⟨dirs, last, parentId, parentIdOfRecord record.id, rfl, ?_, ?_, ?_⟩
  · rw [folderWalks_eq_ok_iff isWalk, dirsSpelled]
    exact leads
  · rw [lastSpelled, ← key]
    exact can.2
  · rw [folderWalks_eq_ok_iff isWalk, List.map_append, List.map_singleton, dirsSpelled, lastSpelled]
    exact descends_append_singleton_iff.mpr ⟨parentId, leads, enters⟩

/-- A created folder that every walk reaches has plain names and nothing to trim. -/
theorem Canonical.plain_of_reaches {after : Table Bytes Bytes}
    (canonical : Canonical normalization after)
    (result : after = fs.insert (makeKey normalization parentId (trim last))
      (record.bytesOf ++ utf8 shown))
    (reached : ∀ walk ∈ folderWalks normalization, ReachesNew fs after (dirs ++ [last]) walk) :
    (∀ name ∈ dirs ++ [last], Plain normalization name) ∧ trim last = last := by
  refine ⟨canonical.plain_of_arrives fun walk isWalk => ?_, ?_⟩
  · obtain ⟨_, _, _, inside, _, _, _, arrives⟩ := reached walk isWalk
    exact ⟨inside, arrives⟩
  · have isWalk : (id, uploadWalk) ∈ folderWalks normalization := by simp [folderWalks]
    obtain ⟨dirs', last', parent', inside, split, walked, absent, arrives⟩ := reached _ isWalk
    obtain ⟨rfl, lasts⟩ := List.append_inj' split rfl
    rw [List.singleton_inj] at lasts
    subst lasts
    rw [folderWalks_eq_ok_iff isWalk, List.map_id] at walked arrives
    obtain ⟨parent'', walked', value, _, found, _⟩ := descends_append_singleton_iff.mp arrives
    rw [LeadsTo.unique walked' walked, result, Table.get_insert] at found
    split at found
    · rename_i sameKey
      have spelled := (entryKey_inj sameKey).2
      refine (normalization.nfkd_trim_eq_iff last).mp ?_
      conv_rhs => rw [spelled, normalization.nfkd_nfkd]
    · have missing : fs[entryKey parent' last]? = none := absent
      rw [missing] at found
      cases found

end Created

/-- **The walks of a reachable state agree on a path, and reach a folder created there, exactly
when the names are plain wherever the path names a folder or one can be made, and the name of a
folder that can be made has no white space at its ends.** -/
theorem pathsAgree_iff (env : Env) (requests : List Request) (path : List Name) :
    PathsAgree env (serverAfter env requests).world path ↔
      ((∃ inside, LeadsTo (serverAfter env requests).world.db.fs
          (path.map env.toNormalization.nfkd) inside) →
        ∀ name ∈ path, Plain env.toNormalization name) ∧
      (∀ dirs last parentId, path = dirs ++ [last] →
        FolderCanBeMade env.toNormalization (serverAfter env requests).world.db.fs dirs last
          parentId →
        (∀ name ∈ path, Plain env.toNormalization name) ∧ trim last = last) := by
  have canonical := serverAfter_canonical env requests
  generalize (serverAfter env requests).world = world at canonical
  constructor
  · intro agree
    refine ⟨(canonical.walksAgree_iff path).mp agree.walks, ?_⟩
    rintro dirs last parentId rfl can
    have ok := makeDirectory_of_folderCanBeMade can
    obtain ⟨dirs', last', parent', split, _, db⟩ := makeDirectory_creates ok
    obtain ⟨rfl, lasts⟩ := List.append_inj' split rfl
    rw [List.singleton_inj] at lasts
    subst lasts
    have entries : _ = _ := congrArg Db.fs db
    have created : Canonical env.toNormalization
        ((makeDirectory env ⟨some ⟨dirs ++ [last]⟩⟩).run world).state.db.fs := by
      rw [entries]
      exact canonical.insert _ _ _ _
    exact created.plain_of_reaches entries (agree.reached _ rfl ok)
  · rintro ⟨existing, made⟩
    refine ⟨(canonical.walksAgree_iff path).mpr existing, ?_⟩
    rintro later rfl ok walk isWalk
    obtain ⟨dirs, last, parentId, rfl, can, db⟩ := makeDirectory_creates ok
    obtain ⟨plain, trimmed⟩ := made dirs last parentId rfl can
    rw [db]
    exact can.reaches rfl plain trimmed isWalk

/-! ## A name that NFKD changes -/

/-- Replace the Kelvin sign by the letter that it decomposes to. -/
def kelvinToK (c : Char) : Char := if c = '\u212A' then 'K' else c

/-- The normal forms on text in which the Kelvin sign is the only character that has one. -/
def kelvin : Normalization :=
  .ofChars kelvinToK fun c => by
    by_cases isKelvin : c = '\u212A'
    · rw [isKelvin]
      decide
    · have same : kelvinToK c = c := if_neg isKelvin
      rw [same, same]

/-- A folder named by the Kelvin sign, in the root. -/
def kelvinFolder : List Request := [.makeDirectory { target := some ⟨[['\u212A']]⟩ }]

/-- `descend_path` enters the folder, and the walk of `upload` does not find it. -/
theorem kelvinFolder_not_pathsAgree :
    ¬ PathsAgree (.numbered kelvin) (serverAfter (.numbered kelvin) kelvinFolder).world
      [['\u212A']] := by
  intro agree
  have same := agree.walks (id, uploadWalk) (by simp [folderWalks])
    (kelvin.nfkd, descendPath kelvin) (by simp [folderWalks, Env.numbered])
  exact absurd same (by decide)

end Yeetbox.Storage
