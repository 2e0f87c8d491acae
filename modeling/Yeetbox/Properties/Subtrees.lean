import Yeetbox.Properties.Trees
import Yeetbox.Storage.Append
import Yeetbox.Storage.Download
import Yeetbox.Storage.Way

/-!
# Moves of whole subtrees

A folder is moved with everything below it: its one entry goes to another key, and what leads on
from there stays. A move whose way to its destination does not pass the moved entry renames the
subtree and touches nothing else (`move_renamesSubtree`). A path below the destination then leads
to the record that it led to below the source (`RenamesSubtree.below`), and so downloads and appends
see the same file there.
-/

set_option autoImplicit false

namespace Yeetbox.Storage

open Library

variable (env : Env)

/-- A path leads afterwards to the record that another path led to before, and downloads and appends
do there what they did. -/
structure SeenAs (before later : World) (path path' : List Name) (record : FsRecordValue) :
    Prop where
  resolved : ∃ key, keyOfPath env.toNormalization later.db.fs path' = some key ∧
    RecordAt later.db.fs key record
  download : ∀ version offset length,
    ((download env ⟨some ⟨path', version⟩, offset, length⟩).run later).result =
      ((download env ⟨some ⟨path, version⟩, offset, length⟩).run before).result
  append : ∀ version data,
    ((append env ⟨some ⟨path', version⟩, data⟩).run later).result =
        ((append env ⟨some ⟨path, version⟩, data⟩).run before).result ∧
      ((append env ⟨some ⟨path', version⟩, data⟩).run later).state =
        ((append env ⟨some ⟨path, version⟩, data⟩).run before).state.withDb later.db

/-- The way from the source on does not come back to it. -/
def PassesOnce (fs : Table Bytes Bytes) (source : Bytes) (path suffix : List Name) : Prop :=
  ∀ front, front ≠ [] → front <+: suffix →
    keyOfPath env.toNormalization fs (path ++ front) ≠ some source

/-- The subtree at one path is renamed to another, and nothing else changes. -/
structure RenamesSubtree (before later : World) (path path' : List Name)
    (source destination : Bytes) : Prop where
  versions : later.db.ver = before.db.ver ∧ later.db.verCreated = before.db.verCreated
  sequences : later.db.seq = before.db.seq
  blobs : later.blobs = before.blobs
  entries : ∀ key, key ≠ source → key ≠ destination → later.db.fs[key]? = before.db.fs[key]?
  carried : ∃ value value', before.db.fs[source]? = some value ∧
    later.db.fs[destination]? = some value' ∧ fsRecordSize ≤ value.length ∧
    value'.take fsRecordSize = value.take fsRecordSize
  below : ∀ suffix key record, PassesOnce env before.db.fs source path suffix →
    keyOfPath env.toNormalization before.db.fs (path ++ suffix) = some key →
    RecordAt before.db.fs key record →
      SeenAs env before later (path ++ suffix) (path' ++ suffix) record
  elsewhere : ∀ other, source ∉ wayKeys env.toNormalization before.db.fs other →
    destination ∉ wayKeys env.toNormalization before.db.fs other →
      descendPath env.toNormalization later.db.fs other =
          descendPath env.toNormalization before.db.fs other ∧
        keyOfPath env.toNormalization later.db.fs other =
          keyOfPath env.toNormalization before.db.fs other ∧
        ∀ key, keyOfPath env.toNormalization before.db.fs other = some key →
          later.db.fs[key]? = before.db.fs[key]?
  gone : source ≠ destination → ∀ key,
    keyOfPath env.toNormalization later.db.fs path = some key → later.db.fs[key]? = none

variable {env}

/-! ## The walks after a move -/

section Walks

variable {fs : Table Bytes Bytes} {source destination : Bytes} {record : FsRecordValue}
  (name : Name)

/-- A path that avoids the moved entry leads where it led. -/
theorem LeadsTo.movedTo (there : RecordAt fs source record)
    (free : (fs.erase source)[destination]? = none) {path : List Name} {inside : FileSystemId}
    (avoids : source ∉ wayKeys env.toNormalization fs path)
    (leads : LeadsTo fs (path.map env.nfkd) inside) :
    LeadsTo (movedTo fs source destination record name) (path.map env.nfkd) inside := by
  refine leads.along_way fun key onWay inner folder => folder.movedTo name there free ?_
  rintro rfl
  exact avoids onWay

/-- From the moved folder on, a suffix that does not come back to it leads where it led. -/
theorem descends_movedTo (there : RecordAt fs source record)
    (free : (fs.erase source)[destination]? = none) {path suffix : List Name}
    {middle inside : FileSystemId} (once : PassesOnce env fs source path suffix)
    (leads : LeadsTo fs (path.map env.nfkd) middle)
    (descends : Descends (Enters fs) middle (suffix.map env.nfkd) inside) :
    Descends (Enters (movedTo fs source destination record name)) middle
      (suffix.map env.nfkd) inside := by
  refine descends.carry_map ?_
  rintro front component back node inner rfl reached entered
  refine FolderAt.movedTo name there free entered fun same => ?_
  have whole : LeadsTo fs ((path ++ front).map env.nfkd) node := by
    rw [List.map_append]
    exact descends_append_iff.mpr ⟨middle, leads, reached⟩
  refine once (front ++ [component]) (by simp) ⟨back, (List.append_cons ..).symm⟩ ?_
  rw [← List.append_assoc, keyOfPath_concat whole, makeKey, same]

/-- **A path below the source resolves below the destination to the same record.** -/
theorem resolves_below_destination (there : RecordAt fs source record)
    (free : (fs.erase source)[destination]? = none) {path path' suffix : List Name} {key : Bytes}
    {found : FsRecordValue} (resolved : keyOfPath env.toNormalization fs path = some source)
    (resolved' : keyOfPath env.toNormalization (movedTo fs source destination record name) path' =
      some destination)
    (once : PassesOnce env fs source path suffix)
    (below : keyOfPath env.toNormalization fs (path ++ suffix) = some key)
    (at_key : RecordAt fs key found) :
    ∃ key', keyOfPath env.toNormalization (movedTo fs source destination record name)
        (path' ++ suffix) = some key' ∧
      RecordAt (movedTo fs source destination record name) key' found := by
  rcases List.eq_nil_or_concat' suffix with rfl | ⟨front, component, rfl⟩
  · rw [List.append_nil, resolved, Option.some_inj] at below
    subst below
    rw [List.append_nil]
    exact ⟨destination, resolved', (recordAt_movedTo_iff name there).mpr (.inl ⟨rfl, at_key⟩)⟩
  · obtain ⟨_, parentId, named, walked, rfl⟩ := keyOfPath_eq_some_iff.mp below
    rw [← List.append_assoc, List.getLast?_concat, Option.some_inj] at named
    subst named
    rw [← List.append_assoc, List.dropLast_concat] at walked
    have leads := walkFolders_eq_ok_iff.mp walked
    rw [List.map_append] at leads
    obtain ⟨middle, toSource, onwards⟩ := descends_append_iff.mp leads
    -- The folder that is moved is entered through the destination now.
    have arrives : FolderAt (movedTo fs source destination record name) destination middle :=
      (folderAt_movedTo_iff name there).mpr
        (.inl ⟨rfl, (leadsTo_iff_folderAt resolved).mp toSource⟩)
    have inFront : PassesOnce env fs source path front := by
      intro start notNil isPrefix
      exact once start notNil (isPrefix.trans (List.prefix_append _ _))
    have later : Descends (Enters (movedTo fs source destination record name)) middle
        (front.map env.nfkd) parentId :=
      descends_movedTo name there free inFront toSource onwards
    have whole : LeadsTo (movedTo fs source destination record name)
        ((path' ++ front).map env.nfkd) parentId := by
      rw [List.map_append]
      exact descends_append_iff.mpr ⟨middle, (leadsTo_iff_folderAt resolved').mpr arrives, later⟩
    refine ⟨_, by rw [← List.append_assoc, keyOfPath_concat whole], ?_⟩
    refine there.movedTo name free at_key fun same => ?_
    exact once (front ++ [component]) (by simp) (List.prefix_refl _) (same ▸ below)

/-- The walks before and after a move agree where both succeed. -/
theorem enters_movedTo_agree (there : RecordAt fs source record)
    (free : (fs.erase source)[destination]? = none) (different : source ≠ destination)
    (node : FileSystemId) (label : Name) (first second : FileSystemId)
    (later : Enters (movedTo fs source destination record name) node label first)
    (before : Enters fs node label second) : first = second := by
  rcases (folderAt_movedTo_iff name there).mp later with ⟨same, _⟩ | ⟨_, _, folder⟩
  · obtain ⟨_, at_destination, _⟩ := folderAt_iff.mp before
    rw [same] at at_destination
    rw [Table.get_erase_ne _ (Ne.symm different)] at free
    exact absurd free at_destination.not_free
  · exact folder.unique before

/-- The path of the source leads to no entry any more, unless it leads to the destination. -/
theorem source_gone (there : RecordAt fs source record)
    (free : (fs.erase source)[destination]? = none) (different : source ≠ destination)
    {path : List Name} {key : Bytes}
    (resolved : keyOfPath env.toNormalization fs path = some source)
    (later : keyOfPath env.toNormalization (movedTo fs source destination record name) path =
      some key) : (movedTo fs source destination record name)[key]? = none := by
  obtain ⟨lastName, parentId, named, walked, same⟩ := keyOfPath_eq_some_iff.mp resolved
  obtain ⟨lastName', parentId', named', walked', rfl⟩ := keyOfPath_eq_some_iff.mp later
  cases named.symm.trans named'
  have parents : parentId' = parentId :=
    (walkFolders_eq_ok_iff.mp walked').agree (enters_movedTo_agree name there free different)
      (walkFolders_eq_ok_iff.mp walked)
  rw [parents, ← same, movedTo, Table.get_insert_ne _ _ different, Table.get_erase_self]

/-- A path that avoids both keys leads where it led, and to the entry that was there. -/
theorem resolves_elsewhere {path : List Name}
    (notSource : source ∉ wayKeys env.toNormalization fs path)
    (notDestination : destination ∉ wayKeys env.toNormalization fs path) :
    descendPath env.toNormalization (movedTo fs source destination record name) path =
        descendPath env.toNormalization fs path ∧
      keyOfPath env.toNormalization (movedTo fs source destination record name) path =
        keyOfPath env.toNormalization fs path ∧
      ∀ key, keyOfPath env.toNormalization fs path = some key →
        (movedTo fs source destination record name)[key]? = fs[key]? := by
  have unchanged : ∀ key ∈ wayKeys env.toNormalization fs path,
      (movedTo fs source destination record name)[key]? = fs[key]? := by
    intro key onWay
    refine get_movedTo_ne record name ?_ ?_
    · rintro rfl
      exact notSource onWay
    · rintro rfl
      exact notDestination onWay
  refine ⟨descendPath_congr unchanged, keyOfPath_congr unchanged, fun key resolved => ?_⟩
  exact unchanged key (mem_wayKeys_iff.mpr ⟨path, List.prefix_refl _, resolved⟩)

end Walks

/-! ## The whole move -/

/-- **A move whose way to its destination does not pass the moved entry renames the subtree, and
touches nothing else.** -/
theorem move_renamesSubtree (world : World) (req : MoveArg) (target : RequestedFileId)
    (source destination : Bytes) (targeted : req.target = some target)
    (resolved : keyOfPath env.toNormalization world.db.fs target.path = some source)
    (arrives : keyOfPath env.toNormalization world.db.fs req.destination = some destination)
    (avoids : source ∉ wayKeys env.toNormalization world.db.fs req.destination.dropLast)
    (ok : ((move env req).run world).result = .ok ()) :
    RenamesSubtree env world ((move env req).run world).state target.path req.destination source
      destination := by
  have outcome := move_cases env world req
  generalize (move env req).run world = done at outcome ok ⊢
  cases outcome with
  | refused err => cases ok
  | moved target' source' value record parentId name later targeted' resolved' named walked found
      decoded free result =>
      cases targeted.symm.trans targeted'
      cases resolved.symm.trans resolved'
      cases arrives.symm.trans (keyOfPath_of_walk named walked)
      have there : RecordAt world.db.fs source record := ⟨value, found, decoded⟩
      have carried := bytesOf_of_fsRecordFromBytes decoded
      have resolvedLater := keyOfPath_of_walk named (walkFolders_eq_ok_iff.mpr
        ((walkFolders_eq_ok_iff.mp walked).movedTo name there free avoids))
      rw [result]
      refine {
        versions := ⟨rfl, rfl⟩
        sequences := rfl
        blobs := rfl
        entries := fun key notSource notDestination =>
          get_movedTo_ne record name notSource notDestination
        carried := ⟨value, record.bytesOf ++ utf8 name, found, Table.get_insert_self _ _ _,
          fsRecordSize_le_of_fsRecordFromBytes decoded, ?_⟩
        below := ?_
        elsewhere := fun other notSource notDestination =>
          resolves_elsewhere name notSource notDestination
        gone := fun different key resolvedThere =>
          source_gone name there free different resolved resolvedThere }
      · rw [List.take_left' (length_fsRecord_bytesOf record), carried]
      · intro suffix key found once resolvedBefore at_key
        obtain ⟨key', resolvedAfter, at_key'⟩ := resolves_below_destination name there free resolved
          resolvedLater once resolvedBefore at_key
        exact {
          resolved := ⟨key', resolvedAfter, at_key'⟩
          download := download_of_same_record env resolvedBefore at_key resolvedAfter at_key'
          append := append_of_same_record env resolvedBefore at_key resolvedAfter at_key' }

/-- The folder with a file in it is renamed. -/
theorem renameFolder_renamesSubtree :
    RenamesSubtree (.numbered .unchanged) folderWithFile
      ((move (.numbered .unchanged) renameFolder).run folderWithFile).state [['a']] [['b']]
      (entryKey rootFsid ['a']) (entryKey rootFsid ['b']) :=
  move_renamesSubtree folderWithFile renameFolder ⟨[['a']], none⟩ _ _ rfl (by decide) (by decide)
    (by decide) (by decide)

end Yeetbox.Storage
