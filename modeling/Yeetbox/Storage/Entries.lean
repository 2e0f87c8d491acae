import Yeetbox.Storage.Commits

/-!
# The entries of the table

Every entry that a request commits is canonical: its key is the key of some name under some parent,
and its value is a record followed by a name (`serverAfter_canonical`). In a canonical table every
key spells its name in NFKD (`Canonical.nfkd_spelled`), and so does every list of names that leads
to a folder (`Canonical.leadsTo_nfkd`).
-/

set_option autoImplicit false

namespace Yeetbox.Storage

open Library

/-! ## Canonical tables -/

/-- Every key is the key of a name, and every value is a record followed by a name. -/
def Canonical (normalization : Normalization) (fs : Table Bytes Bytes) : Prop :=
  ∀ key value : Bytes, fs[key]? = some value → ∃ parentId name record shown,
    key = makeKey normalization parentId name ∧ value = FsRecordValue.bytesOf record ++ utf8 shown

variable {normalization : Normalization}

theorem Canonical.empty : Canonical normalization ∅ := by
  intro key value found
  simp at found

theorem Canonical.insert {fs : Table Bytes Bytes} (canonical : Canonical normalization fs)
    (parentId : FileSystemId) (name shown : Name) (record : FsRecordValue) :
    Canonical normalization
      (fs.insert (makeKey normalization parentId name) (record.bytesOf ++ utf8 shown)) := by
  intro key value found
  rcases Table.of_get_insert found with ⟨same, content⟩ | before
  · exact ⟨parentId, name, record, shown, same, content⟩
  · exact canonical key value before

/-- **An entry is there already, or the request commits it under the key of the name that its value
ends with.** -/
theorem Commits.entry_cases {env : Env} {server later : Server} {req : Request}
    (commits : Commits env server req later) {key value : Bytes}
    (found : later.world.db.fs[key]? = some value) :
    server.world.db.fs[key]? = some value ∨ ∃ parentId name record,
      key = makeKey env.toNormalization parentId name ∧
        value = FsRecordValue.bytesOf record ++ utf8 name := by
  have inserted : ∀ {fs : Table Bytes Bytes} {parentId : FileSystemId} {name : Name}
      {record : FsRecordValue},
      (fs.insert (makeKey env.toNormalization parentId name)
        (record.bytesOf ++ utf8 name))[key]? = some value →
      fs[key]? = some value ∨ ∃ parentId name record,
        key = makeKey env.toNormalization parentId name ∧
          value = FsRecordValue.bytesOf record ++ utf8 name := by
    intro fs parentId name record there
    rcases Table.of_get_insert there with ⟨same, content⟩ | before
    · exact .inr ⟨parentId, name, record, same, content⟩
    · exact .inl before
  cases commits with
  | nothing db => exact .inl (db ▸ found)
  | folder arg parentId lastName asked creates free counted db =>
      rw [db] at found
      exact inserted found
  | file parentId lastName record version call free id type first drawn before counted db =>
      rw [db] at found
      exact inserted found
  | removed arg source content record asked there decoded other db =>
      rw [db] at found
      exact .inl (Table.of_get_erase found)
  | moved arg source content record parentId name asked there decoded free db =>
      rw [db] at found
      exact (inserted found).imp_left Table.of_get_erase
  | copied parentId name call time free counted db =>
      rw [db] at found
      exact inserted found

/-- **What a request commits keeps the entries canonical.** -/
theorem Commits.canonical {env : Env} {server later : Server} {req : Request}
    (commits : Commits env server req later)
    (canonical : Canonical env.toNormalization server.world.db.fs) :
    Canonical env.toNormalization later.world.db.fs := by
  intro key value found
  rcases commits.entry_cases found with before | ⟨parentId, name, record, same, content⟩
  · exact canonical key value before
  · exact ⟨parentId, name, record, name, same, content⟩

/-- **The entries are canonical after every run.** -/
theorem serverAfter_canonical (env : Env) (requests : List Request) :
    Canonical env.toNormalization (serverAfter env requests).world.db.fs := by
  have kept : ∀ server req, Canonical env.toNormalization server.world.db.fs →
      Canonical env.toNormalization (serve env server req).world.db.fs := by
    intro server req canonical
    exact (serve_commits server req).canonical canonical
  exact runAll_invariant kept requests .empty

/-! ## Walking in a canonical table -/

variable {fs : Table Bytes Bytes}

/-- The key of a canonical entry spells its name in NFKD. -/
theorem Canonical.nfkd_spelled (canonical : Canonical normalization fs) {parentId : FileSystemId}
    {spelled : Name} {value : Bytes} (found : fs[entryKey parentId spelled]? = some value) :
    normalization.nfkd spelled = spelled := by
  obtain ⟨_, name, _, _, key, _⟩ := canonical _ _ found
  obtain ⟨_, rfl⟩ := entryKey_inj key
  exact normalization.nfkd_nfkd name

/-- The names that lead to a folder of a canonical table are in NFKD. -/
theorem Canonical.leadsTo_nfkd (canonical : Canonical normalization fs)
    {start inside : FileSystemId} {spelled : List Name}
    (leads : Descends (Enters fs) start spelled inside) :
    spelled.map normalization.nfkd = spelled := by
  induction leads with
  | here => rfl
  | inside entered _ ih =>
      obtain ⟨value, _, found, _⟩ := entered
      rw [List.map_cons, canonical.nfkd_spelled found, ih]

/-- Where the NFKC spelling leads, it is the NFKD spelling. -/
theorem Canonical.leadsTo_nfkc (canonical : Canonical normalization fs)
    {start inside : FileSystemId} {path : List Name}
    (leads : Descends (Enters fs) start (path.map normalization.nfkc) inside) :
    path.map normalization.nfkc = path.map normalization.nfkd := by
  have spelled := canonical.leadsTo_nfkd leads
  rw [List.map_map] at spelled
  rw [← spelled]
  exact List.map_congr_left fun name _ => normalization.nfkd_nfkc name

/-! ## One file in the root -/

/-- An upload of a file to the root in a single message. -/
def uploadOneFile : UploadArg := { target := some ⟨[['a']]⟩, data := { bytes := [1, 2] } }

/-- The deletion of that file. -/
def deleteOneFile : DeleteArg := { target := some ⟨[['a']], none⟩ }

/-- The world after the upload. -/
def oneFile : World := (serverAfter (.numbered .unchanged) [.upload uploadOneFile]).world

/-- The record that the upload made. -/
def oneFileRecord : FsRecordValue := newFileRecord (.numbered .unchanged) {} 0 2

theorem oneFile_there :
    FileAt .unchanged oneFile.db.fs [['a']] (entryKey rootFsid ['a']) oneFileRecord where
  resolved := by decide
  there := ⟨_, rfl, by decide⟩
  versioned := rfl

theorem oneFile_reads : Reads (.numbered .unchanged) oneFile [['a']] none [1, 2] := by
  have row : oneFile.db.ver[rowKey 1 1]? =
      some ((newFileVersion (.numbered .unchanged) uploadOneFile 2).bytesOf ++ blobPath 0) := by
    decide
  exact reads_of_row _ (Env.numbered_transfersAll _) oneFile_there.resolved oneFile_there.there rfl
    rfl row (by decide) (.inr rfl) (by decide)

end Yeetbox.Storage
