import Yeetbox.Storage.Rows
import Yeetbox.Storage.Entries

/-!
# The representation of the tables

The writers of `FS_TABLE` and `VER_TABLE` build keys and values by hand, and the readers decode them
without a check. What they rely on is `Represented`: a key of `FS_TABLE` is eight bytes and the NFKD
form of the name that its value ends with, and a value of `VER_TABLE` ends with the path of a blob.
Every reachable state has it (`serverAfter_represented`), and then every walk and every decoding of
a value goes as it should.
-/

set_option autoImplicit false

namespace Yeetbox.Storage

open Library

/-- A key of `FS_TABLE` and its value: eight bytes and text, a record of eighty bytes and a name,
whose NFKD form is the text in the key. -/
def EntryForm (normalization : Normalization) (key value : Bytes) : Prop :=
  ∃ (parentId : FileSystemId) (record : FsRecordValue) (name : Name),
    key = beBytes 8 parentId.toNat ++ utf8 (normalization.nfkd name) ∧
    value = record.bytesOf ++ utf8 name

/-- A key of `VER_TABLE` and its value: sixteen bytes, a record of forty bytes and the path of a
blob. -/
def RowForm (key value : Bytes) : Prop :=
  key.length = 16 ∧ ∃ (version : VersionRecordValue) (path : Name) (ulid : Ulid),
    value = version.bytesOf ++ utf8 path ∧ path ≠ [] ∧ utf8 path = blobPath ulid

/-- The keys and values of the tables are the bytes that their readers expect. -/
structure Represented (normalization : Normalization) (db : Db) : Prop where
  entry : ∀ key value : Bytes, db.fs[key]? = some value → EntryForm normalization key value
  row : ∀ key value : Bytes, db.ver[key]? = some value → RowForm key value

theorem RowsDrawn.rowForm {env : Env} {world : World} (drawn : RowsDrawn env world)
    {key value : Bytes} (found : world.db.ver[key]? = some value) : RowForm key value := by
  obtain ⟨id, version, call, rfl, _, rfl⟩ := drawn key value found
  have path := blobPath_eq_utf8 (env.newUlid call)
  refine ⟨length_versionKey_bytesOf _, version, _, env.newUlid call, ?_, ?_, path.symm⟩
  · rw [path]
  · exact List.append_ne_nil_of_right_ne_nil _ (List.cons_ne_nil _ _)

/-- **The tables are represented as they should be after every run.** -/
theorem serverAfter_represented (env : Env) (requests : List Request) :
    Represented env.toNormalization (serverAfter env requests).world.db where
  entry := by
    have kept : ∀ server req,
        (∀ key value : Bytes, server.world.db.fs[key]? = some value →
          EntryForm env.toNormalization key value) →
        ∀ key value : Bytes, (serve env server req).world.db.fs[key]? = some value →
          EntryForm env.toNormalization key value := by
      intro server req entries key value found
      rcases (serve_commits server req).entry_cases found with
        before | ⟨parentId, name, record, same, content⟩
      · exact entries key value before
      · exact ⟨parentId, record, name, same, content⟩
    refine runAll_invariant kept requests fun key value found => ?_
    exact absurd found (World.empty_entry key value)
  row := fun _ _ found => (serverAfter_rowsDrawn env requests).rowForm found

/-! ## Decoding what is represented -/

variable {normalization : Normalization} {db : Db} {key value : Bytes}

/-- A record is decoded from every value of an entry. -/
theorem EntryForm.decoded (form : EntryForm normalization key value) :
    fsRecordFromBytes value ≠ none := by
  obtain ⟨_, record, name, _, rfl⟩ := form
  rw [fsRecordFromBytes_append]
  exact Option.some_ne_none record

theorem RowForm.decoded (form : RowForm key value) : versionValueFromBytes value ≠ none := by
  obtain ⟨_, version, path, ulid, rfl, _⟩ := form
  rw [versionValueFromBytes_append]
  exact Option.some_ne_none version

/-- The path in a row is text. -/
theorem RowForm.text (form : RowForm key value) :
    (ofUtf8 (value.drop versionValueSize)).isNone = false := by
  obtain ⟨_, version, path, ulid, rfl, _⟩ := form
  rw [drop_versionValue_append, ofUtf8_utf8, Option.isNone_some]

/-- The entry of a folder is listed. -/
theorem EntryForm.listed (form : EntryForm normalization key value) (err : Status) :
    listEntry (key, value) ≠ .error err := by
  obtain ⟨parentId, record, name, rfl, rfl⟩ := form
  have long : ¬ (beBytes 8 parentId.toNat ++ utf8 (normalization.nfkd name)).length < 8 := by
    rw [List.length_append, length_beBytes]
    omega
  simp only [listEntry, long, if_false, fsRecordFromBytes_append, drop_fsRecord_append,
    ofUtf8_utf8]
  exact fun same => by cases same

/-- **No walk finds a corrupted record.** -/
theorem Represented.walk (represented : Represented normalization db) {spell : Name → Name}
    {notFolder : String} {path : List Name} :
    walkFolders spell notFolder db.fs path ≠ .error (.internal "corrupted fs record") := by
  rw [walkFolders]
  generalize rootFsid = start
  induction path generalizing start with
  | nil => exact fun same => by cases same
  | cons component rest ih =>
      rw [List.foldlM_cons]
      cases stepped : walkStep spell notFolder db.fs start component with
      | ok inside => exact ih inside
      | error err =>
          intro same
          cases same
          rw [walkStep] at stepped
          split at stepped
          · cases stepped
          · rename_i value found
            split at stepped
            · rename_i broken
              exact (represented.entry _ value found).decoded broken
            · split at stepped <;> cases stepped

/-- **Every entry of a range is listed.** -/
theorem Represented.listed (represented : Represented normalization db) (first last : Bytes)
    (err : Status) : (tableRange db.fs first last).mapM listEntry ≠ .error err := by
  have forms : ∀ entry ∈ tableRange db.fs first last,
      EntryForm normalization entry.1 entry.2 := by
    intro entry member
    have inTable := (List.mem_filter.mp member).1
    exact represented.entry _ _ (Std.ExtTreeMap.mem_toList_iff_getElem?_eq_some.mp inTable)
  generalize tableRange db.fs first last = entries at forms ⊢
  induction entries with
  | nil => exact fun same => by cases same
  | cons entry rest ih =>
      rw [List.mapM_cons]
      have later := ih fun other member => forms other (List.mem_cons_of_mem _ member)
      cases here : listEntry entry with
      | error other =>
          exact absurd here ((forms entry List.mem_cons_self).listed other)
      | ok listed =>
          cases ends : rest.mapM listEntry with
          | error other =>
              intro same
              cases same
              exact later ends
          | ok others => exact fun same => by cases same

end Yeetbox.Storage
