import Yeetbox.Storage.Entries

/-!
# Identifiers

Files and copies take their ids through `get_next_id`, so the ids of the records that are no
folders are distinct and at most the counter, and so are the ids in the version rows
(`Counted`). A folder takes the id after the counter and leaves the counter alone; that is why
folders are left out here.

The counter counts the ids that were allocated, so it does not wrap around as long as fewer than
`2 ^ 64 - 1` of them were.
-/

set_option autoImplicit false

namespace Yeetbox.Storage

open Library

/-- The record is not that of a folder. -/
def NotFolder (record : FsRecordValue) : Prop := record.type ≠ objTypeFolder

/-- The records that count have distinct ids up to a last one. -/
structure UniqueIds (counts : FsRecordValue → Prop) (fs : Table Bytes Bytes)
    (last : FileSystemId) : Prop where
  bound : ∀ {key record}, RecordAt fs key record → counts record → record.id.toNat ≤ last.toNat
  unique : ∀ {first second one other}, RecordAt fs first one → RecordAt fs second other →
    counts one → counts other → one.id = other.id → first = second

namespace UniqueIds

variable {counts : FsRecordValue → Prop} {fs : Table Bytes Bytes} {last : FileSystemId}

theorem empty : UniqueIds counts ∅ last where
  bound := by
    rintro key record ⟨value, found, _⟩
    simp at found
  unique := by
    rintro first second one other ⟨value, found, _⟩
    simp at found

/-- A record that does not count may be inserted under a free key. -/
theorem insert_other (ids : UniqueIds counts fs last) {key rest : Bytes} {record : FsRecordValue}
    (other : ¬ counts record) : UniqueIds counts (fs.insert key (record.bytesOf ++ rest)) last where
  bound := by
    intro key' record' there counted
    rcases recordAt_insert_iff.mp there with ⟨_, rfl⟩ | ⟨_, before⟩
    · exact absurd counted other
    · exact ids.bound before counted
  unique := by
    intro first second one two there there' counted counted' same
    rcases recordAt_insert_iff.mp there with ⟨_, rfl⟩ | ⟨_, before⟩
    · exact absurd counted other
    rcases recordAt_insert_iff.mp there' with ⟨_, rfl⟩ | ⟨_, before'⟩
    · exact absurd counted' other
    exact ids.unique before before' counted counted' same

/-- **A record with the next id may be inserted when the counter is moved on.** -/
theorem insert_next (ids : UniqueIds counts fs last) {key rest : Bytes} {record : FsRecordValue}
    (next : record.id = last + 1) (noWrap : last.toNat + 1 < 2 ^ 64) :
    UniqueIds counts (fs.insert key (record.bytesOf ++ rest)) (last + 1) := by
  have succ : (last + 1).toNat = last.toNat + 1 := by
    rw [UInt64.toNat_add, UInt64.toNat_one, Nat.mod_eq_of_lt noWrap]
  have older : ∀ {key' record'}, RecordAt fs key' record' → counts record' →
      record'.id ≠ record.id := by
    intro key' record' there counted same
    have bound := ids.bound there counted
    rw [same, next, succ] at bound
    omega
  constructor
  · intro key' record' there counted
    rcases recordAt_insert_iff.mp there with ⟨_, rfl⟩ | ⟨_, before⟩
    · rw [next]
    · have bound := ids.bound before counted
      omega
  · intro first second one two there there' counted counted' same
    rcases recordAt_insert_iff.mp there with ⟨rfl, rfl⟩ | ⟨_, before⟩ <;>
      rcases recordAt_insert_iff.mp there' with ⟨rfl, rfl⟩ | ⟨_, before'⟩
    · rfl
    · exact absurd same.symm (older before' counted')
    · exact absurd same (older before counted)
    · exact ids.unique before before' counted counted' same

theorem erase (ids : UniqueIds counts fs last) (key : Bytes) :
    UniqueIds counts (fs.erase key) last where
  bound there counted := ids.bound (recordAt_erase_iff.mp there).2 counted
  unique there there' counted counted' same :=
    ids.unique (recordAt_erase_iff.mp there).2 (recordAt_erase_iff.mp there').2 counted counted'
      same

/-- A record may be moved to another key. -/
theorem moved (ids : UniqueIds counts fs last) {source destination : Bytes}
    {record : FsRecordValue} (there : RecordAt fs source record) (name : Name) :
    UniqueIds counts (movedTo fs source destination record name) last where
  bound := by
    intro key found at_key counted
    rcases recordAt_insert_iff.mp at_key with ⟨_, rfl⟩ | ⟨_, before⟩
    · exact ids.bound there counted
    · exact ids.bound (recordAt_erase_iff.mp before).2 counted
  unique := by
    intro first second one two at_first at_second counted counted' same
    rcases recordAt_insert_iff.mp at_first with ⟨rfl, rfl⟩ | ⟨_, before⟩ <;>
      rcases recordAt_insert_iff.mp at_second with ⟨rfl, rfl⟩ | ⟨_, before'⟩
    · rfl
    · obtain ⟨notSource, before'⟩ := recordAt_erase_iff.mp before'
      exact absurd (ids.unique there before' counted counted' same).symm notSource
    · obtain ⟨notSource, before⟩ := recordAt_erase_iff.mp before
      exact absurd (ids.unique before there counted counted' same) notSource
    · exact ids.unique (recordAt_erase_iff.mp before).2 (recordAt_erase_iff.mp before').2 counted
        counted' same

end UniqueIds

/-! ## The counter -/

/-- The counter bounds the ids of the objects that are no folders and of the version rows, and is
itself bounded by the number of ids allocated. -/
structure Counted (db : Db) (allocated : ℕ) : Prop where
  counter : (db.lastId fsTableName).toNat ≤ allocated
  ids : UniqueIds NotFolder db.fs (db.lastId fsTableName)
  rows : ∀ key row : Bytes, db.ver[key]? = some row →
    ∃ id : FileSystemId, key = rowKey id 1 ∧ id.toNat ≤ (db.lastId fsTableName).toNat

@[simp] theorem lastId_withNewFolder (db : Db) (key : Bytes) (name : Name) :
    (withNewFolder db key name).lastId fsTableName = db.lastId fsTableName := rfl

@[simp] theorem lastId_withNewFile (db : Db) (key : Bytes) (name : Name) (record : FsRecordValue)
    (version : VersionRecordValue) (path : Bytes) :
    (withNewFile db key name record version path).lastId fsTableName =
      db.lastId fsTableName + 1 := by
  rw [Db.lastId, withNewFile, Table.get_insert_self, Option.getD_some]

@[simp] theorem lastId_withCopy (db : Db) (key : Bytes) (name : Name) (record : FsRecordValue) :
    (withCopy db key name record).lastId fsTableName = db.lastId fsTableName + 1 := by
  rw [Db.lastId, withCopy, Table.get_insert_self, Option.getD_some]

theorem Counted.empty : Counted World.empty.db 0 where
  counter := by decide
  ids := .empty
  rows := by
    intro key row found
    exact absurd found (World.empty_row key row)

/-- The counter before the next id, as a number. -/
theorem Counted.toNat_next {db : Db} {allocated : ℕ} (counted : Counted db allocated)
    (few : allocated < 2 ^ 64 - 1) : (db.lastId fsTableName).toNat + 1 < 2 ^ 64 ∧
      (db.lastId fsTableName + 1).toNat = (db.lastId fsTableName).toNat + 1 := by
  have counter := counted.counter
  have noWrap : (db.lastId fsTableName).toNat + 1 < 2 ^ 64 := by omega
  refine ⟨noWrap, ?_⟩
  rw [UInt64.toNat_add, UInt64.toNat_one, Nat.mod_eq_of_lt noWrap]

/-- No row has the next id. -/
theorem Counted.not_next {db : Db} {allocated : ℕ} (counted : Counted db allocated)
    (few : allocated < 2 ^ 64 - 1) {key row : Bytes} (found : db.ver[key]? = some row) :
    key ≠ rowKey (db.lastId fsTableName + 1) 1 := by
  obtain ⟨id, rfl, bound⟩ := counted.rows key row found
  intro same
  rw [(rowKey_inj same).1, (counted.toNat_next few).2] at bound
  omega

/-- Changes of the entries that keep the ids and leave the other tables alone. -/
theorem Counted.of_fs {db later : Db} {allocated counts : ℕ} (counted : Counted db allocated)
    (rises : allocated ≤ counts) (seq : later.seq = db.seq) (ver : later.ver = db.ver)
    (ids : UniqueIds NotFolder later.fs (db.lastId fsTableName)) : Counted later counts := by
  have last : later.lastId fsTableName = db.lastId fsTableName := by rw [Db.lastId, seq, Db.lastId]
  refine ⟨?_, ?_, ?_⟩
  · rw [last]
    exact counted.counter.trans rises
  · rw [last]
    exact ids
  · rw [last, ver]
    exact counted.rows

/-- **What a request commits keeps the counter ahead of the ids.** -/
theorem Commits.counted {env : Env} {server later : Server} {req : Request}
    (commits : Commits env server req later) (rises : server.allocated ≤ later.allocated)
    (few : later.allocated < 2 ^ 64 - 1) (counted : Counted server.world.db server.allocated) :
    Counted later.world.db later.allocated := by
  cases commits with
  | nothing db =>
      exact counted.of_fs rises (by rw [db]) (by rw [db]) (by rw [db]; exact counted.ids)
  | folder arg parentId lastName asked creates free allocates db =>
      rw [db]
      exact counted.of_fs rises rfl rfl (counted.ids.insert_other fun notFolder => notFolder rfl)
  | file parentId lastName record version call free id type first drawn before allocates db =>
      rw [db, allocates]
      rw [allocates] at few
      obtain ⟨noWrap, next⟩ := counted.toNat_next (Nat.lt_of_succ_lt few)
      have counter := counted.counter
      refine ⟨?_, ?_, ?_⟩
      · rw [lastId_withNewFile, next]
        omega
      · rw [lastId_withNewFile]
        exact counted.ids.insert_next id noWrap
      · intro key row found
        rw [lastId_withNewFile, next]
        rcases Table.of_get_insert found with ⟨same, _⟩ | before
        · exact ⟨record.id, same, by rw [id, next]⟩
        · obtain ⟨older, rfl, bound⟩ := counted.rows key row before
          exact ⟨older, rfl, bound.trans (Nat.le_succ _)⟩
  | removed arg key value record asked found decoded other db =>
      rw [db]
      exact counted.of_fs rises rfl rfl (counted.ids.erase key)
  | moved arg source value record parentId name asked found decoded free db =>
      rw [db]
      exact counted.of_fs rises rfl rfl (counted.ids.moved ⟨value, found, decoded⟩ name)
  | copied parentId name call time free allocates db =>
      rw [db, allocates]
      rw [allocates] at few
      obtain ⟨noWrap, next⟩ := counted.toNat_next (Nat.lt_of_succ_lt few)
      have counter := counted.counter
      refine ⟨?_, ?_, ?_⟩
      · rw [lastId_withCopy, next]
        omega
      · rw [lastId_withCopy]
        exact counted.ids.insert_next rfl noWrap
      · intro key row found
        rw [lastId_withCopy, next]
        obtain ⟨older, rfl, bound⟩ := counted.rows key row found
        exact ⟨older, rfl, bound.trans (Nat.le_succ _)⟩

/-! ## Runs that allocate few ids -/

theorem allocated_le (env : Env) (server : Server) (req : Request) :
    server.allocated ≤ (serve env server req).allocated :=
  Nat.le_add_right _ _

/-- **The counter is ahead of the ids after every run that allocates few of them.** -/
theorem serverAfter_counted (env : Env) (requests : List Request)
    (few : (serverAfter env requests).allocated < 2 ^ 64 - 1) :
    Counted (serverAfter env requests).world.db (serverAfter env requests).allocated := by
  have kept : ∀ server req,
      (serve env server req).allocated ≤ (serverAfter env requests).allocated →
      Counted server.world.db server.allocated →
      Counted (serve env server req).world.db (serve env server req).allocated := by
    intro server req bound counted
    have commits : Commits env server req (serve env server req) := serve_commits server req
    exact commits.counted (allocated_le env server req) (bound.trans_lt few) counted
  exact Guarded.invariant kept (guarded_le (allocated_le env) .empty requests) .empty

end Yeetbox.Storage
