import Yeetbox.Storage.Identifiers
import Yeetbox.Storage.Rows

/-!
# The owners of version rows

A request leaves the records alone that it finds, except that it may move one to another key or
remove one that has no versions (`Commits.versioned_kept`), and every record that it adds takes the
next id (`Commits.record_cases`). So every version row keeps the file that it was committed with
(`Commits.owned`), every object that is no folder has an id from 1 up to the counter, and no record
has an id past the number of ids allocated (`serverAfter_record_id_le`).
-/

set_option autoImplicit false

namespace Yeetbox.Storage

open Library

variable {env : Env} {server later : Server} {req : Request}

/-! ## Where records come from and where they go -/

variable (env) in
/-- The type of a record that an upload creates, or that and the ULID of one that a copy creates. -/
def FileKind (record : FsRecordValue) : Prop :=
  record.type = objTypeVersionBlob ∨
    (record.type = objTypeNormalBlob ∧ ∃ call, record.blobUlid = env.newUlid call)

/-- **A record was there under some key, or is that of a folder or a file and took the next id.** -/
theorem Commits.record_cases (commits : Commits env server req later) {key : Bytes}
    {record : FsRecordValue} (there : RecordAt later.world.db.fs key record) :
    (∃ before, RecordAt server.world.db.fs before record) ∨
      (record.type = objTypeFolder ∨ FileKind env record) ∧
        record.id = server.world.db.lastId fsTableName + 1 ∧
        later.allocated = server.allocated + 1 := by
  cases commits with
  | nothing db =>
      rw [db] at there
      exact .inl ⟨key, there⟩
  | folder arg parentId lastName asked creates free counted db =>
      rw [db] at there
      rcases recordAt_insert_iff.mp there with ⟨_, rfl⟩ | ⟨_, before⟩
      · exact .inr ⟨.inl rfl, rfl, counted⟩
      · exact .inl ⟨key, before⟩
  | file parentId lastName record' version call free id type first drawn before counted db =>
      rw [db] at there
      rcases recordAt_insert_iff.mp there with ⟨_, rfl⟩ | ⟨_, before⟩
      · exact .inr ⟨.inr (.inl type), id, counted⟩
      · exact .inl ⟨key, before⟩
  | removed arg source value other asked found decoded notFile db =>
      rw [db] at there
      exact .inl ⟨key, (recordAt_erase_iff.mp there).2⟩
  | moved arg source value other parentId name asked found decoded free db =>
      rw [db] at there
      rcases recordAt_insert_iff.mp there with ⟨_, rfl⟩ | ⟨_, before⟩
      · exact .inl ⟨source, value, found, decoded⟩
      · exact .inl ⟨key, (recordAt_erase_iff.mp before).2⟩
  | copied parentId name call time free counted db =>
      rw [db] at there
      rcases recordAt_insert_iff.mp there with ⟨_, rfl⟩ | ⟨_, before⟩
      · exact .inr ⟨.inr (.inr ⟨rfl, call, rfl⟩), rfl, counted⟩
      · exact .inl ⟨key, before⟩

/-- **The record of a file with versions is still there under some key.** -/
theorem Commits.versioned_kept (commits : Commits env server req later) {key : Bytes}
    {record : FsRecordValue} (there : RecordAt server.world.db.fs key record)
    (versioned : record.type = objTypeVersionBlob) :
    ∃ after, RecordAt later.world.db.fs after record := by
  have inserted : ∀ {new rest : Bytes} {other : FsRecordValue}, server.world.db.fs[new]? = none →
      RecordAt (server.world.db.fs.insert new (other.bytesOf ++ rest)) key record := by
    intro new rest other free
    refine recordAt_insert_iff.mpr (.inr ⟨?_, there⟩)
    rintro rfl
    exact there.not_free free
  cases commits with
  | nothing db =>
      rw [db]
      exact ⟨key, there⟩
  | folder arg parentId lastName asked creates free counted db =>
      rw [db]
      exact ⟨key, inserted free⟩
  | file parentId lastName record' version call free id type first drawn before counted db =>
      rw [db]
      exact ⟨key, inserted free⟩
  | removed arg source value other asked found decoded notFile db =>
      rw [db]
      refine ⟨key, recordAt_erase_iff.mpr ⟨?_, there⟩⟩
      rintro rfl
      have same : record = other := there.unique ⟨value, found, decoded⟩
      exact notFile (same ▸ versioned)
  | moved arg source value other parentId name asked found decoded free db =>
      rw [db]
      by_cases atSource : key = source
      · subst atSource
        have same : record = other := there.unique ⟨value, found, decoded⟩
        exact ⟨_, recordAt_insert_iff.mpr (.inl ⟨rfl, same⟩)⟩
      · refine ⟨key, recordAt_insert_iff.mpr (.inr ⟨?_, recordAt_erase_iff.mpr ⟨atSource, there⟩⟩)⟩
        rintro rfl
        rw [Table.get_erase_ne _ atSource] at free
        exact there.not_free free
  | copied parentId name call time free counted db =>
      rw [db]
      exact ⟨key, inserted free⟩

/-! ## Owners -/

/-- Every version row is the first one of a file with versions, and objects that are no folders have
ids from 1 on. -/
structure Owned (db : Db) : Prop where
  rows : ∀ key row : Bytes, db.ver[key]? = some row → ∃ entry record, RecordAt db.fs entry record ∧
    record.type = objTypeVersionBlob ∧ record.latestVersion = 1 ∧ key = rowKey record.id 1
  positive : ∀ {entry record}, RecordAt db.fs entry record → NotFolder record →
    1 ≤ record.id.toNat

theorem Owned.empty : Owned World.empty.db where
  rows := by
    intro key row found
    exact absurd found (World.empty_row key row)
  positive := by
    intro entry record there
    exact absurd there not_recordAt_empty

/-- A committed row is one that was there, or that of a new file. -/
theorem Commits.owned_row (commits : Commits env server req later) {key row : Bytes}
    (found : later.world.db.ver[key]? = some row) :
    server.world.db.ver[key]? = some row ∨ ∃ entry record, RecordAt later.world.db.fs entry record ∧
      record.type = objTypeVersionBlob ∧ record.latestVersion = 1 ∧ key = rowKey record.id 1 := by
  cases commits with
  | file parentId lastName record version call free id type first drawn before counted db =>
      rw [db] at found ⊢
      rcases Table.of_get_insert found with ⟨same, _⟩ | older
      · exact .inr ⟨_, record, recordAt_insert_iff.mpr (.inl ⟨rfl, rfl⟩), type, first, same⟩
      · exact .inl older
  | nothing db => exact .inl (db ▸ found)
  | folder arg parentId lastName asked creates free counted db => exact .inl (by rwa [db] at found)
  | removed arg source value other asked there decoded notFile db =>
      exact .inl (by rwa [db] at found)
  | moved arg source value other parentId name asked there decoded free db =>
      exact .inl (by rwa [db] at found)
  | copied parentId name call time free counted db => exact .inl (by rwa [db] at found)

/-- A row has an owner after a request, when every row had one before. -/
theorem Commits.row_owner (commits : Commits env server req later)
    (owned : ∀ key row : Bytes, server.world.db.ver[key]? = some row → ∃ entry record,
      RecordAt server.world.db.fs entry record ∧ record.type = objTypeVersionBlob ∧
        record.latestVersion = 1 ∧ key = rowKey record.id 1)
    {key row : Bytes} (found : later.world.db.ver[key]? = some row) :
    ∃ entry record, RecordAt later.world.db.fs entry record ∧
      record.type = objTypeVersionBlob ∧ record.latestVersion = 1 ∧ key = rowKey record.id 1 := by
  rcases commits.owned_row found with before | new
  · obtain ⟨entry, record, there, versioned, first, same⟩ := owned key row before
    obtain ⟨after, stays⟩ := commits.versioned_kept there versioned
    exact ⟨after, record, stays, versioned, first, same⟩
  · exact new

/-- **What a request commits keeps every row with its owner.** -/
theorem Commits.owned (commits : Commits env server req later) (owned : Owned server.world.db)
    (counted : Counted server.world.db server.allocated)
    (few : later.allocated < 2 ^ 64 - 1) : Owned later.world.db where
  rows _ _ found := commits.row_owner owned.rows found
  positive := by
    intro entry record there notFolder
    rcases commits.record_cases there with ⟨before, earlier⟩ | ⟨_, next, allocates⟩
    · exact owned.positive earlier notFolder
    · rw [next, (counted.toNat_next (by omega)).2]
      exact Nat.le_add_left 1 _

/-- **Every row has its owner after every run that allocates few ids.** -/
theorem serverAfter_owned (env : Env) (requests : List Request)
    (few : (serverAfter env requests).allocated < 2 ^ 64 - 1) :
    Owned (serverAfter env requests).world.db := by
  have kept : ∀ server req,
      (serve env server req).allocated ≤ (serverAfter env requests).allocated →
      Counted server.world.db server.allocated ∧ Owned server.world.db →
      Counted (serve env server req).world.db (serve env server req).allocated ∧
        Owned (serve env server req).world.db := by
    rintro server req bound ⟨counted, owned⟩
    have commits : Commits env server req (serve env server req) := serve_commits server req
    have fewer := bound.trans_lt few
    exact ⟨commits.counted (allocated_le env server req) fewer counted,
      commits.owned owned counted fewer⟩
  exact (Guarded.invariant kept (guarded_le (allocated_le env) .empty requests)
    ⟨.empty, .empty⟩).2

/-- **Every row has an owner after every run**, also when ids have run out. -/
theorem serverAfter_row_owner (env : Env) (requests : List Request) {key row : Bytes}
    (found : (serverAfter env requests).world.db.ver[key]? = some row) :
    ∃ entry record, RecordAt (serverAfter env requests).world.db.fs entry record ∧
      record.type = objTypeVersionBlob ∧ record.latestVersion = 1 ∧ key = rowKey record.id 1 := by
  have kept : ∀ server req,
      (∀ key row : Bytes, server.world.db.ver[key]? = some row → ∃ entry record,
        RecordAt server.world.db.fs entry record ∧ record.type = objTypeVersionBlob ∧
          record.latestVersion = 1 ∧ key = rowKey record.id 1) →
      ∀ key row : Bytes, (serve env server req).world.db.ver[key]? = some row → ∃ entry record,
        RecordAt (serve env server req).world.db.fs entry record ∧
          record.type = objTypeVersionBlob ∧ record.latestVersion = 1 ∧
            key = rowKey record.id 1 := by
    intro server req owned key row found
    have commits : Commits env server req (serve env server req) := serve_commits server req
    exact commits.row_owner owned found
  exact runAll_invariant kept requests Owned.empty.rows key row found

/-! ## The ids of all records -/

/-- **No record has an id past the number of ids allocated.** -/
theorem serverAfter_record_id_le (env : Env) (requests : List Request)
    (few : (serverAfter env requests).allocated < 2 ^ 64 - 1) {key : Bytes}
    {record : FsRecordValue}
    (there : RecordAt (serverAfter env requests).world.db.fs key record) :
    record.id.toNat ≤ (serverAfter env requests).allocated := by
  have kept : ∀ server req,
      (serve env server req).allocated ≤ (serverAfter env requests).allocated →
      (Counted server.world.db server.allocated ∧
        ∀ key record, RecordAt server.world.db.fs key record →
          record.id.toNat ≤ server.allocated) →
      Counted (serve env server req).world.db (serve env server req).allocated ∧
        ∀ key record, RecordAt (serve env server req).world.db.fs key record →
          record.id.toNat ≤ (serve env server req).allocated := by
    rintro server req bound ⟨counted, ids⟩
    have commits : Commits env server req (serve env server req) := serve_commits server req
    have rises := allocated_le env server req
    refine ⟨commits.counted rises (bound.trans_lt few) counted, fun key record there => ?_⟩
    rcases commits.record_cases there with ⟨before, was⟩ | ⟨_, next, counts⟩
    · exact (ids before record was).trans rises
    · have counter := counted.counter
      rw [next, (counted.toNat_next (by omega)).2, counts]
      omega
  have initially : ∀ key record, RecordAt Server.empty.world.db.fs key record →
      record.id.toNat ≤ Server.empty.allocated := by
    intro key record there
    exact absurd there not_recordAt_empty
  exact (Guarded.invariant kept (guarded_le (allocated_le env) .empty requests)
    ⟨.empty, initially⟩).2 key record there

end Yeetbox.Storage
