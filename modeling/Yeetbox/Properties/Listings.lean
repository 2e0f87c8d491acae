import Yeetbox.Library.ByteOrder
import Yeetbox.Storage.Owners
import Yeetbox.Storage.Representation

/-!
# Listings

`list` reads the entries whose keys lie between the big-endian bytes of the folder's id and those of
the next number. These are exactly the entries whose keys start with the id (`mem_range_iff`), and
since every key is made from the name that is listed with it, the listed names lead back to the
entries (`list_exact`). The id has a next number as long as not all ids are used up.
-/

set_option autoImplicit false

namespace Yeetbox.Storage

open Library Handler

/-- The entries of a listing, and the keys they were listed from. -/
structure ListsFolder (normalization : Normalization) (fs : Table Bytes Bytes)
    (parentId : FileSystemId) (keys : List Bytes) (entries : List ListEntry) : Prop where
  exact : ∀ key, key ∈ keys ↔
    (∃ value, fs[key]? = some value) ∧ key.take 8 = beBytes 8 parentId.toNat
  ascending : keys.Pairwise fun first second => compare first second = .lt
  listed : List.Forall₂ (fun key entry =>
    (∃ value, fs[key]? = some value ∧ listEntry (key, value) = .ok entry) ∧
      makeKey normalization parentId entry.relativeName = key) keys entries
  distinct : entries.Pairwise fun first second =>
    normalization.nfkd first.relativeName ≠ normalization.nfkd second.relativeName

/-! ## The rows of a folder -/

variable {normalization : Normalization} {fs : Table Bytes Bytes}

theorem mem_tableRange_iff {first last key value : Bytes} :
    (key, value) ∈ tableRange fs first last ↔ fs[key]? = some value ∧
      (compare first key).isLE ∧ (compare key last).isLT := by
  rw [tableRange, List.mem_filter, Std.ExtTreeMap.mem_toList_iff_getElem?_eq_some,
    Bool.and_eq_true]

/-- The rows of a range are in the order of their keys. -/
theorem tableRange_ascending (first last : Bytes) :
    (tableRange fs first last).Pairwise fun one other => compare one.1 other.1 = .lt :=
  Std.ExtTreeMap.ordered_keys_toList.filter _

/-- The entry that a row is listed as has the name that the key was made from. -/
theorem EntryForm.lists {key value : Bytes} (form : EntryForm normalization key value) :
    ∃ entry, listEntry (key, value) = .ok entry ∧
      key.drop 8 = utf8 (normalization.nfkd entry.relativeName) := by
  obtain ⟨parentId, record, name, rfl, rfl⟩ := form
  have long : ¬ (beBytes 8 parentId.toNat ++ utf8 (normalization.nfkd name)).length < 8 := by
    rw [List.length_append, length_beBytes]
    omega
  simp only [listEntry, long, if_false, fsRecordFromBytes_append, drop_fsRecord_append,
    ofUtf8_utf8]
  exact ⟨_, rfl, List.drop_left' (length_beBytes 8 _)⟩

/-- A key that starts with an id is made from the id and the name that it goes on with. -/
theorem makeKey_of_take {parentId : FileSystemId} {key : Bytes} {name : Name}
    (id : key.take 8 = beBytes 8 parentId.toNat)
    (rest : key.drop 8 = utf8 (normalization.nfkd name)) :
    makeKey normalization parentId name = key := by
  rw [makeKey, entryKey, ← id, ← rest, List.take_append_drop]

/-- A loop whose every round succeeds gives one result for each round. -/
theorem mapM_ok {Row Entry Err : Type} {round : Row → Except Err Entry}
    {Good : Row → Entry → Prop} {rows : List Row}
    (rounds : ∀ row ∈ rows, ∃ entry, round row = .ok entry ∧ Good row entry) :
    ∃ entries, rows.mapM round = .ok entries ∧ List.Forall₂ Good rows entries := by
  induction rows with
  | nil => exact ⟨[], rfl, .nil⟩
  | cons row rest ih =>
      obtain ⟨entry, ok, good⟩ := rounds row List.mem_cons_self
      obtain ⟨entries, others, goods⟩ :=
        ih fun other member => rounds other (List.mem_cons_of_mem _ member)
      refine ⟨entry :: entries, ?_, .cons good goods⟩
      rw [List.mapM_cons, ok, others]
      rfl

/-- Every result of a loop that succeeds is that of a round. -/
theorem mem_of_mapM_ok {Row Entry Err : Type} {round : Row → Except Err Entry} {rows : List Row}
    {entries : List Entry} (ok : rows.mapM round = .ok entries) {entry : Entry}
    (member : entry ∈ entries) : ∃ row ∈ rows, round row = .ok entry := by
  induction rows generalizing entries with
  | nil =>
      cases ok
      cases member
  | cons row rest ih =>
      rw [List.mapM_cons] at ok
      cases first : round row with
      | error err =>
          rw [first] at ok
          cases ok
      | ok head =>
          cases others : rest.mapM round with
          | error err =>
              rw [first, others] at ok
              cases ok
          | ok tail =>
              rw [first, others] at ok
              cases ok
              rcases List.mem_cons.mp member with rfl | later
              · exact ⟨row, List.mem_cons_self, first⟩
              · obtain ⟨other, inside, same⟩ := ih others later
                exact ⟨other, List.mem_cons_of_mem _ inside, same⟩

/-- Entries that lead back to ascending keys have distinct names. -/
theorem distinct_of_ascending {parentId : FileSystemId} {keys : List Bytes}
    {entries : List ListEntry}
    (ascending : keys.Pairwise fun first second => compare first second = .lt)
    (leads : List.Forall₂ (fun key entry =>
      makeKey normalization parentId entry.relativeName = key) keys entries) :
    entries.Pairwise fun first second =>
      normalization.nfkd first.relativeName ≠ normalization.nfkd second.relativeName := by
  have keysOf : keys = entries.map fun entry =>
      makeKey normalization parentId entry.relativeName := by
    induction leads with
    | nil => rfl
    | cons same _ ih => rw [List.map_cons, same, ← ih (List.pairwise_cons.mp ascending).2]
  rw [keysOf, List.pairwise_map] at ascending
  refine ascending.imp fun {first second} less same => ?_
  rw [makeKey, makeKey, same, Std.compare_self] at less
  cases less

/-- The rows that `list` reads in a folder. -/
def folderRows (fs : Table Bytes Bytes) (parentId : FileSystemId) : List (Bytes × Bytes) :=
  tableRange fs (beBytes 8 parentId.toNat) (beBytes 8 (parentId + 1).toNat)

section Folder

variable {parentId : FileSystemId}
  (forms : ∀ key value : Bytes, fs[key]? = some value → EntryForm normalization key value)
include forms

/-- The rows between an id and the next number are those whose keys start with the id. -/
theorem mem_folderRows_iff (next : parentId.toNat + 1 < 2 ^ 64) {key value : Bytes} :
    (key, value) ∈ folderRows fs parentId ↔
      fs[key]? = some value ∧ key.take 8 = beBytes 8 parentId.toNat := by
  have nextId : (parentId + 1).toNat = parentId.toNat + 1 := by
    rw [UInt64.toNat_add, UInt64.toNat_one, Nat.mod_eq_of_lt next]
  rw [folderRows, mem_tableRange_iff, nextId]
  refine and_congr_right fun found => mem_range_iff next ?_
  obtain ⟨_, _, _, rfl, _⟩ := forms key value found
  rw [List.length_append, length_beBytes]
  omega

/-- A row that is read in a folder has a key that starts with the id, and no row is read in one
whose id has no next number. -/
theorem of_mem_folderRows {key value : Bytes} (member : (key, value) ∈ folderRows fs parentId) :
    fs[key]? = some value ∧ key.take 8 = beBytes 8 parentId.toNat := by
  by_cases next : parentId.toNat + 1 < 2 ^ 64
  · exact (mem_folderRows_iff forms next).mp member
  · have last : parentId = 0xFFFFFFFFFFFFFFFF := by
      have range := parentId.toNat_lt
      refine UInt64.toNat_inj.mp ?_
      rw [show (0xFFFFFFFFFFFFFFFF : UInt64).toNat = 2 ^ 64 - 1 from rfl]
      omega
    rw [folderRows, mem_tableRange_iff, last] at member
    obtain ⟨found, _, before⟩ := member
    refine absurd before (not_isLT_zero ?_)
    obtain ⟨_, _, _, rfl, _⟩ := forms key value found
    rw [List.length_append, length_beBytes]
    omega

/-- **The rows between an id and the next number are the entries of the folder.** -/
theorem range_lists (next : parentId.toNat + 1 < 2 ^ 64) :
    ∃ keys entries, (folderRows fs parentId).mapM listEntry = .ok entries ∧
      ListsFolder normalization fs parentId keys entries := by
  have rounds : ∀ row ∈ folderRows fs parentId, ∃ entry, listEntry row = .ok entry ∧
      (∃ value, fs[row.1]? = some value ∧ listEntry (row.1, value) = .ok entry) ∧
        makeKey normalization parentId entry.relativeName = row.1 := by
    rintro ⟨key, value⟩ member
    obtain ⟨found, id⟩ := of_mem_folderRows forms member
    obtain ⟨entry, lists, rest⟩ := (forms key value found).lists
    exact ⟨entry, lists, ⟨value, found, lists⟩, makeKey_of_take id rest⟩
  obtain ⟨entries, ok, listed⟩ := mapM_ok rounds
  have ascending : ((folderRows fs parentId).map Prod.fst).Pairwise
      fun first second => compare first second = .lt :=
    List.pairwise_map.mpr (tableRange_ascending _ _)
  have leads : List.Forall₂ (fun key entry =>
      (∃ value, fs[key]? = some value ∧ listEntry (key, value) = .ok entry) ∧
        makeKey normalization parentId entry.relativeName = key)
      ((folderRows fs parentId).map Prod.fst) entries :=
    List.forall₂_map_left_iff.mpr listed
  refine ⟨_, entries, ok, ?_, ascending, leads, ?_⟩
  · intro key
    simp only [List.mem_map, Prod.exists, exists_and_right, exists_eq_right,
      mem_folderRows_iff forms next]
  · exact distinct_of_ascending ascending (leads.imp fun _ _ both => both.2)

end Folder

/-- What `list` returns when its walk arrives. -/
theorem run_list {env : Env} {world : World} {target : RequestedFileId} {parentId : FileSystemId}
    (walked : listWalk env.toNormalization world.db.fs target.path = .ok parentId) :
    ((list env ⟨some target⟩).run world).result =
      ((folderRows world.db.fs parentId).mapM listEntry).map fun entries => ⟨entries⟩ := by
  rw [list, run_orFail_some_bind, run_get_bind, walked, run_ofExcept_ok_bind, folderRows]
  dsimp only
  cases (tableRange world.db.fs (beBytes 8 parentId.toNat)
    (beBytes 8 (parentId + 1).toNat)).mapM listEntry <;> rfl

/-! ## Ids that have a next number -/

/-- **A walk arrives at an id that has a next number**, as long as not all ids are used up. -/
theorem LeadsTo.has_next {env : Env} {requests : List Request}
    (few : (serverAfter env requests).allocated < 2 ^ 64 - 1) {path : List Name}
    {inside : FileSystemId}
    (leads : LeadsTo (serverAfter env requests).world.db.fs path inside) :
    inside.toNat + 1 < 2 ^ 64 := by
  rcases List.eq_nil_or_concat' path with rfl | ⟨front, component, rfl⟩
  · rw [descends_nil_iff.mp leads]
    decide
  · obtain ⟨parent, _, entered⟩ := descends_append_singleton_iff.mp leads
    obtain ⟨record, there, _, rfl⟩ := folderAt_iff.mp entered
    have bound := serverAfter_record_id_le env requests few there
    by_contra last
    have largest : parentIdOfRecord record.id = 0xFFFFFFFFFFFFFFFF := by
      have range := (parentIdOfRecord record.id).toNat_lt
      refine UInt64.toNat_inj.mp ?_
      rw [show (0xFFFFFFFFFFFFFFFF : UInt64).toNat = 2 ^ 64 - 1 from rfl]
      omega
    have same : parentIdOfRecord 0xFFFFFFFFFFFFFFFF = 0xFFFFFFFFFFFFFFFF := by decide
    have id := parentIdOfRecord_injective (largest.trans same.symm)
    rw [id, show (0xFFFFFFFFFFFFFFFF : UInt64).toNat = 2 ^ 64 - 1 from rfl] at bound
    omega

/-- **`list` returns exactly the entries of the folder, and every listed name leads back to its
entry.** -/
theorem list_exact (env : Env) (requests : List Request)
    (few : (serverAfter env requests).allocated < 2 ^ 64 - 1) (target : RequestedFileId)
    {parentId : FileSystemId}
    (walked : listWalk env.toNormalization (serverAfter env requests).world.db.fs target.path =
      .ok parentId) :
    ∃ keys entries,
      ((list env ⟨some target⟩).run (serverAfter env requests).world).result = .ok ⟨entries⟩ ∧
        ListsFolder env.toNormalization (serverAfter env requests).world.db.fs parentId keys
          entries := by
  have leads := walkFolders_eq_ok_iff.mp walked
  obtain ⟨keys, entries, ok, lists⟩ := range_lists (serverAfter_represented env requests).entry
    (leads.has_next few)
  refine ⟨keys, entries, ?_, lists⟩
  rw [run_list walked, ok]
  rfl

/-- A folder with a file in it. -/
def makeListed : List Request :=
  [.makeDirectory ⟨some ⟨[['a']]⟩⟩,
    .upload { target := some ⟨[['a'], ['b']]⟩, data := { bytes := [62] } }]

/-- The server after both were made. -/
def listedServer : Server := serverAfter (.numbered .unchanged) makeListed

theorem list_exact_folder : ∃ keys entries,
    ((list (.numbered .unchanged) ⟨some ⟨[['a']], none⟩⟩).run listedServer.world).result =
        .ok ⟨entries⟩ ∧
      ListsFolder .unchanged listedServer.world.db.fs (parentIdOfRecord 1) keys entries :=
  list_exact (.numbered .unchanged) makeListed (by decide) ⟨[['a']], none⟩ (by decide)

end Yeetbox.Storage
