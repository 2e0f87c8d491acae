import Yeetbox.Storage.Entries

/-!
# Folder ids in records and in keys

A folder has its id in its record, in the byte order of the machine, and the entries in it have its
id at the front of their keys, in big-endian order. The walks read the id of a record in big-endian
order. What they decode, and what then stands in the keys of the entries under the folder, is the id
of the record exactly when its bytes are the same in both orders (`folder_id_kept_iff`).
-/

set_option autoImplicit false

namespace Yeetbox.Storage

open Library

/-! ## Where a request puts an entry -/

/-- The path to the folder that a request puts an entry in, as its walk spells the components. -/
def Request.into (normalization : Normalization) : Request → Option (List Name)
  | .makeDirectory arg => arg.target.map fun target => target.path.dropLast
  | .upload arg => arg.target.map fun target => target.path.dropLast
  | .move arg => some (arg.destination.dropLast.map normalization.nfkd)
  | .copy arg => some (arg.destination.dropLast.map normalization.nfkd)
  | _ => none

variable {env : Env} {server : Server}

/-- A request creates, moves or copies an entry to a key: it is there afterwards, and it was not
there with its value before. -/
def PutsAt (env : Env) (server : Server) (req : Request) (key : Bytes) : Prop :=
  ∃ value, (serve env server req).world.db.fs[key]? = some value ∧
    server.world.db.fs[key]? ≠ some value

/-- A request puts an entry at a key under the folder at another. -/
structure PutsUnder (env : Env) (server : Server) (req : Request) (folder key : Bytes) : Prop where
  puts : PutsAt env server req key
  into : ∃ front component parentId,
    req.into env.toNormalization = some (front ++ [component]) ∧
      LeadsTo server.world.db.fs front parentId ∧ folder = entryKey parentId component

/-- An insertion changes the value at its own key only. -/
theorem changed_by_insert {fs : Table Bytes Bytes} {added key content value : Bytes}
    (there : (fs.insert added content)[key]? = some value) (changed : fs[key]? ≠ some value) :
    key = added := by
  rcases Table.of_get_insert there with ⟨same, _⟩ | before
  · exact same
  · exact absurd before changed

/-- A request that allocates no id and moves nothing puts no entry anywhere. -/
theorem Commits.puts_nothing {req : Request} {later : Server}
    (commits : Commits env server req later) (allocated : later.allocated = server.allocated)
    (notMove : ∀ arg, req ≠ .move arg) {key value : Bytes}
    (there : later.world.db.fs[key]? = some value) : server.world.db.fs[key]? = some value := by
  cases commits with
  | nothing db => rwa [db] at there
  | folder _ _ _ _ _ _ counted _ => omega
  | file _ _ _ _ _ _ _ _ _ _ _ counted _ => omega
  | removed _ _ _ _ _ _ _ _ db =>
      rw [db] at there
      exact Table.of_get_erase there
  | moved arg _ _ _ _ _ asked _ _ _ _ => exact absurd asked (notMove arg)
  | copied _ _ _ _ _ counted _ => omega

/-- A key is under the folder that the walk of a request arrives at. -/
def Placed (normalization : Normalization) (fs : Table Bytes Bytes) (req : Request)
    (key : Bytes) : Prop :=
  ∃ spelled parentId name, req.into normalization = some spelled ∧ LeadsTo fs spelled parentId ∧
    key = makeKey normalization parentId name

section Placed

variable {world : World} {key value : Bytes} (changed : world.db.fs[key]? ≠ some value)
include changed

theorem makeDirectory_placed {arg : MakeDirectoryArg}
    (there : ((makeDirectory env arg).run world).state.db.fs[key]? = some value) :
    Placed env.toNormalization world.db.fs (.makeDirectory arg) key := by
  have outcome := makeDirectory_cases env world arg
  generalize (makeDirectory env arg).run world = done at outcome there
  cases outcome with
  | refused => exact absurd there changed
  | created target lastName parentId later targeted named walked free result =>
      rw [result] at there
      have leads := walkFolders_eq_ok_iff.mp walked
      rw [List.map_id] at leads
      refine ⟨target.path.dropLast, parentId, trim lastName, ?_, leads,
        changed_by_insert there changed⟩
      rw [Request.into, targeted]
      rfl

theorem upload_placed {arg : UploadArg}
    (there : ((upload env arg).run world).state.db.fs[key]? = some value) :
    Placed env.toNormalization world.db.fs (.upload arg) key := by
  rcases upload_db_or_done env world arg with same | ⟨result, done⟩
  · rw [same] at there
    exact absurd there changed
  generalize ((upload env arg).run world).state = later at done there
  cases done with
  | fragment ulid drawn token incomplete =>
      have same : (withReceived env drawn arg ulid).db = world.db := token.db
      rw [same] at there
      exact absurd there changed
  | committed target lastName ulid drawn parentId saved moved stops targeted named token complete
      walked free save =>
      have leads := walkFolders_eq_ok_iff.mp walked
      rw [List.map_id] at leads
      refine ⟨target.path.dropLast, parentId, trim lastName, ?_, leads,
        changed_by_insert there changed⟩
      rw [Request.into, targeted]
      rfl

theorem move_placed {arg : MoveArg}
    (there : ((move env arg).run world).state.db.fs[key]? = some value) :
    Placed env.toNormalization world.db.fs (.move arg) key := by
  have outcome := move_cases env world arg
  generalize (move env arg).run world = done at outcome there
  cases outcome with
  | refused => exact absurd there changed
  | moved target source content record parentId name later targeted resolved named walked found
      decoded free result =>
      rw [result, World.withDb_db] at there
      exact ⟨_, parentId, name, rfl, walkFolders_eq_ok_iff.mp walked,
        changed_by_insert there fun before => changed (Table.of_get_erase before)⟩

theorem copy_placed {arg : CopyArg}
    (there : ((copy env arg).run world).state.db.fs[key]? = some value) :
    Placed env.toNormalization world.db.fs (.copy arg) key := by
  have outcome := copy_cases env world arg
  generalize (copy env arg).run world = done at outcome there
  cases outcome with
  | refused => exact absurd there changed
  | stopped err copied stops count blob =>
      rw [World.advance_db, blob.db] at there
      exact absurd there changed
  | created parentId name copied later stops named walked free blob result =>
      rw [result, World.withDb_db] at there
      exact ⟨_, parentId, name, rfl, walkFolders_eq_ok_iff.mp walked,
        changed_by_insert there changed⟩

end Placed

/-- **A request puts an entry under the folder that its walk arrives at.** -/
theorem PutsAt.placed {req : Request} {key : Bytes} (puts : PutsAt env server req key) :
    Placed env.toNormalization server.world.db.fs req key := by
  obtain ⟨value, there, changed⟩ := puts
  have commits : Commits env server req (serve env server req) := serve_commits server req
  cases req with
  | makeDirectory arg => exact makeDirectory_placed changed there
  | upload arg => exact upload_placed changed there
  | append arg =>
      exact absurd (commits.puts_nothing rfl (fun _ same => by cases same) there) changed
  | download arg =>
      exact absurd (commits.puts_nothing rfl (fun _ same => by cases same) there) changed
  | delete arg =>
      exact absurd (commits.puts_nothing rfl (fun _ same => by cases same) there) changed
  | list arg => exact absurd (commits.puts_nothing rfl (fun _ same => by cases same) there) changed
  | move arg => exact move_placed changed there
  | copy arg => exact copy_placed changed there

/-! ## What stands for a folder -/

/-- The number in the first eight bytes of a key. -/
def keyNumber (key : Bytes) : ℕ := ofBeBytes (key.take 8)

/-- The number in a key is the id of the parent that it was made with. -/
theorem keyNumber_makeKey (normalization : Normalization) (parentId : FileSystemId) (name : Name) :
    keyNumber (makeKey normalization parentId name) = parentId.toNat := by
  rw [keyNumber, makeKey, entryKey, List.take_left' (length_beBytes 8 _),
    ofBeBytes_beBytes parentId.toNat_lt]

/-- The walks of the source, by how they spell a component and what they say of something that is
no folder. -/
inductive IsWalk (normalization : Normalization) : (Name → Name) → String → Prop where
  | descendPath : IsWalk normalization normalization.nfkd "path contained a non-folder"
  | makeDirectory : IsWalk normalization id "cannot place under non-folder"
  | upload : IsWalk normalization id "cannot place under non-folder"
  | list : IsWalk normalization normalization.nfkc "cannot list under non-folder"

/-- An id stands for the folder at a key: every walk that enters the folder decodes it, and it is
the number in the key of every entry that is put under the folder. -/
structure StandsFor (env : Env) (server : Server) (folder : Bytes) (id : FileSystemId) : Prop where
  decoded : ∀ spell notFolder, IsWalk env.toNormalization spell notFolder →
    ∀ parentId component, entryKey parentId (spell component) = folder →
      walkStep spell notFolder server.world.db.fs parentId component = .ok id
  keyed : ∀ req key, PutsUnder env server req folder key → keyNumber key = id.toNat

/-- The bytes of an id are the same in both orders. -/
def SameReversed (id : FileSystemId) : Prop := (leBytes 8 id.toNat).reverse = leBytes 8 id.toNat

instance (id : FileSystemId) : Decidable (SameReversed id) := inferInstanceAs (Decidable (_ = _))

/-- An id is read as itself exactly when its bytes are the same in both orders. -/
theorem parentIdOfRecord_eq_self_iff {id : FileSystemId} :
    parentIdOfRecord id = id ↔ SameReversed id := by
  have bound : ofBeBytes (leBytes 8 id.toNat) < 2 ^ 64 := by
    simpa using ofBeBytes_lt (leBytes 8 id.toNat)
  rw [← UInt64.toNat_inj, parentIdOfRecord, UInt64.toNat_ofNat_of_lt' bound, SameReversed]
  constructor
  · intro same
    have read : ofBeBytes (beBytes 8 id.toNat) = id.toNat := ofBeBytes_beBytes id.toNat_lt
    have numbers := same.trans read.symm
    exact (eq_of_ofBeBytes_eq (by simp) numbers).symm
  · intro same
    rw [← same]
    exact ofBeBytes_beBytes id.toNat_lt

/-- What stands for a folder is the id that is read from its record. -/
theorem standsFor_parentId {folder : Bytes} {record : FsRecordValue}
    (there : RecordAt server.world.db.fs folder record) (type : record.type = objTypeFolder) :
    StandsFor env server folder (parentIdOfRecord record.id) where
  decoded := by
    rintro spell notFolder - parentId component rfl
    exact walkStep_eq_ok_iff.mpr (folderAt_iff.mpr ⟨record, there, type, rfl⟩)
  keyed := by
    rintro req key ⟨puts, front, component, parentId, into, leads, rfl⟩
    obtain ⟨spelled, inside, name, into', arrives, rfl⟩ := puts.placed
    rw [into, Option.some_inj] at into'
    have enters : LeadsTo server.world.db.fs spelled (parentIdOfRecord record.id) :=
      into' ▸ descends_append_singleton_iff.mpr
        ⟨parentId, leads, folderAt_iff.mpr ⟨record, there, type, rfl⟩⟩
    rw [keyNumber_makeKey, arrives.unique enters]

/-- **The id of a folder stands for it exactly when its bytes are the same in both orders.** -/
theorem folder_id_kept_iff (env : Env) (requests : List Request) {folder : Bytes}
    {record : FsRecordValue}
    (there : RecordAt (serverAfter env requests).world.db.fs folder record)
    (type : record.type = objTypeFolder) :
    StandsFor env (serverAfter env requests) folder record.id ↔ SameReversed record.id := by
  have reads := @standsFor_parentId env _ _ _ there type
  rw [← parentIdOfRecord_eq_self_iff]
  constructor
  · intro stands
    obtain ⟨value, found, _⟩ := there
    obtain ⟨parentId, name, _, _, rfl, _⟩ := serverAfter_canonical env requests _ _ found
    have one := reads.decoded _ _ .descendPath parentId name rfl
    have other := stands.decoded _ _ .descendPath parentId name rfl
    exact Except.ok.inj (one.symm.trans other)
  · intro same
    rwa [same] at reads

/-! ## The first folder -/

/-- The request that makes the first folder. -/
def makeFirstFolder : Request := .makeDirectory ⟨some ⟨[['a']]⟩⟩

/-- A request that makes a folder in it. -/
def makeInnerFolder : Request := .makeDirectory ⟨some ⟨[['a'], ['b']]⟩⟩

/-- The server after the first folder was made. -/
def firstFolderServer : Server := serverAfter (.numbered .unchanged) [makeFirstFolder]

/-- The record of the first folder. -/
def firstFolderRecord : FsRecordValue := newFolderRecord {}

theorem firstFolder_there : RecordAt firstFolderServer.world.db.fs (makeKey .unchanged 0 ['a'])
    firstFolderRecord :=
  ⟨_, rfl, by decide⟩

/-- **The entry in the first folder, whose id is 1, has another number in its key.** -/
theorem first_folder_id : firstFolderRecord.id = 1 ∧
    (serve (.numbered .unchanged) firstFolderServer makeInnerFolder).world.db.fs[
      makeKey .unchanged (parentIdOfRecord 1) ['b']]?.isSome ∧
    keyNumber (makeKey .unchanged (parentIdOfRecord 1) ['b']) = 2 ^ 56 ∧
    ¬ StandsFor (.numbered .unchanged) firstFolderServer (makeKey .unchanged 0 ['a'])
      firstFolderRecord.id := by
  refine ⟨rfl, by decide, by decide, fun stands => ?_⟩
  have step := stands.decoded _ _ .upload 0 ['a'] rfl
  exact absurd step (by decide)

theorem first_folder_not_kept :
    ¬ StandsFor (.numbered .unchanged) firstFolderServer (makeKey .unchanged 0 ['a'])
      firstFolderRecord.id :=
  fun stands => absurd ((folder_id_kept_iff _ [makeFirstFolder] firstFolder_there rfl).mp stands)
    (by decide)

end Yeetbox.Storage
