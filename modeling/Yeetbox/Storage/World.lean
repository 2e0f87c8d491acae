import Yeetbox.Library.Handler
import Yeetbox.Library.Table
import Yeetbox.Storage.Blob

/-!
# The server's world

What outlives a request is the committed database and the blob directory (`World`). The
database is three tables; a write transaction works on a copy of them that takes effect only
when it is committed. The blob directory is outside the transaction: every change of a file
takes effect at once.

The normal forms of names, fresh ULIDs, clock readings and the number of bytes that a file read
or write transfers come from outside the program. `Env` answers the calls in the order they are
made, and the world counts them. `Ulid::new()` is fresh during a run when no two of the calls made
up to its end draw the same ULID (`Env.FreshBelow`).
-/

set_option autoImplicit false

namespace Yeetbox.Storage

open Library

/-! ## Errors -/

/-- A `tonic::Status` that a handler ends with, or the panic that ends its task. -/
inductive Status where
  | invalidArgument (message : String)
  | internal (message : String)
  /-- An `std::io::Error` of kind `NotFound`, converted by `?`. -/
  | notFound
  | panic
  /-- `from_utf8_unchecked` on bytes that are not UTF-8: nothing is promised from there on. -/
  | undefinedBehaviour
  deriving DecidableEq

/-! ## What comes from outside -/

/-- At most `isize::MAX` bytes fit in a Rust vector. -/
def maxVecLen : ℕ := 2 ^ 63 - 1

/-- The contents of a `Vec<u8>` of a request. -/
structure Payload where
  bytes : Bytes
  bound : bytes.length ≤ maxVecLen := by decide

/-- The normal forms, and the answers to the calls that leave the program in the order they are
made. A file write transfers some prefix of the buffer, and a file read some prefix of the bytes
available; the prefix is not empty unless nothing can be transferred. What a call does to a file is
done when it returns. -/
structure Env extends Normalization where
  newUlid : ℕ → Ulid
  clock : ℕ → ClockReading
  write : ℕ → ℕ → ℕ
  read : ℕ → ℕ → ℕ
  write_le : ∀ call size, write call size ≤ size
  write_pos : ∀ call size, 0 < size → 0 < write call size
  read_le : ∀ call size, read call size ≤ size
  read_pos : ∀ call size, 0 < size → 0 < read call size

/-- Every `Ulid::new()` is fresh: among the first calls no ULID is drawn twice. -/
def Env.FreshBelow (env : Env) (horizon : ℕ) : Prop :=
  ∀ ⦃first second : ℕ⦄, first < horizon → second < horizon →
    env.newUlid first = env.newUlid second → first = second

/-- Every read and write transfers all bytes. -/
structure Env.TransfersAll (env : Env) : Prop where
  write : ∀ call size, env.write call size = size
  read : ∀ call size, env.read call size = size

/-- An environment that numbers its ULIDs, whose clock stands still, and in which every read and
write transfers all bytes. -/
def Env.numbered (normalization : Normalization) : Env where
  toNormalization := normalization
  newUlid call := .ofNat 128 call
  clock _ := { secs := 1, subsecNanos := 0, subsec := by decide }
  write _ size := size
  read _ size := size
  write_le _ size := Nat.le_refl size
  write_pos _ _ positive := positive
  read_le _ size := Nat.le_refl size
  read_pos _ _ positive := positive

theorem Env.numbered_transfersAll (normalization : Normalization) :
    (Env.numbered normalization).TransfersAll :=
  ⟨fun _ _ => rfl, fun _ _ => rfl⟩

theorem Env.numbered_freshBelow (normalization : Normalization) {horizon : ℕ}
    (bounded : horizon ≤ 2 ^ 128) : (Env.numbered normalization).FreshBelow horizon := by
  intro first second firstBelow secondBelow same
  have numbers := congrArg BitVec.toNat same
  simp only [Env.numbered, BitVec.toNat_ofNat] at numbers
  rwa [Nat.mod_eq_of_lt (by omega), Nat.mod_eq_of_lt (by omega)] at numbers

/-! ## Tables and files -/

/-- The tables of the database. `VER_TABLE` does not exist before a transaction that opened it
was committed. -/
structure Db where
  fs : Table Bytes Bytes := ∅
  seq : Table Name UInt64 := ∅
  ver : Table Bytes Bytes := ∅
  verCreated : Bool := false

/-- The committed database, the blob directory, and the number of calls made to the outside. -/
structure World where
  db : Db := {}
  blobs : Table Bytes Bytes := ∅
  calls : ℕ := 0

/-- The world after `DatabaseStorage::new` on an empty directory. -/
def World.empty : World := {}

theorem World.empty_entry (key value : Bytes) : World.empty.db.fs[key]? ≠ some value :=
  Table.get_empty_ne_some key value

theorem World.empty_row (key row : Bytes) : World.empty.db.ver[key]? ≠ some row :=
  Table.get_empty_ne_some key row

theorem World.empty_blob (path content : Bytes) : World.empty.blobs[path]? ≠ some content :=
  Table.get_empty_ne_some path content

/-- The world with another committed database. -/
def World.withDb (world : World) (db : Db) : World := { world with db := db }

@[simp] theorem World.withDb_db (world : World) (db : Db) : (world.withDb db).db = db := rfl
@[simp] theorem World.withDb_blobs (world : World) (db : Db) :
    (world.withDb db).blobs = world.blobs := rfl
@[simp] theorem World.withDb_calls (world : World) (db : Db) :
    (world.withDb db).calls = world.calls := rfl

/-- The world with another blob directory. -/
def World.withBlobs (world : World) (blobs : Table Bytes Bytes) : World :=
  { world with blobs := blobs }

@[simp] theorem World.withBlobs_db (world : World) (blobs : Table Bytes Bytes) :
    (world.withBlobs blobs).db = world.db := rfl
@[simp] theorem World.withBlobs_blobs (world : World) (blobs : Table Bytes Bytes) :
    (world.withBlobs blobs).blobs = blobs := rfl
@[simp] theorem World.withBlobs_calls (world : World) (blobs : Table Bytes Bytes) :
    (world.withBlobs blobs).calls = world.calls := rfl

/-- The world after some more calls to the outside. -/
def World.advance (world : World) (count : ℕ) : World :=
  { world with calls := world.calls + count }

@[simp] theorem World.advance_db (world : World) (count : ℕ) :
    (world.advance count).db = world.db := rfl
@[simp] theorem World.advance_blobs (world : World) (count : ℕ) :
    (world.advance count).blobs = world.blobs := rfl
@[simp] theorem World.advance_calls (world : World) (count : ℕ) :
    (world.advance count).calls = world.calls + count := rfl

@[simp] theorem World.advance_advance (world : World) (first second : ℕ) :
    (world.advance first).advance second = world.advance (first + second) := by
  rw [advance, advance, advance, Nat.add_assoc]

/-- A request handler of the storage. -/
abbrev Op := Handler World Status

/-! ## The calls a handler makes -/

section Calls

variable (env : Env)

/-- `Ulid::new()`. -/
def newUlid : Op Ulid := Handler.draw (fun world => env.newUlid world.calls) (World.advance · 1)

/-- `Time64::now()`. -/
def timeNow : Op Time64 :=
  Handler.draw (fun world => .now (env.clock world.calls)) (World.advance · 1)

/-- `WriteTransaction::commit`. -/
def commit (db : Db) : Op Unit := Handler.effect fun world => world.withDb db

/-- The blob directory with a file created, unless it is there. -/
def createIn (blobs : Table Bytes Bytes) (path : Bytes) : Table Bytes Bytes :=
  blobs.insert path (blobs[path]?.getD [])

/-- The blob directory with bytes added at the end of a file. -/
def extendIn (blobs : Table Bytes Bytes) (path data : Bytes) : Table Bytes Bytes :=
  blobs.insert path (blobs[path]?.getD [] ++ data)

/-- Open for appending, with `create(true)`. -/
def openCreate (path : Bytes) : Op Unit :=
  Handler.effect fun world => world.withBlobs (createIn world.blobs path)

/-- Open a file that must exist. -/
def openExisting (path : Bytes) : Op Bytes := do
  let world ← Handler.get
  Handler.orFail .notFound world.blobs[path]?

/-- `AsyncWriteExt::write` on a file opened for appending. The count of bytes that it returns
is used by no caller. The bytes that it counts are taken to be in the file when the call returns:
`tokio::fs::File` only hands them to another thread, and `upload` and `append` drop the file without
`flush`, so this is assumed of the environment wherever a result speaks of what was written. -/
def write (path data : Bytes) : Op Unit :=
  Handler.effect fun world =>
    (world.advance 1).withBlobs
      (extendIn world.blobs path (data.take (env.write world.calls data.length)))

/-- `File::metadata().size()`. -/
def fileSize (path : Bytes) : Op UInt64 := do
  let world ← Handler.get
  pure (.ofNat (world.blobs[path]?.getD []).length)

/-- `AsyncSeekExt::seek` from the start; `lseek` refuses offsets that are negative as `i64`. -/
def seek (offset : UInt64) : Op Unit :=
  Handler.rejectIf (decide (2 ^ 63 ≤ offset.toNat))
    (.invalidArgument "Invalid argument (os error 22)")

/-- `AsyncReadExt::read` into a buffer of `size` bytes. -/
def read (size : ℕ) (rest : Bytes) : Op Bytes :=
  Handler.draw (fun world => rest.take (env.read world.calls (min size rest.length)))
    (World.advance · 1)

/-- `tokio::fs::rename`. -/
def rename (source target : Bytes) : Op Unit := do
  let content ← openExisting source
  Handler.effect fun world => world.withBlobs ((world.blobs.erase source).insert target content)

/-- `tokio::fs::remove_file`. -/
def removeFile (path : Bytes) : Op Unit := do
  let _ ← openExisting path
  Handler.effect fun world => world.withBlobs (world.blobs.erase path)

/-- `tokio::fs::copy`. -/
def copyFile (source target : Bytes) : Op Unit := do
  let content ← openExisting source
  Handler.effect fun world => world.withBlobs (world.blobs.insert target content)

end Calls

/-! ## The blob directory after a file was opened for appending -/

theorem get_createIn (blobs : Table Bytes Bytes) (path other : Bytes) :
    (createIn blobs path)[other]? =
      if other = path then some (blobs[path]?.getD []) else blobs[other]? :=
  Table.get_insert blobs path other _

theorem get_extendIn (blobs : Table Bytes Bytes) (path other data : Bytes) :
    (extendIn blobs path data)[other]? =
      if other = path then some (blobs[path]?.getD [] ++ data) else blobs[other]? :=
  Table.get_insert blobs path other _

/-- Creating a file before bytes are added to it makes no difference. -/
theorem extendIn_createIn (blobs : Table Bytes Bytes) (path data : Bytes) :
    extendIn (createIn blobs path) path data = extendIn blobs path data := by
  refine Table.ext fun other => ?_
  rw [get_extendIn, get_extendIn, get_createIn, get_createIn, if_pos rfl, Option.getD_some]
  split <;> rfl

/-- Adding no bytes to a file that is there changes nothing. -/
theorem extendIn_nil {blobs : Table Bytes Bytes} {path content : Bytes}
    (found : blobs[path]? = some content) : extendIn blobs path [] = blobs := by
  rw [extendIn, found, Option.getD_some, List.append_nil, Table.insert_of_get found]

/-- Adding bytes changes nothing exactly when there are none and the file is there. -/
theorem extendIn_eq_self_iff {blobs : Table Bytes Bytes} {path data : Bytes} :
    extendIn blobs path data = blobs ↔ data = [] ∧ ∃ content, blobs[path]? = some content := by
  constructor
  · intro same
    have here := get_extendIn blobs path path data
    rw [same, if_pos rfl] at here
    obtain ⟨content, there⟩ : ∃ content, blobs[path]? = some content := ⟨_, here⟩
    rw [there, Option.getD_some, Option.some_inj, List.self_eq_append_right] at here
    exact ⟨here, content, there⟩
  · rintro ⟨rfl, content, there⟩
    exact extendIn_nil there

/-- A write of some data transfers some of it. -/
theorem Env.take_write_eq_nil_iff (env : Env) {call : ℕ} {data : Bytes} :
    data.take (env.write call data.length) = [] ↔ data = [] := by
  rw [List.take_eq_nil_iff]
  constructor
  · rintro (none | empty)
    · by_contra nonempty
      have positive := env.write_pos call _ (List.length_pos_iff.mpr nonempty)
      omega
    · exact empty
  · exact .inr

/-! ## Running a call on a file that is there, and on one that is not -/

section Files

variable {Next : Type} {world : World} {path content : Bytes}

theorem run_openExisting_bind_found (found : world.blobs[path]? = some content)
    (next : Bytes → Op Next) :
    (openExisting path >>= next).run world = (next content).run world := by
  rw [openExisting, Handler.run_bind, Handler.run_get_bind, found]
  rfl

theorem run_openExisting_bind_missing (missing : world.blobs[path]? = none)
    (next : Bytes → Op Next) :
    (openExisting path >>= next).run world = ⟨.error .notFound, world, []⟩ := by
  rw [openExisting, Handler.run_bind, Handler.run_get_bind, missing]
  rfl

theorem run_rename_bind_found (found : world.blobs[path]? = some content) (target : Bytes)
    (next : Unit → Op Next) {moved : World}
    (result : moved = world.withBlobs ((world.blobs.erase path).insert target content)) :
    (rename path target >>= next).run world = ((next ()).run moved).after [moved] := by
  rw [rename, Handler.run_bind, run_openExisting_bind_found found, result]
  rfl

theorem run_rename_bind_missing (missing : world.blobs[path]? = none) (target : Bytes)
    (next : Unit → Op Next) :
    (rename path target >>= next).run world = ⟨.error .notFound, world, []⟩ := by
  rw [rename, Handler.run_bind, run_openExisting_bind_missing missing]
  rfl

theorem run_removeFile_bind_found (found : world.blobs[path]? = some content)
    (next : Unit → Op Next) {removed : World}
    (result : removed = world.withBlobs (world.blobs.erase path)) :
    (removeFile path >>= next).run world = ((next ()).run removed).after [removed] := by
  rw [removeFile, Handler.run_bind, run_openExisting_bind_found found, result]
  rfl

theorem run_removeFile_bind_missing (missing : world.blobs[path]? = none)
    (next : Unit → Op Next) :
    (removeFile path >>= next).run world = ⟨.error .notFound, world, []⟩ := by
  rw [removeFile, Handler.run_bind, run_openExisting_bind_missing missing]
  rfl

theorem run_copyFile_bind_found (found : world.blobs[path]? = some content) (target : Bytes)
    (next : Unit → Op Next) {copied : World}
    (result : copied = world.withBlobs (world.blobs.insert target content)) :
    (copyFile path target >>= next).run world = ((next ()).run copied).after [copied] := by
  rw [copyFile, Handler.run_bind, run_openExisting_bind_found found, result]
  rfl

theorem run_copyFile_bind_missing (missing : world.blobs[path]? = none) (target : Bytes)
    (next : Unit → Op Next) :
    (copyFile path target >>= next).run world = ⟨.error .notFound, world, []⟩ := by
  rw [copyFile, Handler.run_bind, run_openExisting_bind_missing missing]
  rfl

end Files

/-- `str::from_utf8_unchecked`; a string is its bytes. -/
def fromUtf8Unchecked (bytes : Bytes) : Op Bytes := do
  Handler.rejectIf (ofUtf8 bytes).isNone .undefinedBehaviour
  pure bytes

/-- Bytes that are used as a string either are one or leave nothing to rely on. -/
theorem run_fromUtf8Unchecked_bind {Next : Type} (bytes : Bytes) (next : Bytes → Op Next)
    (world : World) :
    (fromUtf8Unchecked bytes >>= next).run world =
        ⟨.error .undefinedBehaviour, world, []⟩ ∨
      (fromUtf8Unchecked bytes >>= next).run world = (next bytes).run world := by
  rw [fromUtf8Unchecked, Handler.run_bind_assoc]
  rcases (ofUtf8 bytes).isNone with _ | _
  · exact .inr rfl
  · exact .inl rfl

theorem run_fromUtf8Unchecked_bind_utf8 {Next : Type} (text : Name) (next : Bytes → Op Next)
    (world : World) :
    (fromUtf8Unchecked (utf8 text) >>= next).run world = (next (utf8 text)).run world := by
  rw [fromUtf8Unchecked, ofUtf8_utf8, Option.isNone_some]
  rfl

/-! ## Calls that follow a relation -/

section Follows

variable {step : World → World → Prop}

theorem openExisting_follows (path : Bytes) :
    Handler.Follows step (fun _ => True) (openExisting path) :=
  .bind (.get fun _ => trivial) fun _ _ => .orFail _ fun _ _ => trivial

theorem removeFile_follows {path : Bytes} (steps : ∀ world : World,
    Relation.ReflTransGen step world (world.withBlobs (world.blobs.erase path))) :
    Handler.Follows step (fun _ => True) (removeFile path) :=
  .bind (openExisting_follows path) fun _ _ => .effect steps

theorem fromUtf8Unchecked_follows (bytes : Bytes) :
    Handler.Follows step (· = bytes) (fromUtf8Unchecked bytes) :=
  .bind (.rejectIf _ _) fun _ _ => .pure rfl

end Follows

/-! ## Calls that do not look at the database -/

section Commutes

variable (env : Env) (db : Db)

theorem openExisting_commutes (path : Bytes) :
    Handler.Commutes (World.withDb · db) (openExisting path) := by
  refine ⟨fun world => ?_, fun world => ?_⟩ <;>
  · rw [openExisting, Handler.run_get_bind, Handler.run_get_bind, World.withDb_blobs]
    rcases world.blobs[path]? with _ | content <;> rfl

theorem fromUtf8Unchecked_commutes (bytes : Bytes) :
    Handler.Commutes (World.withDb · db) (fromUtf8Unchecked bytes) :=
  .bind (.rejectIf _ _) fun _ => .pure _

theorem write_commutes (path data : Bytes) :
    Handler.Commutes (World.withDb · db) (write env path data) :=
  .effect fun _ => rfl

theorem read_commutes (size : ℕ) (rest : Bytes) :
    Handler.Commutes (World.withDb · db) (read env size rest) :=
  .draw (fun _ => rfl) fun _ => rfl

theorem timeNow_commutes : Handler.Commutes (World.withDb · db) (timeNow env) :=
  .draw (fun _ => rfl) fun _ => rfl

theorem fileSize_commutes (path : Bytes) :
    Handler.Commutes (World.withDb · db) (fileSize path) :=
  ⟨fun _ => rfl, fun _ => rfl⟩

end Commutes

/-! ## Sequences -/

/-- `FS_TABLE_NAME`, also the key of its sequence in `SEQ_TABLE`. -/
def fsTableName : Name := ['f', 's', '_', 't', 'a', 'b', 'l', 'e']

/-- The last id that a sequence gave out. -/
def Db.lastId (db : Db) (tableName : Name) : FileSystemId := db.seq[tableName]?.getD 0

/-- `get_next_id`: the next id, and the transaction's tables after it was taken. -/
def getNextId (db : Db) (tableName : Name) : FileSystemId × Db :=
  let lastId := db.lastId tableName
  (lastId + 1, { db with seq := db.seq.insert tableName (lastId + 1) })

end Yeetbox.Storage
