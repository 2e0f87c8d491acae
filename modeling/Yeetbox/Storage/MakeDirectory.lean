import Yeetbox.Storage.Request
import Yeetbox.Storage.Walk

/-!
# Making a folder

`make_directory` takes the id of a new folder from the sequence of `FS_TABLE`, but unlike
`get_next_id` it does not write the sequence back.
-/

set_option autoImplicit false

namespace Yeetbox.Storage

open Library Handler

variable (env : Env)

/-- The key that `make_directory` writes: the name is trimmed, then put in NFKD. -/
def makeDirectoryKey (normalization : Normalization) (parentId : FileSystemId)
    (folderName : Name) : Bytes :=
  beBytes 8 parentId.toNat ++ utf8 (normalization.nfkd (trim folderName))

def makeDirectory (req : MakeDirectoryArg) : Op Unit := do
  let target ← orFail (.invalidArgument "target is required") req.target
  let lastName ← orFail (.invalidArgument "target may not be empty") target.path.getLast?
  let folderName := trim lastName
  let world ← get
  let parentId ← ofExcept (makeDirectoryWalk world.db.fs target.path.dropLast)
  let w := world.db
  let key := makeDirectoryKey env.toNormalization parentId lastName
  rejectIf w.fs[key]?.isSome (.invalidArgument "object already exists with that name")
  -- The sequence is read here and not written: the transaction has no insert into `SEQ_TABLE`.
  let nextId := w.lastId fsTableName + 1
  let newDirRecord : FsRecordValue := { id := nextId, type := objTypeFolder }
  let newValue := newDirRecord.bytesOf ++ utf8 folderName
  let maybeExistingValue := w.fs[key]?
  let w := { w with fs := w.fs.insert key newValue }
  rejectIf maybeExistingValue.isSome (.internal "replaced existing folder")
  commit w

/-- The record of the folder that `make_directory` creates. -/
def newFolderRecord (db : Db) : FsRecordValue :=
  { id := db.lastId fsTableName + 1, type := objTypeFolder }

/-- The database after a folder was created. -/
def withNewFolder (db : Db) (key : Bytes) (folderName : Name) : Db :=
  { db with fs := db.fs.insert key ((newFolderRecord db).bytesOf ++ utf8 folderName) }

/-- The checks of `make_directory` pass: its walk arrives, and the key of the folder is free. -/
def CreatesFolder (world : World) (req : MakeDirectoryArg) : Prop :=
  ∃ target lastName parentId, req.target = some target ∧ target.path.getLast? = some lastName ∧
    makeDirectoryWalk world.db.fs target.path.dropLast = .ok parentId ∧
    world.db.fs[makeDirectoryKey env.toNormalization parentId lastName]? = none

/-- What `make_directory` can do: refuse and leave the world alone, or create one folder under a
key that was free. -/
inductive MakeDirectoryCases (world : World) (req : MakeDirectoryArg) :
    Outcome World Status Unit → Prop where
  | refused (err : Status) (notCreated : ¬ CreatesFolder env world req) :
      MakeDirectoryCases world req ⟨.error err, world, []⟩
  | created (target : FileId) (lastName : Name) (parentId : FileSystemId) (later : World)
      (targeted : req.target = some target) (named : target.path.getLast? = some lastName)
      (walked : makeDirectoryWalk world.db.fs target.path.dropLast = .ok parentId)
      (free : world.db.fs[makeDirectoryKey env.toNormalization parentId lastName]? = none)
      (result : later = world.withDb (withNewFolder world.db
        (makeDirectoryKey env.toNormalization parentId lastName) (trim lastName))) :
      MakeDirectoryCases world req ⟨.ok (), later, [later]⟩

theorem makeDirectory_cases (world : World) (req : MakeDirectoryArg) :
    MakeDirectoryCases env world req ((makeDirectory env req).run world) := by
  rw [makeDirectory]
  rcases targeted : req.target with _ | target
  · refine .refused _ ?_
    rintro ⟨target, _, _, same, _⟩
    rw [targeted] at same
    cases same
  rw [run_orFail_some_bind]
  rcases named : target.path.getLast? with _ | lastName
  · refine .refused _ ?_
    rintro ⟨_, lastName, _, same, last, _⟩
    rw [targeted, Option.some_inj] at same
    rw [← same, named] at last
    cases last
  rw [run_orFail_some_bind, run_get_bind]
  rcases walked : makeDirectoryWalk world.db.fs target.path.dropLast with err | parentId
  · refine .refused _ ?_
    rintro ⟨_, _, parentId, same, _, walk, _⟩
    rw [targeted, Option.some_inj] at same
    rw [← same, walked] at walk
    cases walk
  rw [run_ofExcept_ok_bind]
  dsimp only
  rcases free : world.db.fs[makeDirectoryKey env.toNormalization parentId lastName]? with _ | value
  · exact .created target lastName parentId _ targeted named walked free rfl
  · refine .refused _ ?_
    rintro ⟨_, _, _, same, last, walk, absent⟩
    rw [targeted, Option.some_inj] at same
    subst same
    rw [named, Option.some_inj] at last
    rw [walked, Except.ok.injEq] at walk
    rw [← last, ← walk, free] at absent
    cases absent

end Yeetbox.Storage
