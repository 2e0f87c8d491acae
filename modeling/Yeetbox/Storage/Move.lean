import Yeetbox.Storage.Request
import Yeetbox.Storage.Walk

/-!
# Moving

`move` removes the entry of the source and inserts its record again under the destination, with
the destination's name. Both walks are made before the removal. The insertion refuses a key that
is taken.
-/

set_option autoImplicit false

namespace Yeetbox.Storage

open Library Handler

variable (env : Env)

/-- The key under which `move` looks for the source. -/
def moveSourceKey (normalization : Normalization) (parentId : FileSystemId) (fileName : Name) :
    Bytes :=
  makeKey normalization parentId fileName

/-- The key that `move` writes. -/
def moveDestinationKey (normalization : Normalization) (parentId : FileSystemId)
    (fileName : Name) : Bytes :=
  makeKey normalization parentId fileName

def move (req : MoveArg) : Op Unit := do
  let target ← orFail (.invalidArgument "target is required") req.target
  let destFileName ← orFail (.invalidArgument "destination is required") req.destination.getLast?
  let fileName ← orFail (.invalidArgument "target may not be empty") target.path.getLast?
  let world ← get
  let w := world.db
  let srcParentId ← ofExcept (descendPath env.toNormalization w.fs target.path.dropLast)
  let destParentId ← ofExcept (descendPath env.toNormalization w.fs req.destination.dropLast)
  let srcFileKey := moveSourceKey env.toNormalization srcParentId fileName
  let destFileKey := moveDestinationKey env.toNormalization destParentId destFileName
  let fileRecBytes ← orFail (.invalidArgument "no such file") w.fs[srcFileKey]?
  let w := { w with fs := w.fs.erase srcFileKey }
  let fileRec ← orFail .panic (fsRecordFromBytes fileRecBytes)
  rejectIf (target.versionIsNot fileRec.latestVersion)
    (.invalidArgument "not moving the latest version")
  let newValue := fileRec.bytesOf ++ utf8 destFileName
  let writeResult := w.fs[destFileKey]?
  let w := { w with fs := w.fs.insert destFileKey newValue }
  rejectIf writeResult.isSome (.invalidArgument "destination file already exists")
  commit w

/-- The table after a record was moved to another key. -/
def movedTo (fs : Table Bytes Bytes) (source destination : Bytes) (record : FsRecordValue)
    (name : Name) : Table Bytes Bytes :=
  (fs.erase source).insert destination (record.bytesOf ++ utf8 name)

theorem get_movedTo_ne {fs : Table Bytes Bytes} {source destination other : Bytes}
    (record : FsRecordValue) (name : Name) (notSource : other ≠ source)
    (notDestination : other ≠ destination) :
    (movedTo fs source destination record name)[other]? = fs[other]? := by
  rw [movedTo, Table.get_insert_ne _ _ notDestination, Table.get_erase_ne _ notSource]

/-- What `move` can do: refuse and leave the world alone, or move one entry to a key that is free
once the entry is removed. -/
inductive MoveCases (world : World) (req : MoveArg) : Outcome World Status Unit → Prop where
  | refused (err : Status) : MoveCases world req ⟨.error err, world, []⟩
  | moved (target : RequestedFileId) (source value : Bytes) (record : FsRecordValue)
      (destParentId : FileSystemId) (destFileName : Name) (later : World)
      (targeted : req.target = some target)
      (resolved : keyOfPath env.toNormalization world.db.fs target.path = some source)
      (named : req.destination.getLast? = some destFileName)
      (walked : descendPath env.toNormalization world.db.fs req.destination.dropLast =
        .ok destParentId)
      (found : world.db.fs[source]? = some value)
      (decoded : fsRecordFromBytes value = some record)
      (free : (world.db.fs.erase source)[makeKey env.toNormalization destParentId destFileName]? =
        none)
      (result : later = world.withDb { world.db with
        fs := movedTo world.db.fs source (makeKey env.toNormalization destParentId destFileName)
          record destFileName }) :
      MoveCases world req ⟨.ok (), later, [later]⟩

theorem move_cases (world : World) (req : MoveArg) :
    MoveCases env world req ((move env req).run world) := by
  rw [move]
  rcases targeted : req.target with _ | target
  · exact .refused _
  rw [run_orFail_some_bind]
  rcases destNamed : req.destination.getLast? with _ | destFileName
  · exact .refused _
  rw [run_orFail_some_bind]
  rcases named : target.path.getLast? with _ | fileName
  · exact .refused _
  rw [run_orFail_some_bind, run_get_bind]
  dsimp only [moveSourceKey, moveDestinationKey]
  rcases walked : descendPath env.toNormalization world.db.fs target.path.dropLast with
    err | srcParentId
  · exact .refused _
  rw [run_ofExcept_ok_bind]
  have resolved := keyOfPath_of_walk named walked
  rcases destWalked : descendPath env.toNormalization world.db.fs req.destination.dropLast with
    err | destParentId
  · exact .refused _
  rw [run_ofExcept_ok_bind]
  rcases found : world.db.fs[makeKey env.toNormalization srcParentId fileName]? with _ | value
  · exact .refused _
  rw [run_orFail_some_bind]
  rcases decoded : fsRecordFromBytes value with _ | record
  · exact .refused _
  rw [run_orFail_some_bind]
  rcases target.versionIsNot record.latestVersion with _ | _
  swap
  · exact .refused _
  rw [run_rejectIf_false_bind]
  rcases free : (world.db.fs.erase (makeKey env.toNormalization srcParentId fileName))[makeKey
    env.toNormalization destParentId destFileName]? with _ | occupant
  · exact .moved target _ value record destParentId destFileName _ targeted resolved destNamed
      destWalked found decoded free rfl
  · exact .refused _

end Yeetbox.Storage
