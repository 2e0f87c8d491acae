import Yeetbox.Storage.Request
import Yeetbox.Storage.Walk

/-!
# Listing a folder

`list` walks to a folder and reads the entries whose keys lie between its id and the next one. It
changes nothing (`list_unchanged`).
-/

set_option autoImplicit false

namespace Yeetbox.Storage

open Library Handler

variable (env : Env)

/-- `FsRecordValue::obj_type`. `OBJ_TYPE_FILE` is no constant, so the first arm takes every type. -/
def FsRecordValue.objType (_record : FsRecordValue) : Option ObjectType := some .file

/-- `fs.range(start..end)`. -/
def tableRange (fs : Table Bytes Bytes) (first last : Bytes) : List (Bytes × Bytes) :=
  fs.toList.filter fun entry =>
    (compare first entry.1).isLE && (compare entry.1 last).isLT

/-- One round of the loop over the entries of a folder. -/
def listEntry (entry : Bytes × Bytes) : Except Status ListEntry :=
  let (key, value) := entry
  if key.length < 8 then .error (.internal "corrupted fs record")
  else match fsRecordFromBytes value with
    | none => .error (.internal "corrupted fs record")
    | some record =>
        match ofUtf8 (value.drop fsRecordSize) with
        | none => .error .undefinedBehaviour
        | some friendlyFileName => .ok {
            relativeName := friendlyFileName
            attrs := {
              type := record.objType
              createTime := record.createTime.known.map Time64.toTimestamp
              modifyTime := record.modifyTime.known.map Time64.toTimestamp
              accessTime := record.accessTime.known.map Time64.toTimestamp
              changeTime := record.changeTime.known.map Time64.toTimestamp
              deleteTime := record.deleteTime.known.map Time64.toTimestamp } }

def list (req : ListArg) : Op ListResult := do
  let target ← orFail (.invalidArgument "target is required") req.target
  let world ← get
  let parentId ← ofExcept (listWalk env.toNormalization world.db.fs target.path)
  let nextId := parentId + 1
  let entries ← ofExcept ((tableRange world.db.fs (beBytes 8 parentId.toNat)
    (beBytes 8 nextId.toNat)).mapM listEntry)
  pure { entries := entries }

/-- **Listing changes nothing and has no effect at which it could stop.** -/
theorem list_unchanged (world : World) (req : ListArg) :
    ((list env req).run world).state = world ∧ ((list env req).run world).stops = [] := by
  rw [list]
  rcases req.target with _ | target
  · exact ⟨rfl, rfl⟩
  rw [run_orFail_some_bind, run_get_bind]
  rcases listWalk env.toNormalization world.db.fs target.path with err | parentId
  · exact ⟨rfl, rfl⟩
  rw [run_ofExcept_ok_bind]
  dsimp only
  rcases (tableRange world.db.fs (beBytes 8 parentId.toNat)
    (beBytes 8 (parentId + 1).toNat)).mapM listEntry with err | entries
  · exact ⟨rfl, rfl⟩
  · exact ⟨rfl, rfl⟩

end Yeetbox.Storage
