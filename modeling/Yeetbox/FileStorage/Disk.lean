import Yeetbox.FileStorage.Paths

/-!
# The directory of a stored file

On the disk a stored file is a directory: the blobs of its uploads, a directory for each major
version with the minor versions in it, and a link to the latest version (`StoredFile`). What a call
of the operating system does to it is a function (`perform`). The world keeps a log of the calls
with the directory before each of them, so that one can say which calls were made and when.
-/

set_option autoImplicit false

namespace Yeetbox.FileStorage

open Library Storage Handler

/-! ## What is on the disk -/

/-- What can be found under the name of the link to the latest version. -/
inductive HeadEntry where
  | link (target : Bytes)
  /-- Anything that is not a link. -/
  | other

/-- The directory of a stored file. -/
structure StoredFile where
  blobs : Table Bytes Bytes := ∅
  /-- The directories of the major versions, with the files of the minor versions. -/
  versions : Table Bytes (Table Bytes Bytes) := ∅
  head : Option HeadEntry := none

/-- The contents of a version. -/
def StoredFile.versionFile (file : StoredFile) (major minor : Bytes) : Option Bytes :=
  file.versions[major]?.bind fun minors => minors[minor]?

/-! ## Calls of the operating system -/

/-- `std::io::ErrorKind`, as far as the calls end with one. -/
inductive IoError where
  | notFound
  | alreadyExists
  | invalidInput
  deriving DecidableEq

/-- The calls that an upload makes in the directory of its file. -/
inductive FsCall where
  /-- `create_dir_all` of the directory of the blobs. -/
  | createBlobsDir
  /-- Open for appending, with `create(true)`. -/
  | openBlob (blob : Bytes)
  /-- A `write` that transfers these bytes. -/
  | writeBlob (blob data : Bytes)
  | readHead
  /-- `create_dir_all` of a major version. -/
  | createDirAll (major : Bytes)
  /-- `create_dir` of a major version. -/
  | createDir (major : Bytes)
  /-- `rename` of a blob to a version. -/
  | rename (blob major minor : Bytes)
  /-- `symlink` of the latest version. -/
  | linkHead (target : Bytes)

/-- `read_link` of the latest version. -/
def StoredFile.readLink (file : StoredFile) : Except IoError Bytes :=
  match file.head with
  | none => .error .notFound
  | some (.link target) => .ok target
  | some .other => .error .invalidInput

theorem StoredFile.readLink_notFound_iff (file : StoredFile) :
    file.readLink = .error .notFound ↔ file.head = none := by
  rcases file with ⟨_, _, _ | _ | _⟩ <;> simp [readLink]

/-- What a call does to the directory. -/
def perform (file : StoredFile) : FsCall → Except IoError StoredFile
  | .createBlobsDir => .ok file
  | .openBlob blob => .ok { file with blobs := createIn file.blobs blob }
  | .writeBlob blob data => .ok { file with blobs := extendIn file.blobs blob data }
  | .readHead => file.readLink.map fun _ => file
  | .createDirAll major => .ok
      { file with versions := file.versions.insert major (file.versions[major]?.getD ∅) }
  | .createDir major =>
      match file.versions[major]? with
      | none => .ok { file with versions := file.versions.insert major ∅ }
      | some _ => .error .alreadyExists
  | .rename blob major minor =>
      match file.blobs[blob]?, file.versions[major]? with
      | some content, some minors => .ok { file with
          blobs := file.blobs.erase blob
          versions := file.versions.insert major (minors.insert minor content) }
      | _, _ => .error .notFound
  | .linkHead target =>
      match file.head with
      | none => .ok { file with head := some (.link target) }
      | some _ => .error .alreadyExists

/-- The directory of a major version is there. -/
def Taken (file : StoredFile) (major : Bytes) : Prop := file.versions[major]? ≠ none

theorem perform_createDir_of_free {file : StoredFile} {major : Bytes} (free : ¬ Taken file major) :
    perform file (.createDir major) =
      .ok { file with versions := file.versions.insert major ∅ } := by
  rw [perform, not_not.mp free]

theorem perform_createDir_of_taken {file : StoredFile} {major : Bytes}
    (taken : Taken file major) : perform file (.createDir major) = .error .alreadyExists := by
  obtain ⟨minors, found⟩ := Option.ne_none_iff_exists'.mp taken
  rw [perform, found]

/-- A call that was made, with the directory before it. -/
structure Made where
  call : FsCall
  before : StoredFile

/-- The version that a call renames a blob to. -/
def Made.target (made : Made) : Option (Bytes × Bytes) :=
  match made.call with
  | .rename _ major minor => some (major, minor)
  | _ => none

/-- A call that was made has succeeded. -/
def Made.Succeeded (made : Made) : Prop := ∃ after, perform made.before made.call = .ok after

/-! ## The world of the file driver -/

/-- The directory of a stored file, the number of calls made to the outside, and the calls of the
operating system, the latest one last. -/
structure FileWorld where
  file : StoredFile := {}
  calls : ℕ := 0
  log : List Made := []

/-- A `tonic::Status`, or an `std::io::Error` that is converted to one by `?`. -/
inductive Failure where
  | status (status : Status)
  | io (error : IoError)
  deriving DecidableEq

/-- A request handler of the file driver. -/
abbrev FileOp := Handler FileWorld Failure

/-- The world after a call of the operating system. -/
def FileWorld.make (world : FileWorld) (call : FsCall) : FileWorld :=
  { world with
    file := (perform world.file call).toOption.getD world.file
    log := world.log ++ [⟨call, world.file⟩] }

/-- A call of the operating system, and its result. -/
def sysCall (call : FsCall) : FileOp (Except IoError Unit) := do
  let world ← get
  effect (FileWorld.make · call)
  pure ((perform world.file call).map fun _ => ())

/-- A call of the operating system whose error is returned with `?`. -/
def tryCall (call : FsCall) : FileOp Unit := do
  let result ← sysCall call
  ofExcept (result.mapError .io)

/-- The call of `read_link`, and its result. -/
def readHead : FileOp (Except IoError Bytes) := do
  let world ← get
  effect (FileWorld.make · .readHead)
  pure world.file.readLink

/-! ## Running one call -/

section Running

variable {Next : Type} {world : FileWorld} {call : FsCall}

@[simp] theorem FileWorld.make_log (world : FileWorld) (call : FsCall) :
    (world.make call).log = world.log ++ [⟨call, world.file⟩] := rfl

theorem FileWorld.make_file_of_ok {after : StoredFile} (ok : perform world.file call = .ok after) :
    (world.make call).file = after := by
  rw [make, ok]
  rfl

theorem FileWorld.make_file_of_error {err : IoError}
    (failed : perform world.file call = .error err) : (world.make call).file = world.file := by
  rw [make, failed]
  rfl

theorem run_sysCall_bind (next : Except IoError Unit → FileOp Next) :
    (sysCall call >>= next).run world =
      ((next ((perform world.file call).map fun _ => ())).run (world.make call)).after
        [world.make call] := rfl

theorem run_readHead_bind (next : Except IoError Bytes → FileOp Next) :
    (readHead >>= next).run world =
      ((next world.file.readLink).run (world.make .readHead)).after [world.make .readHead] := rfl

theorem run_tryCall_ok_bind {after : StoredFile} (ok : perform world.file call = .ok after)
    (next : Unit → FileOp Next) :
    (tryCall call >>= next).run world =
      ((next ()).run (world.make call)).after [world.make call] := by
  rw [tryCall, run_bind_assoc, run_sysCall_bind, ok]
  rfl

theorem run_tryCall_error_bind {err : IoError} (failed : perform world.file call = .error err)
    (next : Unit → FileOp Next) :
    (tryCall call >>= next).run world =
      ⟨.error (.io err), world.make call, [world.make call]⟩ := by
  rw [tryCall, run_bind_assoc, run_sysCall_bind, failed]
  rfl

theorem FileWorld.make_readHead_file (world : FileWorld) :
    (world.make .readHead).file = world.file := by
  rcases result : world.file.readLink with err | target <;>
  · rw [make, perform, result]
    rfl

end Running

/-! ## What the calls leave alone -/

/-- Making sure that a directory is there adds no version. -/
theorem versionFile_createDirAll (file : StoredFile) (made major minor : Bytes) :
    StoredFile.versionFile { file with
      versions := file.versions.insert made (file.versions[made]?.getD ∅) } major minor =
        file.versionFile major minor := by
  rw [StoredFile.versionFile, StoredFile.versionFile, Table.get_insert]
  split
  · rename_i same
    rw [same]
    rcases file.versions[made]? with _ | minors <;> simp
  · rfl

/-- A directory that was just created has no versions. -/
theorem versionFile_createDir {world : FileWorld} {major : Bytes}
    (free : ¬ Taken world.file major) (minor : Bytes) :
    (world.make (.createDir major)).file.versionFile major minor = none := by
  rw [FileWorld.make_file_of_ok (perform_createDir_of_free free), StoredFile.versionFile,
    Table.get_insert_self]
  simp

end Yeetbox.FileStorage
