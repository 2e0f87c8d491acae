import Mathlib.Data.Set.Basic
import Mathlib.Logic.Function.Basic
import Yeetbox.Library.Service
import Yeetbox.Storage.Service

/-!
# The drive that the storage is for

A drive is what a client sees of the storage, without keys, rows and blobs: the entries of folders,
the contents of files, and what has been received of unfinished uploads (`Drive`). What a request
asks for takes effect as an act (`Drive.perform`), and `Drive.decide` says which act and which reply
a drive gives to a request. Nothing here is translated from the source: the reading of a server as a
drive, and the proof that the server gives the replies of the drive, come later.

Two habits of the storage show on this level and are part of it. A folder does not take a number of
its own, so what is in two folders may be the same. And the deletion of a file takes away its
contents and leaves its entry.
-/

set_option autoImplicit false

namespace Yeetbox.Storage

open Library

/-- A name in a folder. -/
structure Place where
  folder : FileSystemId
  name : Name
  deriving DecidableEq

/-- What an entry stands for. -/
inductive Node where
  /-- A folder, with the number under which its entries are found. -/
  | folder (inside : FileSystemId)
  | file (id : FileSystemId)
  /-- An entry that a copy made. It has no contents. -/
  | copied
  deriving DecidableEq

/-- An entry, with its name as it was given. -/
structure Entry where
  shown : Name
  node : Node
  deriving DecidableEq

/-- A file: its length as it was recorded when it was uploaded, if it was, and its contents, unless
they were deleted. -/
structure File where
  recorded : Option ℕ
  content : Option Bytes
  deriving DecidableEq

@[ext]
structure Drive where
  entry : Place → Option Entry
  file : FileSystemId → Option File
  /-- What has been received of the uploads whose token is out. -/
  pending : Ulid → Option Bytes
  /-- The last number that was given to a file. -/
  last : FileSystemId

/-- A drive with nothing on it. -/
def Drive.empty : Drive where
  entry _ := none
  file _ := none
  pending _ := none
  last := 0

/-! ## Acts -/

/-- What a request can do to a drive. -/
inductive Act where
  | rest
  | makeFolder (place : Place) (shown : Name)
  | create (place : Place) (shown : Name) (file : File)
  | copy (place : Place) (shown : Name)
  | remove (place : Place)
  | rename (source destination : Place) (shown : Name)
  /-- Data is added to an upload. -/
  | receive (ulid : Ulid) (data : Bytes)
  /-- The last data of an upload comes, and its file is created. -/
  | finish (ulid : Ulid) (data : Bytes) (place : Place) (shown : Name)
  | append (id : FileSystemId) (data : Bytes)
  | clear (id : FileSystemId)

def Drive.withEntry (drive : Drive) (place : Place) (entry : Option Entry) : Drive :=
  { drive with entry := Function.update drive.entry place entry }

/-- The drive with a new file, which takes the next number. -/
def Drive.withFile (drive : Drive) (place : Place) (shown : Name) (file : File) : Drive where
  entry := Function.update drive.entry place (some ⟨shown, .file (drive.last + 1)⟩)
  file := Function.update drive.file (drive.last + 1) (some file)
  pending := drive.pending
  last := drive.last + 1

/-- What has been received of an upload. -/
def Drive.received (drive : Drive) (ulid : Ulid) : Bytes := (drive.pending ulid).getD []

def File.extended (file : File) (data : Bytes) : File :=
  { file with content := file.content.map (· ++ data) }

def File.cleared (file : File) : File := { file with content := none }

def Drive.perform (drive : Drive) : Act → Drive
  | .rest => drive
  | .makeFolder place shown =>
      drive.withEntry place (some ⟨shown, .folder (parentIdOfRecord (drive.last + 1))⟩)
  | .create place shown file => drive.withFile place shown file
  | .copy place shown =>
      { drive.withEntry place (some ⟨shown, .copied⟩) with last := drive.last + 1 }
  | .remove place => drive.withEntry place none
  | .rename source destination shown =>
      (drive.withEntry source none).withEntry destination
        ((drive.entry source).map fun entry => ⟨shown, entry.node⟩)
  | .receive ulid data =>
      { drive with
        pending := Function.update drive.pending ulid (some (drive.received ulid ++ data)) }
  | .finish ulid data place shown =>
      { drive.withFile place shown ⟨none, some (drive.received ulid ++ data)⟩ with
        pending := Function.update drive.pending ulid none }
  | .append id data =>
      { drive with file := Function.update drive.file id ((drive.file id).map (·.extended data)) }
  | .clear id =>
      { drive with file := Function.update drive.file id ((drive.file id).map File.cleared) }

/-! ## Paths -/

/-- The number of the folder that an entry stands for. -/
def Entry.inside (entry : Entry) : Option FileSystemId :=
  match entry.node with
  | .folder inside => some inside
  | _ => none

theorem Entry.inside_eq_some_iff {entry : Entry} {inside : FileSystemId} :
    entry.inside = some inside ↔ entry.node = .folder inside := by
  rw [Entry.inside]
  rcases entry.node with inner | id | _ <;> simp

/-- Enter a folder by its name. -/
def Drive.enter (drive : Drive) (folder : FileSystemId) (name : Name) : Option FileSystemId :=
  (drive.entry ⟨folder, name⟩).bind Entry.inside

/-- The folder that names lead to from the root. -/
def Drive.walk (drive : Drive) (names : List Name) : Option FileSystemId :=
  names.foldlM drive.enter rootFsid

/-- The place that a path is about. -/
def Drive.place (normalization : Normalization) (drive : Drive) (path : List Name) :
    Option Place := do
  let name ← path.getLast?
  let folder ← drive.walk (path.dropLast.map normalization.nfkd)
  pure ⟨folder, normalization.nfkd name⟩

/-- The place for a new entry. Its folders are looked up as they are written, and its name is
trimmed. -/
def Drive.newPlace (normalization : Normalization) (drive : Drive) (path : List Name) :
    Option (Place × Name) := do
  let name ← path.getLast?
  let folder ← drive.walk path.dropLast
  let place : Place := ⟨folder, normalization.nfkd (trim name)⟩
  if drive.entry place = none then pure (place, trim name) else none

/-- A request that names a version means this one. -/
def RequestedFileId.isFirst (target : RequestedFileId) : Bool :=
  target.version.all fun version => version.major == 1

/-- The place and the entry of a target, if it asks for the version that there is. -/
def Drive.target (normalization : Normalization) (drive : Drive) (target : RequestedFileId) :
    Option (Place × Entry) := do
  let place ← drive.place normalization target.path
  let entry ← drive.entry place
  if target.isFirst then pure (place, entry) else none

/-! ## Replies -/

/-- What a client is told. -/
inductive Reply where
  | refused
  | done
  /-- The upload can go on with this token. -/
  | continues (token : Bytes)
  | page (result : DownloadResult)
  | listing (shown : Set Name)

/-- How many bytes a download asks for at most. -/
def pageLength (recorded : Option ℕ) (offset length : UInt64) : ℕ :=
  let asked := match recorded with
    | none => length.toNat
    -- The sum is one of machine words.
    | some recorded => if recorded < (offset + length).toNat then recorded - offset.toNat
        else length.toNat
  min asked maxReadSize

/-- The page of a file that a download gets. -/
def File.page (file : File) (offset length : UInt64) : Reply :=
  match file.content with
  | none => .refused
  | some content =>
      if file.recorded.any (· < offset.toNat) ∨ 2 ^ 63 ≤ offset.toNat then .refused
      else
        let data := (content.drop offset.toNat).take (pageLength file.recorded offset length)
        .page ⟨data, data.length == pageLength file.recorded offset length⟩

/-- The names in a folder. -/
def Drive.names (drive : Drive) (folder : FileSystemId) : Set Name :=
  { shown | ∃ name entry, drive.entry ⟨folder, name⟩ = some entry ∧ entry.shown = shown }

/-! ## What a drive makes of a request -/

section Decide

variable (normalization : Normalization) (drive : Drive)

/-- An upload is new or goes on. The ULID is drawn for a new one. -/
def uploadWith (drawn : Ulid) (arg : UploadArg) : Option Ulid :=
  if arg.continuation = [] then some drawn else ulidOfBytes arg.continuation

/-- A final upload creates its file, or leaves behind what was received of it. -/
def Drive.decideFinal (ulid : Ulid) (arg : UploadArg) (path : List Name) : Act × Reply :=
  match drive.newPlace normalization path with
  | some (place, shown) =>
      (if arg.continuation = [] then
          .create place shown ⟨some arg.data.bytes.length, some arg.data.bytes⟩
        else .finish ulid arg.data.bytes place shown, .done)
  | none =>
      (if arg.continuation = [] then .rest else .receive ulid arg.data.bytes, .refused)

def Drive.decideUpload (drawn : Ulid) (arg : UploadArg) : Act × Reply :=
  match arg.target, uploadWith drawn arg with
  | some target, some ulid =>
      if target.path = [] then (.rest, .refused)
      else if arg.incomplete then (.receive ulid arg.data.bytes, .continues ulid.toBytes)
      else drive.decideFinal normalization ulid arg target.path
  | _, _ => (.rest, .refused)

/-- What is asked of a target that has to be there. -/
def Drive.decideOn (target : Option RequestedFileId) (act : Place → Entry → Option (Act × Reply)) :
    Act × Reply :=
  ((target.bind (drive.target normalization)).bind fun found => act found.1 found.2).getD
    (.rest, .refused)

def Drive.decideAppend (arg : AppendArg) : Act × Reply :=
  drive.decideOn normalization arg.target fun _ entry =>
    match entry.node with
    | .file id => if (drive.file id).bind File.content = none then none
        else some (.append id arg.data.bytes, .done)
    | _ => none

def Drive.decideDownload (arg : DownloadArg) : Act × Reply :=
  drive.decideOn normalization arg.target fun _ entry =>
    match entry.node with
    | .file id => (drive.file id).map fun file => (.rest, file.page arg.offset arg.length)
    | _ => none

def Drive.decideDelete (arg : DeleteArg) : Act × Reply :=
  drive.decideOn normalization arg.target fun place entry =>
    match entry.node with
    | .file id => if (drive.file id).bind File.content = none then none
        else some (.clear id, .done)
    | _ => some (.remove place, .done)

def Drive.decideMove (arg : MoveArg) : Act × Reply :=
  drive.decideOn normalization arg.target fun source _ => do
    let shown ← arg.destination.getLast?
    let destination ← drive.place normalization arg.destination
    if destination = source ∨ drive.entry destination = none then
      pure (.rename source destination shown, .done)
    else none

/-- The version that a copy asks for does not matter, and only files can be copied. -/
def Drive.decideCopy (arg : CopyArg) : Act × Reply :=
  drive.decideOn normalization (arg.target.map fun target => { target with version := none })
    fun _ entry =>
      match entry.node with
      | .file _ => do
          let shown ← arg.destination.getLast?
          let destination ← drive.place normalization arg.destination
          if drive.entry destination = none then pure (.copy destination shown, .done) else none
      | _ => none

/-- **The act and the reply with which a drive answers a request.** -/
def Drive.decide (drawn : Ulid) : Request → Act × Reply
  | .makeDirectory arg =>
      match arg.target.bind fun target => drive.newPlace normalization target.path with
      | some (place, shown) => (.makeFolder place shown, .done)
      | none => (.rest, .refused)
  | .upload arg => drive.decideUpload normalization drawn arg
  | .append arg => drive.decideAppend normalization arg
  | .download arg => drive.decideDownload normalization arg
  | .delete arg => drive.decideDelete normalization arg
  | .list arg =>
      match arg.target.bind fun target => drive.walk (target.path.map normalization.nfkc) with
      | some folder => (.rest, .listing (drive.names folder))
      | none => (.rest, .refused)
  | .move arg => drive.decideMove normalization arg
  | .copy arg => drive.decideCopy normalization arg

end Decide

/-- Requests with the ULIDs that are drawn for them, answered by a drive. -/
def driveService (normalization : Normalization) : Service Drive (Request × Ulid) Reply where
  next drive asked := drive.perform (drive.decide normalization asked.2 asked.1).1
  answer drive asked := (drive.decide normalization asked.2 asked.1).2

end Yeetbox.Storage
