import Yeetbox.Storage.World

/-!
# Requests and results

The messages of the protocol that the storage serves, with the fields that it reads and sets.
-/

set_option autoImplicit false

namespace Yeetbox.Storage

open Library

structure FileId where
  path : List Name

structure RequestedFileVersion where
  major : UInt64

/-- A file by its path; without a version, its head is meant. -/
structure RequestedFileId where
  path : List Name
  version : Option RequestedFileVersion := none

/-- `target.version.as_ref().is_some_and(|v| v.major != latest)`. -/
def RequestedFileId.versionIsNot (target : RequestedFileId) (latest : FsVersion) : Bool :=
  target.version.any fun version => version.major != latest

structure UnixPermissions where
  uR : Bool
  uW : Bool
  uX : Bool
  gR : Bool
  gW : Bool
  gX : Bool
  oR : Bool
  oW : Bool
  oX : Bool
  setuid : Bool
  setgid : Bool
  sticky : Bool

def unixPermsToU16 (perms : UnixPermissions) : UInt16 :=
  (if perms.uR then 0o0400 else 0) ||| (if perms.uW then 0o0200 else 0) |||
  (if perms.uX then 0o0100 else 0) ||| (if perms.gR then 0o0040 else 0) |||
  (if perms.gW then 0o0020 else 0) ||| (if perms.gX then 0o0010 else 0) |||
  (if perms.oR then 0o0004 else 0) ||| (if perms.oW then 0o0002 else 0) |||
  (if perms.oX then 0o0001 else 0) ||| (if perms.sticky then 0o1000 else 0) |||
  (if perms.setgid then 0o2000 else 0) ||| (if perms.setuid then 0o4000 else 0)

structure MakeDirectoryArg where
  target : Option FileId

structure UploadArg where
  target : Option FileId
  uid : UInt32 := 0
  gid : UInt32 := 0
  perms : Option UnixPermissions := none
  data : Payload
  next : Bool := false
  incomplete : Bool := false
  continuation : Bytes := []

structure UploadResult where
  continuation : Bytes := []
  deriving DecidableEq

structure AppendArg where
  target : Option RequestedFileId
  data : Payload

structure DownloadArg where
  target : Option RequestedFileId
  offset : UInt64 := 0
  length : UInt64 := 0

structure DownloadResult where
  data : Bytes
  more : Bool
  deriving DecidableEq

structure DeleteArg where
  target : Option RequestedFileId

structure DeleteResult where
  shredded : Bool
  deriving DecidableEq

structure ListArg where
  target : Option RequestedFileId

inductive ObjectType where
  | file
  | folder
  | symlink
  | fifo
  | socket
  deriving DecidableEq

structure FsAttributes where
  type : Option ObjectType
  createTime : Option Timestamp
  modifyTime : Option Timestamp
  accessTime : Option Timestamp
  changeTime : Option Timestamp
  deleteTime : Option Timestamp
  deriving DecidableEq

structure ListEntry where
  relativeName : Name
  attrs : FsAttributes
  deriving DecidableEq

structure ListResult where
  entries : List ListEntry

structure MoveArg where
  target : Option RequestedFileId
  destination : List Name

structure CopyArg where
  target : Option RequestedFileId
  destination : List Name

end Yeetbox.Storage
