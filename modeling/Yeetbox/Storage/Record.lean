import Yeetbox.Library.FixedWidth
import Yeetbox.Storage.Time64

/-!
# Records and their bytes

`FsRecordValue`, `VersionRecordKey` and `VersionRecordValue` are `#[repr(C)]` structures
that the storage writes with `bytemuck::bytes_of` and reads with `pod_read_unaligned`:
their fields in order, without padding, each in the byte order of the machine, which is
little-endian here. A table value is the bytes of a record followed by a text of any
length. Reading the record off the front of such a value gives the record that was written
(`fsRecordFromBytes_append`, `versionValueFromBytes_append`).
-/

set_option autoImplicit false

namespace Yeetbox.Storage

open Library

abbrev FileSystemId := UInt64

abbrev FsVersion := UInt64

abbrev StorageTierId := UInt16

/-- A `Ulid` is its 128 bits. -/
abbrev Ulid := BitVec 128

def rootFsid : FileSystemId := 0

def defaultStorageTier : StorageTierId := 0

def unknownSize : UInt64 := 0xFFFFFFFFFFFFFFFF

/-! ## Object types -/

def objTypeNormalBlob : UInt8 := 0
def objTypeVersionBlob : UInt8 := 1
def objTypeAppendBlob : UInt8 := 2
def objTypeBlockBlob : UInt8 := 3
def objTypeFolder : UInt8 := 4
def objTypeSymlink : UInt8 := 5
def objTypeFifo : UInt8 := 6
def objTypeSocket : UInt8 := 7

def isReadableObjType (objType : UInt8) : Bool :=
  [objTypeNormalBlob, objTypeVersionBlob, objTypeAppendBlob, objTypeBlockBlob, objTypeFifo,
    objTypeSocket].contains objType

/-! ## The records -/

structure FsRecordValue where
  id : FileSystemId := 0
  createTime : Time64 := .unknownTime
  modifyTime : Time64 := .unknownTime
  accessTime : Time64 := .unknownTime
  changeTime : Time64 := .unknownTime
  deleteTime : Time64 := .unknownTime
  type : UInt8 := objTypeNormalBlob
  other1 : UInt8 := 0
  other2 : UInt16 := 0
  other3 : UInt32 := 0
  latestVersion : FsVersion := 1
  blobUlid : Ulid := 0
  deriving DecidableEq

structure VersionRecordKey where
  fileId : FileSystemId
  version : FsVersion
  deriving DecidableEq

structure VersionRecordValue where
  createTime : Time64
  accessTime : Time64
  length : UInt64
  uid : UInt32
  gid : UInt32
  flags : UInt16
  storageTier : StorageTierId
  other : UInt32
  deriving DecidableEq

/-- `mem::size_of::<FsRecordValue>()`. -/
def fsRecordSize : ℕ := 80

/-- `mem::size_of::<VersionRecordValue>()`. -/
def versionValueSize : ℕ := 40

/-- `bytemuck::bytes_of(&FsRecordValue)`. -/
def FsRecordValue.bytesOf (record : FsRecordValue) : Bytes :=
  leBytes 8 record.id.toNat ++ (leBytes 8 record.createTime.word.toNat ++
  (leBytes 8 record.modifyTime.word.toNat ++ (leBytes 8 record.accessTime.word.toNat ++
  (leBytes 8 record.changeTime.word.toNat ++ (leBytes 8 record.deleteTime.word.toNat ++
  (leBytes 1 record.type.toNat ++ (leBytes 1 record.other1.toNat ++
  (leBytes 2 record.other2.toNat ++ (leBytes 4 record.other3.toNat ++
  (leBytes 8 record.latestVersion.toNat ++ leBytes 16 record.blobUlid.toNat))))))))))

/-- `bytemuck::bytes_of(&VersionRecordKey)`. -/
def VersionRecordKey.bytesOf (key : VersionRecordKey) : Bytes :=
  leBytes 8 key.fileId.toNat ++ leBytes 8 key.version.toNat

/-- `bytemuck::bytes_of(&VersionRecordKey { file_id, version })`. -/
def rowKey (fileId : FileSystemId) (version : FsVersion) : Bytes :=
  (VersionRecordKey.mk fileId version).bytesOf

/-- `bytemuck::bytes_of(&VersionRecordValue)`. -/
def VersionRecordValue.bytesOf (record : VersionRecordValue) : Bytes :=
  leBytes 8 record.createTime.word.toNat ++ (leBytes 8 record.accessTime.word.toNat ++
  (leBytes 8 record.length.toNat ++ (leBytes 4 record.uid.toNat ++
  (leBytes 4 record.gid.toNat ++ (leBytes 2 record.flags.toNat ++
  (leBytes 2 record.storageTier.toNat ++ leBytes 4 record.other.toNat))))))

/-- The slice `value[0..80]` panics on a shorter value, and gives the record otherwise. -/
def fsRecordFromBytes (value : Bytes) : Option FsRecordValue :=
  if value.length < fsRecordSize then none
  else some {
    id := .ofNat (takeLe 8 value)
    createTime := ⟨.ofNat (takeLe 8 (value.drop 8))⟩
    modifyTime := ⟨.ofNat (takeLe 8 (value.drop 16))⟩
    accessTime := ⟨.ofNat (takeLe 8 (value.drop 24))⟩
    changeTime := ⟨.ofNat (takeLe 8 (value.drop 32))⟩
    deleteTime := ⟨.ofNat (takeLe 8 (value.drop 40))⟩
    type := .ofNat (takeLe 1 (value.drop 48))
    other1 := .ofNat (takeLe 1 (value.drop 49))
    other2 := .ofNat (takeLe 2 (value.drop 50))
    other3 := .ofNat (takeLe 4 (value.drop 52))
    latestVersion := .ofNat (takeLe 8 (value.drop 56))
    blobUlid := .ofNat 128 (takeLe 16 (value.drop 64)) }

/-- The slice `value[0..40]` panics on a shorter value, and gives the record otherwise. -/
def versionValueFromBytes (value : Bytes) : Option VersionRecordValue :=
  if value.length < versionValueSize then none
  else some {
    createTime := ⟨.ofNat (takeLe 8 value)⟩
    accessTime := ⟨.ofNat (takeLe 8 (value.drop 8))⟩
    length := .ofNat (takeLe 8 (value.drop 16))
    uid := .ofNat (takeLe 4 (value.drop 24))
    gid := .ofNat (takeLe 4 (value.drop 28))
    flags := .ofNat (takeLe 2 (value.drop 32))
    storageTier := .ofNat (takeLe 2 (value.drop 34))
    other := .ofNat (takeLe 4 (value.drop 36)) }

/-! ## Reading back what was written -/

@[simp] theorem length_fsRecord_bytesOf (record : FsRecordValue) :
    record.bytesOf.length = fsRecordSize := by
  simp [FsRecordValue.bytesOf, fsRecordSize]

@[simp] theorem length_versionKey_bytesOf (key : VersionRecordKey) : key.bytesOf.length = 16 := by
  simp [VersionRecordKey.bytesOf]

@[simp] theorem length_versionValue_bytesOf (record : VersionRecordValue) :
    record.bytesOf.length = versionValueSize := by
  simp [VersionRecordValue.bytesOf, versionValueSize]

/-- Bytes further on than the first word are in the rest. -/
theorem drop_word_append {width count : ℕ} (past : width ≤ count) (n : ℕ) (rest : Bytes) :
    (leBytes width n ++ rest).drop count = rest.drop (count - width) := by
  have split : count = width + (count - width) := by omega
  rw [split, ← List.drop_drop, drop_leBytes_append, Nat.add_sub_cancel_left]

@[simp] theorem takeLe_u8 (word : UInt8) (rest : Bytes) :
    UInt8.ofNat (takeLe 1 (leBytes 1 word.toNat ++ rest)) = word := by
  rw [takeLe_append word.toNat_lt, UInt8.ofNat_toNat]

@[simp] theorem takeLe_u16 (word : UInt16) (rest : Bytes) :
    UInt16.ofNat (takeLe 2 (leBytes 2 word.toNat ++ rest)) = word := by
  rw [takeLe_append word.toNat_lt, UInt16.ofNat_toNat]

@[simp] theorem takeLe_u32 (word : UInt32) (rest : Bytes) :
    UInt32.ofNat (takeLe 4 (leBytes 4 word.toNat ++ rest)) = word := by
  rw [takeLe_append word.toNat_lt, UInt32.ofNat_toNat]

@[simp] theorem takeLe_u64 (word : UInt64) (rest : Bytes) :
    UInt64.ofNat (takeLe 8 (leBytes 8 word.toNat ++ rest)) = word := by
  rw [takeLe_append word.toNat_lt, UInt64.ofNat_toNat]

@[simp] theorem takeLe_u128 (word : BitVec 128) (rest : Bytes) :
    BitVec.ofNat 128 (takeLe 16 (leBytes 16 word.toNat ++ rest)) = word := by
  rw [takeLe_append word.isLt, BitVec.ofNat_toNat, BitVec.setWidth_eq]

/-- **A record read off the front of a value is the record written there.** -/
@[simp] theorem fsRecordFromBytes_append (record : FsRecordValue) (rest : Bytes) :
    fsRecordFromBytes (record.bytesOf ++ rest) = some record := by
  have long : ¬ (record.bytesOf ++ rest).length < fsRecordSize := by simp
  rw [fsRecordFromBytes, if_neg long]
  simp (disch := decide) only [FsRecordValue.bytesOf, List.append_assoc, drop_word_append,
    Nat.reduceSub, List.drop_zero, takeLe_u8, takeLe_u16, takeLe_u32, takeLe_u64, takeLe_u128]

@[simp] theorem versionValueFromBytes_append (record : VersionRecordValue) (rest : Bytes) :
    versionValueFromBytes (record.bytesOf ++ rest) = some record := by
  have long : ¬ (record.bytesOf ++ rest).length < versionValueSize := by simp
  rw [versionValueFromBytes, if_neg long]
  simp (disch := decide) only [VersionRecordValue.bytesOf, List.append_assoc, drop_word_append,
    Nat.reduceSub, List.drop_zero, takeLe_u16, takeLe_u32, takeLe_u64]

/-! ## Writing back what was read -/

theorem leBytes_u8 {bytes : Bytes} (long : 1 ≤ bytes.length) :
    leBytes 1 (UInt8.ofNat (takeLe 1 bytes)).toNat = bytes.take 1 := by
  rw [UInt8.toNat_ofNat_of_lt' (takeLe_lt 1 bytes), leBytes_takeLe long]

theorem leBytes_u16 {bytes : Bytes} (long : 2 ≤ bytes.length) :
    leBytes 2 (UInt16.ofNat (takeLe 2 bytes)).toNat = bytes.take 2 := by
  rw [UInt16.toNat_ofNat_of_lt' (takeLe_lt 2 bytes), leBytes_takeLe long]

theorem leBytes_u32 {bytes : Bytes} (long : 4 ≤ bytes.length) :
    leBytes 4 (UInt32.ofNat (takeLe 4 bytes)).toNat = bytes.take 4 := by
  rw [UInt32.toNat_ofNat_of_lt' (takeLe_lt 4 bytes), leBytes_takeLe long]

theorem leBytes_u64 {bytes : Bytes} (long : 8 ≤ bytes.length) :
    leBytes 8 (UInt64.ofNat (takeLe 8 bytes)).toNat = bytes.take 8 := by
  rw [UInt64.toNat_ofNat_of_lt' (takeLe_lt 8 bytes), leBytes_takeLe long]

theorem leBytes_u128 {bytes : Bytes} (long : 16 ≤ bytes.length) :
    leBytes 16 (BitVec.ofNat 128 (takeLe 16 bytes)).toNat = bytes.take 16 := by
  have bound : takeLe 16 bytes < 2 ^ 128 := takeLe_lt 16 bytes
  rw [BitVec.toNat_ofNat, Nat.mod_eq_of_lt bound, leBytes_takeLe long]

/-- **The bytes of a record read off the front of a value are those bytes.** -/
theorem bytesOf_of_fsRecordFromBytes {value : Bytes} {record : FsRecordValue}
    (decoded : fsRecordFromBytes value = some record) :
    record.bytesOf = value.take fsRecordSize := by
  rw [fsRecordFromBytes] at decoded
  split at decoded
  · cases decoded
  · rename_i long
    rw [fsRecordSize, Nat.not_lt] at long
    have cut : ∀ start size count : ℕ, (value.drop start).take (size + count) =
        (value.drop start).take size ++ (value.drop (start + size)).take count := by
      intro start size count
      rw [List.take_add, List.drop_drop]
    cases decoded
    rw [FsRecordValue.bytesOf, leBytes_u64 (by omega), leBytes_u64 (by simp; omega),
      leBytes_u64 (by simp; omega), leBytes_u64 (by simp; omega), leBytes_u64 (by simp; omega),
      leBytes_u64 (by simp; omega), leBytes_u8 (by simp; omega), leBytes_u8 (by simp; omega),
      leBytes_u16 (by simp; omega), leBytes_u32 (by simp; omega), leBytes_u64 (by simp; omega),
      leBytes_u128 (by simp; omega), ← cut 56 8 16, ← cut 52 4 24, ← cut 50 2 28, ← cut 49 1 30,
      ← cut 48 1 31, ← cut 40 8 32, ← cut 32 8 40, ← cut 24 8 48, ← cut 16 8 56, ← cut 8 8 64]
    exact (cut 0 8 72).symm

theorem fsRecordSize_le_of_fsRecordFromBytes {value : Bytes} {record : FsRecordValue}
    (decoded : fsRecordFromBytes value = some record) : fsRecordSize ≤ value.length := by
  have size := congrArg List.length (bytesOf_of_fsRecordFromBytes decoded)
  rw [length_fsRecord_bytesOf, List.length_take] at size
  omega

/-- The text after a record is what was written after it. -/
@[simp] theorem drop_fsRecord_append (record : FsRecordValue) (rest : Bytes) :
    (record.bytesOf ++ rest).drop fsRecordSize = rest :=
  List.drop_left' (length_fsRecord_bytesOf record)

@[simp] theorem drop_versionValue_append (record : VersionRecordValue) (rest : Bytes) :
    (record.bytesOf ++ rest).drop versionValueSize = rest :=
  List.drop_left' (length_versionValue_bytesOf record)

/-- **Version keys of different files or versions differ.** -/
theorem VersionRecordKey.bytesOf_injective : Function.Injective VersionRecordKey.bytesOf := by
  intro first second same
  have halves := List.append_inj same (by simp)
  have file := leBytes_inj first.fileId.toNat_lt second.fileId.toNat_lt halves.1
  have version := leBytes_inj first.version.toNat_lt second.version.toNat_lt halves.2
  obtain ⟨firstFile, firstVersion⟩ := first
  obtain ⟨secondFile, secondVersion⟩ := second
  rw [UInt64.toNat_inj] at file version
  rw [VersionRecordKey.mk.injEq]
  exact ⟨file, version⟩

theorem rowKey_inj {firstFile secondFile : FileSystemId} {first second : FsVersion}
    (same : rowKey firstFile first = rowKey secondFile second) :
    firstFile = secondFile ∧ first = second :=
  (VersionRecordKey.mk.injEq ..).mp (VersionRecordKey.bytesOf_injective same)

/-! ## Folder ids as the walks read them -/

/-- `u64::from_be_bytes` of the first eight bytes of a value. -/
def parentIdOfValue (value : Bytes) : FileSystemId := .ofNat (ofBeBytes (value.take 8))

/-- The parent id that a walk reads from the value of a folder: the id of its record, written
in the order of the machine and read in big-endian order. -/
def parentIdOfRecord (id : FileSystemId) : FileSystemId := .ofNat (ofBeBytes (leBytes 8 id.toNat))

@[simp] theorem parentIdOfValue_append (record : FsRecordValue) (rest : Bytes) :
    parentIdOfValue (record.bytesOf ++ rest) = parentIdOfRecord record.id := by
  rw [parentIdOfValue, FsRecordValue.bytesOf, List.append_assoc,
    List.take_left' (length_leBytes 8 _), parentIdOfRecord]

/-- **The parent id in a value is that of the record in it.** -/
theorem parentIdOfValue_eq {value : Bytes} {record : FsRecordValue}
    (decoded : fsRecordFromBytes value = some record) :
    parentIdOfValue value = parentIdOfRecord record.id := by
  rw [← List.take_append_drop fsRecordSize value, ← bytesOf_of_fsRecordFromBytes decoded,
    parentIdOfValue_append]

/-- **Folders with different ids have different parent ids.** -/
theorem parentIdOfRecord_injective : Function.Injective parentIdOfRecord := by
  intro first second same
  have bound : ∀ id : FileSystemId, ofBeBytes (leBytes 8 id.toNat) < 2 ^ 64 := by
    intro id
    simpa using ofBeBytes_lt (leBytes 8 id.toNat)
  have words : ofBeBytes (leBytes 8 first.toNat) = ofBeBytes (leBytes 8 second.toNat) := by
    have values := congrArg UInt64.toNat same
    rwa [parentIdOfRecord, parentIdOfRecord, UInt64.toNat_ofNat_of_lt' (bound first),
      UInt64.toNat_ofNat_of_lt' (bound second)] at values
  exact UInt64.toNat_inj.mp (ofBeBytes_leBytes_inj first.toNat_lt second.toNat_lt words)

end Yeetbox.Storage
