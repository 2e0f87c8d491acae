import Yeetbox.Storage.Entries
import Yeetbox.Storage.Pages
import Yeetbox.Storage.Rows

/-!
# What an append changes in what is read

An append makes the blob of the head version longer, and the version shares that blob. Its row
"pretends" that the blob ends at the recorded length, but a fragmented upload records none, and a
request whose end wraps around is not truncated. What is read from the version stays as it was
exactly when the append does nothing, or no read of the version reaches the end of the blob
(`append_reads_alike_iff`).
-/

set_option autoImplicit false

namespace Yeetbox.Storage

open Library Handler

/-- Every download of a version has the same result in two worlds, when the reads that it makes in
one transfer as many bytes as those that it makes in the other. -/
def ReadsUnchanged (env : Env) (before later : World) (path : List Name) (version : FsVersion) :
    Prop :=
  ∀ outside : Env, outside.toNormalization = env.toNormalization →
    (∀ size, outside.read before.calls size = outside.read later.calls size) →
      ∀ offset length : UInt64,
        ((download outside (pageRequest path (some version) offset length)).run before).result =
          ((download outside (pageRequest path (some version) offset length)).run later).result

/-- No read of a version reaches the end of its blob: the version is empty, or the blob goes on for
a largest read after the last offset from which one can read. -/
def OutOfReach (recorded : UInt64) (content : Bytes) : Prop :=
  recorded = 0 ∨ min recorded.toNat (2 ^ 63 - 1) + maxReadSize ≤ content.length

instance (recorded : UInt64) (content : Bytes) : Decidable (OutOfReach recorded content) :=
  inferInstanceAs (Decidable (_ ∨ _))

/-! ## Pages of a blob that became longer -/

section Longer

variable {env : Env} {before later : World} {path : List Name} {requested : Option FsVersion}
  {recorded offset length : UInt64} {content added : Bytes}

/-- Out of reach of the end, the buffer holds no more than what is left of the blob. -/
theorem OutOfReach.bufferSize_le (out : OutOfReach recorded content)
    (notBeyond : recorded = unknownSize ∨ offset ≤ recorded) (small : offset.toNat < 2 ^ 63) :
    bufferSize recorded offset length ≤ content.length - offset.toNat := by
  have largest : bufferSize recorded offset length ≤ maxReadSize := Nat.min_le_right _ _
  have atMost : offset.toNat ≤ recorded.toNat := by
    rcases notBeyond with rfl | inside
    · exact Nat.le_of_lt_succ offset.toNat_lt
    · exact UInt64.le_iff_toNat_le.mp inside
  rcases out with rfl | far
  · have start : offset = 0 := by
      rw [UInt64.toNat_zero] at atMost
      exact UInt64.toNat_inj.mp (Nat.le_zero.mp atMost)
    rw [start]
    by_cases none : (0 + length).toNat ≤ (0 : UInt64).toNat
    · rw [bufferSize_whole (.inr none)]
      rw [UInt64.zero_add, UInt64.toNat_zero] at none
      omega
    · rw [bufferSize_truncated (by decide) (Nat.not_le.mp none) (Nat.le_refl _)]
      simp
  · omega

/-- **A blob and a longer one read alike out of reach of the end.** -/
theorem alike_of_outOfReach (out : added = [] ∨ OutOfReach recorded content)
    (readable : ReadableVersion env before path requested recorded content)
    (readable' : ReadableVersion env later path requested recorded (content ++ added))
    (reads : ∀ size, env.read before.calls size = env.read later.calls size) :
    ((download env (pageRequest path requested offset length)).run before).result =
      ((download env (pageRequest path requested offset length)).run later).result := by
  by_cases notBeyond : recorded = unknownSize ∨ offset ≤ recorded
  swap
  · rw [not_or, UInt64.not_le] at notBeyond
    rw [readable.refused notBeyond.1 notBeyond.2, readable'.refused notBeyond.1 notBeyond.2]
  by_cases small : offset.toNat < 2 ^ 63
  swap
  · rw [readable.not_seekable notBeyond (Nat.not_lt.mp small),
      readable'.not_seekable notBeyond (Nat.not_lt.mp small)]
  have available : min (bufferSize recorded offset length) (content.drop offset.toNat).length =
      min (bufferSize recorded offset length) ((content ++ added).drop offset.toNat).length := by
    rcases out with rfl | out
    · rw [List.append_nil]
    · have fits : bufferSize recorded offset length ≤ content.length - offset.toNat :=
        out.bufferSize_le notBeyond small
      rw [List.length_drop, List.length_drop, List.length_append]
      omega
  have sizes : pageSize env before recorded content offset length =
      pageSize env later recorded (content ++ added) offset length := by
    rw [pageSize, reads, available, pageSize]
  have pages : (content.drop offset.toNat).take
        (pageSize env later recorded (content ++ added) offset length) =
      ((content ++ added).drop offset.toNat).take
        (pageSize env later recorded (content ++ added) offset length) := by
    have atMost := pageSize_le env before recorded content offset length
    rw [← sizes, List.drop_append, List.take_append_of_le_length (by rw [List.length_drop]; omega)]
  rw [readable.page_at notBeyond small, readable'.page_at notBeyond small, sizes, pages]

/-- **Within reach of the end, some page becomes longer.** -/
theorem OutOfReach.of_alike (nonempty : added ≠ [])
    (readable : ReadableVersion env before path requested recorded content)
    (readable' : ReadableVersion env later path requested recorded (content ++ added))
    (whole : ∀ call size, env.read call size = size)
    (alike : ∀ offset length : UInt64,
      ((download env (pageRequest path requested offset length)).run before).result =
        ((download env (pageRequest path requested offset length)).run later).result) :
    OutOfReach recorded content := by
  by_contra within
  rw [OutOfReach, not_or, Nat.not_le] at within
  obtain ⟨notEmpty, near⟩ := within
  have positive : 0 < recorded.toNat := by
    by_contra zero
    exact notEmpty (UInt64.toNat_inj.mp (Nat.le_zero.mp (Nat.not_lt.mp zero)))
  have more := List.length_pos_iff.mpr nonempty
  have limit : 0 < maxReadSize ∧ maxReadSize < 2 ^ 63 := by decide
  -- The offset is the end of the blob, or the last one from which one can read; the end of the
  -- request wraps around to zero.
  obtain ⟨offset, start⟩ : ∃ offset : UInt64,
      offset.toNat = min content.length (min recorded.toNat (2 ^ 63 - 1)) :=
    ⟨.ofNat _, UInt64.toNat_ofNat_of_lt' (by rw [UInt64.size]; omega)⟩
  obtain ⟨length, buffer⟩ : ∃ length : UInt64,
      content.length - offset.toNat < bufferSize recorded offset length := by
    by_cases zero : offset.toNat = 0
    · refine ⟨1, ?_⟩
      have sum : (offset + 1).toNat ≤ recorded.toNat := by
        rw [UInt64.toNat_add, zero, UInt64.toNat_one]
        omega
      rw [bufferSize_whole (.inr sum), UInt64.toNat_one]
      omega
    · have rest : (0 - offset).toNat = 2 ^ 64 - offset.toNat := by
        rw [UInt64.toNat_sub, UInt64.toNat_zero]
        omega
      refine ⟨0 - offset, ?_⟩
      have sum : (offset + (0 - offset)).toNat ≤ recorded.toNat := by
        rw [UInt64.toNat_add, rest]
        omega
      rw [bufferSize_whole (.inr sum), rest]
      omega
  have notBeyond : recorded = unknownSize ∨ offset ≤ recorded :=
    .inr (UInt64.le_iff_toNat_le.mpr (by omega))
  have same := alike offset length
  rw [readable.page_at notBeyond (by omega), readable'.page_at notBeyond (by omega)] at same
  have pages := congrArg List.length ((DownloadResult.mk.injEq ..).mp (Except.ok.inj same)).1
  rw [length_page, length_page, pageSize, pageSize, whole, whole, List.length_drop,
    List.length_drop, List.length_append] at pages
  omega

end Longer

/-! ## The version that an append makes longer -/

section Append

variable {env : Env} {world : World} {path path' : List Name} {key : Bytes}
  {record : FsRecordValue} {asked : Option RequestedFileVersion} {version : VersionRecordValue}
  {shown : Name}

/-- The version of a file is readable from outside, when its blob is there. -/
theorem readableVersion_of_row {outside : Env} {content : Bytes}
    (same : outside.toNormalization = env.toNormalization)
    (file : FileAt env.toNormalization world.db.fs path key record)
    (created : world.db.verCreated = true)
    (row : world.db.ver[rowKey record.id record.latestVersion]? =
      some (version.bytesOf ++ utf8 shown))
    (there : world.blobs[inBlobs (utf8 shown)]? = some content) :
    ReadableVersion outside world path (some record.latestVersion) version.length content where
  created := created
  row := ⟨key, record, version, shown, by rw [same]; exact file.resolved, file.there,
    by rw [file.versioned]; rfl, row, rfl, there⟩

/-- **What is read from the version of a file stays as it was exactly when the append does nothing
or no read of the version reaches the end of the blob.** -/
theorem append_alike_iff (file : FileAt env.toNormalization world.db.fs path key record)
    (same : keyOfPath env.toNormalization world.db.fs path' = some key)
    (created : world.db.verCreated = true)
    (row : world.db.ver[rowKey record.id record.latestVersion]? =
      some (version.bytesOf ++ utf8 shown)) (data : Payload) :
    ReadsUnchanged env world ((append env ⟨some ⟨path', asked⟩, data⟩).run world).state path
        record.latestVersion ↔
      (asked.any fun asked => asked.major != record.latestVersion) = true ∨
        ∀ content, world.blobs[inBlobs (utf8 shown)]? = some content →
          data.bytes = [] ∨ OutOfReach version.length content := by
  have readable : isReadableObjType record.type = true := by
    rw [file.versioned]
    rfl
  have unchanged : ReadsUnchanged env world world path record.latestVersion := fun _ _ _ _ _ => rfl
  rw [run_append_record env same file.there]
  rcases current : (asked.any fun asked => asked.major != record.latestVersion) with _ | _
  swap
  · rw [appendToRecord, readable, Bool.not_true, run_rejectIf_false_bind, current]
    exact iff_of_true unchanged (.inl rfl)
  rcases there : world.blobs[inBlobs (utf8 shown)]? with _ | content
  · rw [run_appendToRecord env readable current row, run_openExisting_bind_missing there]
    exact iff_of_true unchanged (.inr fun _ found => by cases found)
  rw [run_appendToRecord_found env readable current row there]
  have before := fun (outside : Env) (normal : outside.toNormalization = env.toNormalization) =>
    readableVersion_of_row normal file created row there
  have later := fun (outside : Env) (normal : outside.toNormalization = env.toNormalization) =>
    @readableVersion_of_row env ((withAppended env world (inBlobs (utf8 shown))
      data.bytes).advance 1) path key record version shown outside _ normal file created row
      (by
        rw [World.advance_blobs, withAppended, World.withBlobs_blobs, get_extendIn, if_pos rfl,
          there, Option.getD_some])
  constructor
  · intro alike
    refine .inr fun other found => ?_
    cases found
    rw [or_iff_not_imp_left]
    intro nonempty
    have added : data.bytes.take (env.write world.calls data.bytes.length) ≠ [] :=
      fun none => nonempty (env.take_write_eq_nil_iff.mp none)
    exact .of_alike added (before (.numbered _) rfl) (later (.numbered _) rfl) (fun _ _ => rfl)
      (alike (.numbered _) rfl fun _ => rfl)
  · intro condition outside normal reads offset length
    have out := condition.resolve_left (ne_true_of_eq_false current) content rfl
    refine alike_of_outOfReach ?_ (before outside normal) (later outside normal) reads
    exact out.imp_left env.take_write_eq_nil_iff.mpr

end Append

/-- **In a reachable state, an append leaves what is read from a version of the file as it was
exactly when it asks for another version, the blob is not there, there is no data, or no read of the
version reaches the end of the blob.** -/
theorem append_reads_alike_iff (env : Env) (requests : List Request) {path path' : List Name}
    {key row : Bytes} {record : FsRecordValue} {version : VersionRecordValue} {number : FsVersion}
    (file : FileAt env.toNormalization (serverAfter env requests).world.db.fs path key record)
    (same : keyOfPath env.toNormalization (serverAfter env requests).world.db.fs path' = some key)
    (found : (serverAfter env requests).world.db.ver[rowKey record.id number]? = some row)
    (decoded : versionValueFromBytes row = some version) (asked : Option RequestedFileVersion)
    (data : Payload) :
    ReadsUnchanged env (serverAfter env requests).world
        ((append env ⟨some ⟨path', asked⟩, data⟩).run (serverAfter env requests).world).state path
        number ↔
      (asked.any fun asked => asked.major != record.latestVersion) = true ∨
        ∀ content,
          (serverAfter env requests).world.blobs[inBlobs (row.drop versionValueSize)]? =
            some content → data.bytes = [] ∨ OutOfReach version.length content := by
  have first := serverAfter_firstVersions env requests
  obtain ⟨_, named, call, keys, _, rfl⟩ := serverAfter_rowsDrawn env requests _ _ found
  obtain ⟨_, rfl⟩ := rowKey_inj keys
  rw [versionValueFromBytes_append, Option.some_inj] at decoded
  subst decoded
  have latest := first.latest file.there file.versioned
  have row := found
  rw [blobPath_eq_utf8, ← latest] at row
  rw [← latest, drop_versionValue_append, blobPath_eq_utf8]
  exact append_alike_iff file same (first.created found) row data

/-! ## A file that was uploaded in fragments -/

/-- The first of two fragments of a file. -/
def leadingFragment : UploadArg where
  target := some ⟨[['a']]⟩
  data := { bytes := [64] }
  incomplete := true

/-- The last of them. -/
def closingFragment : UploadArg where
  target := some ⟨[['a']]⟩
  data := { bytes := [65] }
  continuation := Ulid.toBytes 0

/-- The upload of a file in these fragments. -/
def uploadFragments : List Request := [.upload leadingFragment, .upload closingFragment]

/-- The world after it. -/
def fragmentedFile : World := (serverAfter (.numbered .unchanged) uploadFragments).world

/-- The record of the file. -/
def fragmentedRecord : FsRecordValue := newFileRecord (.numbered .unchanged) {} 0 3

/-- The row of its version, which records no length. -/
def fragmentedVersion : VersionRecordValue :=
  newFileVersion (.numbered .unchanged) closingFragment 3

theorem fragmentedFile_there : FileAt .unchanged fragmentedFile.db.fs [['a']]
    (entryKey rootFsid ['a']) fragmentedRecord where
  resolved := by decide
  there := ⟨_, rfl, by decide⟩
  versioned := rfl

/-- One byte more for it. -/
def longerFragments : AppendArg := { target := some ⟨[['a']], none⟩, data := { bytes := [66] } }

/-- **After an append to it, the version reads differently.** -/
theorem fragments_not_alike :
    ((download (.numbered .unchanged) (pageRequest [['a']] (some 1) 0 9)).run
        fragmentedFile).result = .ok ⟨[64, 65], false⟩ ∧
      ((download (.numbered .unchanged) (pageRequest [['a']] (some 1) 0 9)).run
        ((append (.numbered .unchanged) longerFragments).run fragmentedFile).state).result =
          .ok ⟨[64, 65, 66], false⟩ ∧
      ¬ ReadsUnchanged (.numbered .unchanged) fragmentedFile
        ((append (.numbered .unchanged) longerFragments).run fragmentedFile).state [['a']] 1 := by
  have before : ((download (.numbered .unchanged) (pageRequest [['a']] (some 1) 0 9)).run
      fragmentedFile).result = .ok ⟨[64, 65], false⟩ := by
    decide
  have after : ((download (.numbered .unchanged) (pageRequest [['a']] (some 1) 0 9)).run
      ((append (.numbered .unchanged) longerFragments).run fragmentedFile).state).result =
        .ok ⟨[64, 65, 66], false⟩ := by
    decide
  refine ⟨before, after, fun alike => ?_⟩
  have same := alike (.numbered .unchanged) rfl (fun _ => rfl) 0 9
  rw [before, after] at same
  exact absurd same (by decide)

theorem fragments_alike_iff : ¬ ReadsUnchanged (.numbered .unchanged) fragmentedFile
    ((append (.numbered .unchanged) longerFragments).run fragmentedFile).state [['a']] 1 := by
  have found : fragmentedFile.db.ver[rowKey fragmentedRecord.id 1]? =
      some (fragmentedVersion.bytesOf ++ blobPath 7) := by
    decide
  have condition := append_reads_alike_iff (.numbered .unchanged) uploadFragments
    fragmentedFile_there fragmentedFile_there.resolved found (versionValueFromBytes_append _ _) none
    longerFragments.data
  intro alike
  rcases condition.mp alike with other | within
  · exact absurd other (by decide)
  · have blob : fragmentedFile.blobs[inBlobs ((fragmentedVersion.bytesOf ++ blobPath 7).drop
        versionValueSize)]? = some [64, 65] := by
      decide
    exact absurd (within [64, 65] blob) (by decide)

end Yeetbox.Storage
