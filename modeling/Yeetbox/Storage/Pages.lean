import Yeetbox.Storage.Download

/-!
# Pages of a version

A download reads one page of the version that it asks for: a buffer of at most the requested length,
which the recorded length truncates, is filled from the offset on (`ReadableVersion.page_at`). An
offset beyond the recorded length is refused, and so is one that is negative as an `i64`.
-/

set_option autoImplicit false

namespace Yeetbox.Storage

open Library Handler

variable (env : Env)

/-- The content of a version: its blob, up to the recorded length if there is one. -/
def contentOf (recorded : UInt64) (blob : Bytes) : Bytes :=
  if recorded = unknownSize then blob else blob.take recorded.toNat

/-- A path resolves to a readable file; the requested version has a row with a recorded length and
the name of a blob that is there. -/
structure ReadableVersion (world : World) (path : List Name) (requested : Option FsVersion)
    (recorded : UInt64) (blob : Bytes) : Prop where
  created : world.db.verCreated = true
  row : ∃ (fileKey : Bytes) (record : FsRecordValue) (version : VersionRecordValue) (shown : Name),
    keyOfPath env.toNormalization world.db.fs path = some fileKey ∧
    RecordAt world.db.fs fileKey record ∧ isReadableObjType record.type = true ∧
    world.db.ver[rowKey record.id (requested.getD record.latestVersion)]? =
      some (version.bytesOf ++ utf8 shown) ∧
    version.length = recorded ∧ world.blobs[inBlobs (utf8 shown)]? = some blob

/-- The download of a page. -/
def pageRequest (path : List Name) (requested : Option FsVersion) (offset length : UInt64) :
    DownloadArg where
  target := some ⟨path, requested.map RequestedFileVersion.mk⟩
  offset := offset
  length := length

/-! ## The size of the buffer -/

/-- The size of the buffer that `download` reads into. -/
def bufferSize (recorded offset length : UInt64) : ℕ :=
  min (if recorded != unknownSize && offset + length > recorded then recorded - offset
    else length).toNat maxReadSize

section Buffer

variable {recorded offset length : UInt64} {blob : Bytes}

/-- Up to the end of the content an offset is not beyond the recorded length. -/
theorem offset_le_recorded (known : recorded ≠ unknownSize)
    (inside : offset.toNat ≤ (contentOf recorded blob).length) : offset.toNat ≤ recorded.toNat := by
  rw [contentOf, if_neg known, List.length_take] at inside
  omega

theorem contentOf_length_le (recorded : UInt64) (blob : Bytes) :
    (contentOf recorded blob).length ≤ blob.length := by
  rw [contentOf]
  split
  · exact Nat.le_refl _
  · rw [List.length_take]
    exact Nat.min_le_right _ _

theorem contentOf_of_beyond (beyond : recorded = unknownSize ∨ blob.length < recorded.toNat) :
    contentOf recorded blob = blob := by
  rw [contentOf]
  split
  · rfl
  · rename_i known
    exact List.take_of_length_le (beyond.resolve_left known).le

/-- The buffer is truncated to the rest of a recorded length. -/
theorem bufferSize_truncated (known : recorded ≠ unknownSize)
    (past : recorded.toNat < (offset + length).toNat) (inside : offset.toNat ≤ recorded.toNat) :
    bufferSize recorded offset length = min (recorded.toNat - offset.toNat) maxReadSize := by
  have condition : (recorded != unknownSize && decide (offset + length > recorded)) = true := by
    rw [Bool.and_eq_true, bne_iff_ne, decide_eq_true_eq]
    exact ⟨known, UInt64.lt_iff_toNat_lt.mpr past⟩
  rw [bufferSize, if_pos condition,
    UInt64.toNat_sub_of_le _ _ (UInt64.le_iff_toNat_le.mpr inside)]

theorem bufferSize_whole
    (fits : recorded = unknownSize ∨ (offset + length).toNat ≤ recorded.toNat) :
    bufferSize recorded offset length = min length.toNat maxReadSize := by
  have condition : ¬ (recorded != unknownSize && decide (offset + length > recorded)) = true := by
    rw [Bool.and_eq_true, bne_iff_ne, decide_eq_true_eq, gt_iff_lt, UInt64.lt_iff_toNat_lt]
    rintro ⟨known, past⟩
    exact (fits.resolve_left known).not_gt past
  rw [bufferSize, if_neg condition]

end Buffer

/-! ## One page -/

variable {env}

section Page

variable {world : World} {path : List Name} {requested : Option FsVersion} {recorded : UInt64}
  {blob : Bytes} {offset length : UInt64}

/-- How many bytes a page reads. -/
def pageSize (env : Env) (world : World) (recorded : UInt64) (blob : Bytes)
    (offset length : UInt64) : ℕ :=
  env.read world.calls
    (min (bufferSize recorded offset length) (blob.drop offset.toNat).length)

@[simp] theorem length_page (env : Env) (world : World) (recorded : UInt64) (blob : Bytes)
    (offset length : UInt64) : ((blob.drop offset.toNat).take
      (pageSize env world recorded blob offset length)).length =
        pageSize env world recorded blob offset length := by
  rw [List.length_take]
  exact Nat.min_eq_left ((env.read_le _ _).trans (Nat.min_le_right _ _))

/-- The download of a page goes on with the row of the version. -/
theorem ReadableVersion.run_version
    (readable : ReadableVersion env world path requested recorded blob)
    (offset length : UInt64) : ∃ (version : VersionRecordValue) (shown : Name),
      version.length = recorded ∧
      world.blobs[inBlobs (utf8 shown)]? = some blob ∧
      (download env (pageRequest path requested offset length)).run world =
        (downloadVersion env offset length (version.bytesOf ++ utf8 shown)).run world := by
  obtain ⟨created, fileKey, record, version, shown, resolved, there, type, row, long, opened⟩ :=
    readable
  have asked : (requested.map RequestedFileVersion.mk).map RequestedFileVersion.major =
      requested := by
    cases requested <;> rfl
  have targeted : (pageRequest path requested offset length).target =
      some ⟨path, requested.map RequestedFileVersion.mk⟩ := rfl
  refine ⟨version, shown, long, opened, ?_⟩
  exact run_download env targeted resolved there type created (by rw [asked]; exact row)

/-- An offset beyond a recorded length is refused. -/
theorem ReadableVersion.refused (readable : ReadableVersion env world path requested recorded blob)
    (known : recorded ≠ unknownSize) (beyond : recorded < offset) :
    (download env (pageRequest path requested offset length)).run world =
      ⟨.error (.invalidArgument "offset beyond end of file"), world, []⟩ := by
  obtain ⟨version, shown, rfl, opened, ran⟩ := readable.run_version offset length
  have positive : offset > 0 := by
    rw [UInt64.lt_iff_toNat_lt] at beyond
    rw [gt_iff_lt, UInt64.lt_iff_toNat_lt, UInt64.toNat_zero]
    omega
  have check : (decide (offset > 0) && version.length != unknownSize &&
      decide (offset > version.length)) = true := by
    simp [positive, known, beyond]
  rw [ran, downloadVersion, versionValueFromBytes_append, run_orFail_some_bind]
  dsimp only
  rw [check]
  rfl

section NotBeyond

variable (readable : ReadableVersion env world path requested recorded blob)
  (notBeyond : recorded = unknownSize ∨ offset ≤ recorded)

include readable notBeyond

/-- A download from an offset that is not beyond the recorded length opens the blob. -/
theorem ReadableVersion.run_opened :
    (download env (pageRequest path requested offset length)).run world =
      (do
        if offset > 0 then seek offset else pure ()
        let data ← read env (bufferSize recorded offset length) (blob.drop offset.toNat)
        pure ⟨data, data.length == bufferSize recorded offset length⟩ :
          Op DownloadResult).run world := by
  obtain ⟨version, shown, rfl, opened, ran⟩ := readable.run_version offset length
  have check : (decide (offset > 0) && version.length != unknownSize &&
      decide (offset > version.length)) = false := by
    rcases notBeyond with unknown | atMost
    · simp [unknown]
    · have notGreater : ¬ offset > version.length := by
        rw [gt_iff_lt, UInt64.lt_iff_toNat_lt]
        exact (UInt64.le_iff_toNat_le.mp atMost).not_gt
      simp [notGreater]
  rw [ran, downloadVersion, versionValueFromBytes_append, run_orFail_some_bind]
  dsimp only
  rw [check, run_rejectIf_false_bind, drop_versionValue_append, run_fromUtf8Unchecked_bind_utf8,
    run_openExisting_bind_found opened]
  rfl

/-- **A page, and its flag.** -/
theorem ReadableVersion.page_at (small : offset.toNat < 2 ^ 63) :
    (download env (pageRequest path requested offset length)).run world =
      ⟨.ok ⟨(blob.drop offset.toNat).take (pageSize env world recorded blob offset length),
        pageSize env world recorded blob offset length == bufferSize recorded offset length⟩,
        world.advance 1, []⟩ := by
  have seeks : decide (2 ^ 63 ≤ offset.toNat) = false := by
    rw [decide_eq_false_iff_not]
    omega
  have flag : (pageSize env world recorded blob offset length ==
      bufferSize recorded offset length) =
        (((blob.drop offset.toNat).take (pageSize env world recorded blob offset
          length)).length == bufferSize recorded offset length) := by
    rw [length_page]
  rw [readable.run_opened notBeyond, flag, seek, seeks]
  split <;> rfl

/-- No page is read from an offset that is negative as an `i64`. -/
theorem ReadableVersion.not_seekable (large : 2 ^ 63 ≤ offset.toNat) :
    (download env (pageRequest path requested offset length)).run world =
      ⟨.error (.invalidArgument "Invalid argument (os error 22)"), world, []⟩ := by
  have positive : offset > 0 := by
    rw [gt_iff_lt, UInt64.lt_iff_toNat_lt, UInt64.toNat_zero]
    omega
  have seeks : decide (2 ^ 63 ≤ offset.toNat) = true := decide_eq_true large
  rw [readable.run_opened notBeyond, if_pos positive, seek, seeks]
  rfl

end NotBeyond

/-- **A page inside the file, and its flag.** -/
theorem ReadableVersion.page (readable : ReadableVersion env world path requested recorded blob)
    (inside : offset.toNat ≤ (contentOf recorded blob).length) (small : offset.toNat < 2 ^ 63) :
    (download env (pageRequest path requested offset length)).run world =
      ⟨.ok ⟨(blob.drop offset.toNat).take (pageSize env world recorded blob offset length),
        pageSize env world recorded blob offset length == bufferSize recorded offset length⟩,
        world.advance 1, []⟩ := by
  refine readable.page_at ?_ small
  rcases Classical.em (recorded = unknownSize) with unknown | known
  · exact .inl unknown
  · exact .inr (UInt64.le_iff_toNat_le.mpr (offset_le_recorded known inside))

/-- No page is read from an offset that is negative as an `i64`. -/
theorem ReadableVersion.no_page
    (readable : ReadableVersion env world path requested recorded blob)
    (large : 2 ^ 63 ≤ offset.toNat) (result : DownloadResult) :
    ((download env (pageRequest path requested offset length)).run world).result ≠ .ok result := by
  by_cases notBeyond : recorded = unknownSize ∨ offset ≤ recorded
  · rw [readable.not_seekable notBeyond large]
    exact fun same => by cases same
  · rw [not_or, UInt64.not_le] at notBeyond
    rw [readable.refused notBeyond.1 notBeyond.2]
    exact fun same => by cases same

end Page

theorem pageSize_le (env : Env) (world : World) (recorded : UInt64) (blob : Bytes)
    (offset length : UInt64) : pageSize env world recorded blob offset length ≤
      min (bufferSize recorded offset length) (blob.length - offset.toNat) := by
  rw [pageSize, List.length_drop]
  exact env.read_le _ _

end Yeetbox.Storage
