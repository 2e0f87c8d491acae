import Yeetbox.Storage.Entries
import Yeetbox.Storage.Pages

/-!
# Reading page after page

A client reads a file by downloads from rising offsets, and goes on as long as `more` is set. The
flag should say whether there is more data after the page. The server sets it when the read filled
the buffer, and truncates the buffer to the recorded length first: the last page of a file of known
length fills its buffer, and so does every page that ends exactly where the file ends. The flag is
right at every offset, and the client reads the whole file, exactly when the recorded length lies
beyond the end of the blob (as `UNKNOWN_SIZE` does), the whole file is shorter than the buffer, and
no read is short (`pagedDownload_iff`).
-/

set_option autoImplicit false

namespace Yeetbox.Storage

open Library Handler

variable (env : Env)

/-- The client loop from an offset on: what the pages have given when the server says that there is
no more. -/
inductive PagedRead (path : List Name) (requested : Option FsVersion) (length : UInt64) :
    World → UInt64 → Bytes → Prop where
  | last (world : World) (offset : UInt64) (data : Bytes)
      (served : ((download env (pageRequest path requested offset length)).run world).result =
        .ok ⟨data, false⟩) : PagedRead path requested length world offset data
  | next (world : World) (offset : UInt64) (data rest : Bytes)
      (served : ((download env (pageRequest path requested offset length)).run world).result =
        .ok ⟨data, true⟩)
      (onwards : PagedRead path requested length
        ((download env (pageRequest path requested offset length)).run world).state
        (offset + .ofNat data.length) rest) :
      PagedRead path requested length world offset (data ++ rest)

/-- The flag is right at every offset up to the end, and the loop of the client ends with the whole
content. -/
structure PagedDownload (world : World) (path : List Name) (requested : Option FsVersion)
    (length : UInt64) (content : Bytes) : Prop where
  flag : ∀ offset : UInt64, offset.toNat ≤ content.length → ∃ data more,
    ((download env (pageRequest path requested offset length)).run world).result =
      .ok ⟨data, more⟩ ∧ (more = true ↔ offset.toNat + data.length < content.length)
  loop : PagedRead env path requested length world 0 content

/-- The recorded length is beyond the end of the blob, the whole blob is shorter than the buffer,
and no read of it is short. -/
structure ReadAtOnce (world : World) (recorded : UInt64) (blob : Bytes) (length : UInt64) :
    Prop where
  beyond : recorded = unknownSize ∨ blob.length < recorded.toNat
  short : (contentOf recorded blob).length < min length.toNat maxReadSize
  whole : ∀ size ≤ (contentOf recorded blob).length, env.read world.calls size = size

/-! ## The buffer at the end of the content -/

section Buffer

variable {recorded offset length : UInt64} {blob : Bytes}

/-- Where as many bytes are left as the buffer could hold, it holds exactly these. -/
theorem bufferSize_at_end (inside : offset.toNat ≤ (contentOf recorded blob).length)
    (rest : (contentOf recorded blob).length - offset.toNat = min length.toNat maxReadSize) :
    bufferSize recorded offset length = min length.toNat maxReadSize := by
  by_cases truncated : recorded ≠ unknownSize ∧ recorded.toNat < (offset + length).toNat
  · obtain ⟨known, past⟩ := truncated
    have atMost := offset_le_recorded known inside
    rw [bufferSize_truncated known past atMost]
    rw [contentOf, if_neg known, List.length_take] at rest
    rw [UInt64.toNat_add] at past
    have sum := Nat.mod_le (offset.toNat + length.toNat) (2 ^ 64)
    omega
  · refine bufferSize_whole ?_
    rcases Classical.em (recorded = unknownSize) with unknown | known
    · exact .inl unknown
    · exact .inr (Nat.not_lt.mp fun past => truncated ⟨known, past⟩)

/-- Where the content is shorter than the buffer could be and the recorded length lies beyond it,
the buffer is larger than what is left. -/
theorem lt_bufferSize (beyond : recorded = unknownSize ∨ blob.length < recorded.toNat)
    (inside : offset.toNat ≤ (contentOf recorded blob).length)
    (short : (contentOf recorded blob).length < min length.toNat maxReadSize) :
    (contentOf recorded blob).length - offset.toNat < bufferSize recorded offset length := by
  by_cases truncated : recorded ≠ unknownSize ∧ recorded.toNat < (offset + length).toNat
  · obtain ⟨known, past⟩ := truncated
    have atMost := offset_le_recorded known inside
    have longer := beyond.resolve_left known
    have upTo := contentOf_length_le recorded blob
    rw [bufferSize_truncated known past atMost]
    omega
  · rw [bufferSize_whole]
    · omega
    · rcases Classical.em (recorded = unknownSize) with unknown | known
      · exact .inl unknown
      · exact .inr (Nat.not_lt.mp fun past => truncated ⟨known, past⟩)

end Buffer

/-! ## All pages -/

variable {env}

section Pages

variable {world : World} {path : List Name} {requested : Option FsVersion} {recorded : UInt64}
  {blob : Bytes} {length : UInt64}

/-- Where the flag is right, the buffer is filled exactly when there is more. -/
theorem PagedDownload.right (readable : ReadableVersion env world path requested recorded blob)
    (paged : PagedDownload env world path requested length (contentOf recorded blob))
    {offset : UInt64} (inside : offset.toNat ≤ (contentOf recorded blob).length) :
    pageSize env world recorded blob offset length = bufferSize recorded offset length ↔
      offset.toNat + pageSize env world recorded blob offset length <
        (contentOf recorded blob).length := by
  obtain ⟨data, more, served, right⟩ := paged.flag offset inside
  have small : offset.toNat < 2 ^ 63 := by
    by_contra large
    exact readable.no_page (Nat.not_lt.mp large) _ served
  rw [readable.page inside small] at served
  cases served
  rwa [length_page, beq_iff_eq] at right

/-- The flag is wrong where the buffer holds exactly what is left. -/
theorem PagedDownload.not_exactly
    (readable : ReadableVersion env world path requested recorded blob)
    (paged : PagedDownload env world path requested length (contentOf recorded blob))
    {offset : UInt64} (inside : offset.toNat ≤ (contentOf recorded blob).length) :
    bufferSize recorded offset length ≠ (contentOf recorded blob).length - offset.toNat := by
  intro exactly
  have right := paged.right readable inside
  have atMost := pageSize_le env world recorded blob offset length
  omega

theorem PagedDownload.small (readable : ReadableVersion env world path requested recorded blob)
    (paged : PagedDownload env world path requested length (contentOf recorded blob)) :
    (contentOf recorded blob).length < 2 ^ 63 := by
  by_contra large
  have inside : (UInt64.ofNat (2 ^ 63)).toNat ≤ (contentOf recorded blob).length :=
    Nat.not_lt.mp large
  obtain ⟨data, more, served, _⟩ := paged.flag _ inside
  exact readable.no_page (Nat.le_refl _) _ served

/-- **A client reads a whole file only at once.** -/
theorem PagedDownload.readAtOnce
    (readable : ReadableVersion env world path requested recorded blob)
    (paged : PagedDownload env world path requested length (contentOf recorded blob)) :
    ReadAtOnce env world recorded blob length := by
  have small := paged.small readable
  have at_offset : ∀ rest ≤ (contentOf recorded blob).length,
      (UInt64.ofNat ((contentOf recorded blob).length - rest)).toNat =
        (contentOf recorded blob).length - rest := by
    intro rest fits
    exact UInt64.toNat_ofNat_of_lt' (by rw [UInt64.size]; omega)
  have short : (contentOf recorded blob).length < min length.toNat maxReadSize := by
    by_contra long
    -- From here on, as many bytes are left as the buffer could hold.
    have offset := at_offset (min length.toNat maxReadSize) (Nat.not_lt.mp long)
    have inside : (UInt64.ofNat ((contentOf recorded blob).length -
        min length.toNat maxReadSize)).toNat ≤ (contentOf recorded blob).length := by
      omega
    refine paged.not_exactly readable inside ?_
    rw [bufferSize_at_end inside] <;> omega
  have beyond : recorded = unknownSize ∨ blob.length < recorded.toNat := by
    by_contra ends
    rw [not_or, Nat.not_lt] at ends
    obtain ⟨known, notLonger⟩ := ends
    have exactly : (contentOf recorded blob).length = recorded.toNat := by
      rw [contentOf, if_neg known, List.length_take]
      omega
    -- The first page is truncated to the recorded length.
    have start : (0 : UInt64).toNat = 0 := rfl
    have past : recorded.toNat < ((0 : UInt64) + length).toNat := by
      rw [UInt64.zero_add]
      omega
    have inside : (0 : UInt64).toNat ≤ (contentOf recorded blob).length := Nat.zero_le _
    refine paged.not_exactly readable inside ?_
    rw [bufferSize_truncated known past (Nat.zero_le _)]
    omega
  refine ⟨beyond, short, fun size fits => ?_⟩
  have offset := at_offset size fits
  have inside : (UInt64.ofNat ((contentOf recorded blob).length - size)).toNat ≤
      (contentOf recorded blob).length := by
    omega
  have right := paged.right readable inside
  have larger := lt_bufferSize beyond inside short
  have content := congrArg List.length (contentOf_of_beyond beyond)
  have available : min (bufferSize recorded (.ofNat ((contentOf recorded blob).length - size))
      length) (blob.drop (UInt64.ofNat ((contentOf recorded blob).length - size)).toNat).length =
        size := by
    rw [List.length_drop]
    omega
  have atMost := env.read_le world.calls size
  rw [pageSize, available] at right
  omega

/-- **A client that reads a file at once reads the whole file.** -/
theorem ReadAtOnce.pagedDownload
    (readable : ReadableVersion env world path requested recorded blob)
    (once : ReadAtOnce env world recorded blob length) :
    PagedDownload env world path requested length (contentOf recorded blob) := by
  have content := contentOf_of_beyond once.beyond
  have long := congrArg List.length content
  have limit : maxReadSize < 2 ^ 63 := by decide
  have pages : ∀ offset : UInt64, offset.toNat ≤ (contentOf recorded blob).length →
      ((download env (pageRequest path requested offset length)).run world).result =
        .ok ⟨blob.drop offset.toNat, false⟩ := by
    intro offset inside
    have short := once.short
    have larger := lt_bufferSize once.beyond inside short
    have available : min (bufferSize recorded offset length) (blob.drop offset.toNat).length =
        (blob.drop offset.toNat).length := by
      rw [List.length_drop]
      omega
    have whole : pageSize env world recorded blob offset length =
        (blob.drop offset.toNat).length := by
      rw [pageSize, available]
      exact once.whole _ (by rw [List.length_drop, content]; exact Nat.sub_le _ _)
    have notFull : (blob.drop offset.toNat).length ≠ bufferSize recorded offset length := by
      rw [List.length_drop]
      omega
    rw [readable.page inside (by omega), whole, List.take_length, beq_false_of_ne notFull]
  constructor
  · intro offset inside
    refine ⟨_, false, pages offset inside, ?_⟩
    rw [List.length_drop]
    constructor
    · intro more
      cases more
    · intro more
      omega
  · rw [content]
    exact .last world 0 blob (pages 0 (Nat.zero_le _))

/-- **The flag is right at every offset, and the loop of a client ends with the whole content,
exactly when the client reads the whole content at once.** -/
theorem pagedDownload_iff (env : Env) (world : World) (path : List Name)
    (requested : Option FsVersion) (recorded : UInt64) (blob : Bytes) (length : UInt64)
    (readable : ReadableVersion env world path requested recorded blob) :
    PagedDownload env world path requested length (contentOf recorded blob) ↔
      ReadAtOnce env world recorded blob length :=
  ⟨fun paged => paged.readAtOnce readable, fun once => once.pagedDownload readable⟩

end Pages

/-- The first of two fragments of a file. -/
def firstFragment : UploadArg where
  target := some ⟨[['a']]⟩
  data := { bytes := [41] }
  incomplete := true

/-- The last of them. -/
def lastFragment : UploadArg where
  target := some ⟨[['a']]⟩
  data := { bytes := [42] }
  continuation := Ulid.toBytes 0

/-- The file, whose length is not recorded. -/
def fileInFragments : World :=
  (serverAfter (.numbered .unchanged) [.upload firstFragment, .upload lastFragment]).world

theorem fileInFragments_readable :
    ReadableVersion (.numbered .unchanged) fileInFragments [['a']] none unknownSize [41, 42] where
  created := rfl
  row := ⟨entryKey rootFsid ['a'], newFileRecord (.numbered .unchanged) {} 0 3,
    newFileVersion (.numbered .unchanged) lastFragment 3, blobsPath ++ '/' :: blobFileName 7,
    by decide, ⟨_, rfl, by decide⟩, by decide, by decide, rfl, by decide⟩

theorem fileInFragments_pagedDownload_iff :
    PagedDownload (.numbered .unchanged) fileInFragments [['a']] none 3
        (contentOf unknownSize [41, 42]) ↔
      ReadAtOnce (.numbered .unchanged) fileInFragments unknownSize [41, 42] 3 :=
  pagedDownload_iff _ fileInFragments [['a']] none unknownSize [41, 42] 3 fileInFragments_readable

theorem oneFile_readable :
    ReadableVersion (.numbered .unchanged) oneFile [['a']] none 2 [1, 2] where
  created := rfl
  row := ⟨entryKey rootFsid ['a'], oneFileRecord,
    newFileVersion (.numbered .unchanged) uploadOneFile 2, blobsPath ++ '/' :: blobFileName 0,
    by decide, oneFile_there.there, rfl, by decide, rfl, by decide⟩

/-- **The first page of a file of two bytes is the whole file, and says that there is more.** -/
theorem oneFile_no_pagedDownload :
    ReadableVersion (.numbered .unchanged) oneFile [['a']] none 2 [1, 2] ∧
      ((download (.numbered .unchanged) (pageRequest [['a']] none 0 2)).run oneFile).result =
        .ok ⟨[1, 2], true⟩ ∧
      ¬ PagedDownload (.numbered .unchanged) oneFile [['a']] none 2 (contentOf 2 [1, 2]) := by
  have served : ((download (.numbered .unchanged) (pageRequest [['a']] none 0 2)).run
      oneFile).result = .ok ⟨[1, 2], true⟩ := by
    decide
  refine ⟨oneFile_readable, served, fun paged => ?_⟩
  obtain ⟨data, more, page, right⟩ := paged.flag 0 (Nat.zero_le _)
  cases served.symm.trans page
  exact absurd (right.mp rfl) (by decide)

end Yeetbox.Storage
