import Yeetbox.Storage.Entries
import Yeetbox.Storage.Pages

/-!
# The slice that a download returns

A download from a version of known length should return the requested bytes up to that length, and
never a byte beyond it. The end of the request is a sum of two numbers of the client, which wraps
around. A request whose end has 64 bits is served as it should be; one whose end wraps around is not
truncated, and reads on to the end of the blob, which may be past the recorded length
(`servesSlice_iff`).
-/

set_option autoImplicit false

namespace Yeetbox.Storage

open Library

/-- The requested bytes of a version, up to its length and the largest size of a read. -/
def sliceOf (recorded offset length : UInt64) (blob : Bytes) : Bytes :=
  blob.extract offset.toNat
    (min (offset.toNat + length.toNat) (min recorded.toNat (offset.toNat + maxReadSize)))

/-- An offset beyond the recorded length is refused, and from another one the slice is returned. -/
structure ReturnsSlice (env : Env) (world : World) (path : List Name)
    (requested : Option FsVersion) (recorded : UInt64) (blob : Bytes) (offset length : UInt64) :
    Prop where
  refused : recorded < offset →
    ((download env (pageRequest path requested offset length)).run world).result =
      .error (.invalidArgument "offset beyond end of file")
  served : offset ≤ recorded → ∃ more,
    ((download env (pageRequest path requested offset length)).run world).result =
      .ok ⟨sliceOf recorded offset length blob, more⟩

/-- The arithmetic of a request that is not refused stays within 64 bits: the end of the request,
and the rest up to the recorded length when the request is truncated to it. -/
structure StepsFit (recorded offset length : UInt64) : Prop where
  sum : offset ≤ recorded → offset.toNat + length.toNat < 2 ^ 64
  difference : offset ≤ recorded → recorded < offset + length → offset.toNat ≤ recorded.toNat

/-- The slice is returned, no step overflows or underflows, and no byte at or after the recorded
length is returned. -/
structure ServesSlice (env : Env) (world : World) (path : List Name)
    (requested : Option FsVersion) (recorded : UInt64) (blob : Bytes) (offset length : UInt64) :
    Prop where
  slice : ReturnsSlice env world path requested recorded blob offset length
  steps : StepsFit recorded offset length
  within : ∀ data more,
    ((download env (pageRequest path requested offset length)).run world).result =
      .ok ⟨data, more⟩ → offset.toNat + data.length ≤ recorded.toNat

variable {env : Env} {world : World} {path : List Name} {requested : Option FsVersion}
  {recorded offset length : UInt64} {blob : Bytes}

theorem sliceOf_eq_take (recorded offset length : UInt64) (blob : Bytes) :
    sliceOf recorded offset length blob = (blob.drop offset.toNat).take
      (min (offset.toNat + length.toNat) (min recorded.toNat (offset.toNat + maxReadSize)) -
        offset.toNat) := by
  rw [sliceOf, List.extract_eq_take_drop]

/-- A slice ends at the recorded length at the latest. -/
theorem length_sliceOf_le (inside : offset ≤ recorded) :
    offset.toNat + (sliceOf recorded offset length blob).length ≤ recorded.toNat := by
  have atMost := UInt64.le_iff_toNat_le.mp inside
  rw [sliceOf_eq_take, List.length_take]
  omega

/-- The end of a request that does not wrap around. -/
theorem bufferSize_of_sum (known : recorded ≠ unknownSize) (inside : offset ≤ recorded)
    (fits : offset.toNat + length.toNat < 2 ^ 64) :
    bufferSize recorded offset length =
      min (offset.toNat + length.toNat) (min recorded.toNat (offset.toNat + maxReadSize)) -
        offset.toNat := by
  have atMost := UInt64.le_iff_toNat_le.mp inside
  have sum : (offset + length).toNat = offset.toNat + length.toNat := by
    rw [UInt64.toNat_add, Nat.mod_eq_of_lt fits]
  by_cases past : recorded.toNat < (offset + length).toNat
  · rw [bufferSize_truncated known past atMost]
    omega
  · rw [bufferSize_whole (.inr (Nat.not_lt.mp past))]
    omega

/-- The buffer of a request whose end wraps around is as large as a buffer can be. -/
theorem bufferSize_of_wrap (inside : offset ≤ recorded) (small : offset.toNat < 2 ^ 63)
    (wraps : 2 ^ 64 ≤ offset.toNat + length.toNat) :
    bufferSize recorded offset length = maxReadSize := by
  have atMost := UInt64.le_iff_toNat_le.mp inside
  have range := length.toNat_lt
  have limit : maxReadSize < 2 ^ 63 := by decide
  have sum : (offset + length).toNat ≤ recorded.toNat := by
    rw [UInt64.toNat_add]
    omega
  rw [bufferSize_whole (.inr sum)]
  omega

/-- From an offset inside the version, the slice is what the buffer holds of the blob. -/
theorem returnsSlice_iff_buffer
    (readable : ReadableVersion env world path requested recorded blob)
    (inside : offset ≤ recorded) (small : offset.toNat < 2 ^ 63)
    (whole : ∀ size, env.read world.calls size = size) :
    ReturnsSlice env world path requested recorded blob offset length ↔
      min (bufferSize recorded offset length) (blob.length - offset.toNat) =
        min (min (offset.toNat + length.toNat) (min recorded.toNat (offset.toNat + maxReadSize)) -
          offset.toNat) (blob.length - offset.toNat) := by
  obtain ⟨flag, page⟩ : ∃ flag,
      ((download env (pageRequest path requested offset length)).run world).result =
        .ok ⟨(blob.drop offset.toNat).take (min (bufferSize recorded offset length)
          (blob.drop offset.toNat).length), flag⟩ := by
    rw [readable.page_at (.inr inside) small, pageSize, whole]
    exact ⟨_, rfl⟩
  constructor
  · intro returns
    obtain ⟨more, served⟩ := returns.served inside
    rw [page, sliceOf_eq_take] at served
    have same := congrArg List.length
      ((DownloadResult.mk.injEq ..).mp (Except.ok.inj served)).1
    rw [List.length_take, List.length_take, List.length_drop] at same
    omega
  · intro same
    refine ⟨fun beyond => absurd inside (UInt64.not_le.mpr beyond), fun _ => ⟨flag, ?_⟩⟩
    have slice : (blob.drop offset.toNat).take (min (bufferSize recorded offset length)
        (blob.drop offset.toNat).length) = sliceOf recorded offset length blob := by
      rw [sliceOf_eq_take, List.take_eq_take_iff, List.length_drop]
      omega
    rw [page, slice]

/-- **The slice is returned exactly when the offset is refused, or it is one to seek to and the end
of the request does not wrap around or does not matter.** -/
theorem returnsSlice_iff (readable : ReadableVersion env world path requested recorded blob)
    (known : recorded ≠ unknownSize) (enough : recorded.toNat ≤ blob.length)
    (whole : ∀ size, env.read world.calls size = size) :
    ReturnsSlice env world path requested recorded blob offset length ↔
      recorded < offset ∨ (offset.toNat < 2 ^ 63 ∧
        (offset.toNat + length.toNat < 2 ^ 64 ∨ blob.length = recorded.toNat ∨
          offset.toNat + maxReadSize ≤ recorded.toNat)) := by
  by_cases beyond : recorded < offset
  · refine iff_of_true ⟨fun _ => ?_, fun inside => ?_⟩ (.inl beyond)
    · rw [readable.refused known beyond]
    · exact absurd inside (UInt64.not_le.mpr beyond)
  have inside := UInt64.not_lt.mp beyond
  have atMost := UInt64.le_iff_toNat_le.mp inside
  rw [or_iff_right beyond]
  by_cases small : offset.toNat < 2 ^ 63
  · rw [and_iff_right small, returnsSlice_iff_buffer readable inside small whole]
    by_cases fits : offset.toNat + length.toNat < 2 ^ 64
    · rw [bufferSize_of_sum known inside fits]
      exact iff_of_true rfl (.inl fits)
    · have wraps := Nat.not_lt.mp fits
      have range := length.toNat_lt
      have limit : maxReadSize < 2 ^ 63 := by decide
      rw [bufferSize_of_wrap inside small wraps, or_iff_right fits]
      omega
  · refine iff_of_false (fun returns => ?_) fun both => small both.1
    obtain ⟨more, served⟩ := returns.served inside
    exact readable.no_page (Nat.not_lt.mp small) _ served

/-- **A download serves its slice without an overflow exactly when the offset is refused, or it is
one to seek to and the end of the request does not wrap around.** What is returned is right also
when the end wraps around but the blob ends at the recorded length, or a largest read does not reach
it. -/
theorem servesSlice_iff (readable : ReadableVersion env world path requested recorded blob)
    (known : recorded ≠ unknownSize) (enough : recorded.toNat ≤ blob.length)
    (whole : ∀ size, env.read world.calls size = size) :
    (ServesSlice env world path requested recorded blob offset length ↔
      recorded < offset ∨ (offset.toNat + length.toNat < 2 ^ 64 ∧ offset.toNat < 2 ^ 63)) ∧
    (ReturnsSlice env world path requested recorded blob offset length ↔
      recorded < offset ∨ (offset.toNat < 2 ^ 63 ∧
        (offset.toNat + length.toNat < 2 ^ 64 ∨ blob.length = recorded.toNat ∨
          offset.toNat + maxReadSize ≤ recorded.toNat))) := by
  have returns := @returnsSlice_iff _ _ _ _ _ offset length _ readable known enough whole
  refine ⟨?_, returns⟩
  constructor
  · intro serves
    by_cases beyond : recorded < offset
    · exact .inl beyond
    · have small := ((returns.mp serves.slice).resolve_left beyond).1
      exact .inr ⟨serves.steps.sum (UInt64.not_lt.mp beyond), small⟩
  · intro condition
    have slice := returns.mpr (condition.imp_right fun both => ⟨both.2, .inl both.1⟩)
    refine ⟨slice, ⟨fun inside => ?_, fun inside _ => UInt64.le_iff_toNat_le.mp inside⟩, ?_⟩
    · exact (condition.resolve_left (UInt64.not_lt.mpr inside)).1
    · intro data more served
      by_cases beyond : recorded < offset
      · rw [slice.refused beyond] at served
        cases served
      · have inside := UInt64.not_lt.mp beyond
        obtain ⟨_, page⟩ := slice.served inside
        cases served.symm.trans page
        exact length_sliceOf_le inside

/-! ## A file that was appended to -/

/-- One byte appended to the file of two bytes. -/
def appendOneByte : AppendArg := { target := some ⟨[['a']], none⟩, data := { bytes := [63] } }

/-- The world after it: the recorded length is still 2. -/
def longerFile : World :=
  (serverAfter (.numbered .unchanged) [.upload uploadOneFile, .append appendOneByte]).world

theorem longerFile_readable :
    ReadableVersion (.numbered .unchanged) longerFile [['a']] (some 1) 2 [1, 2, 63] where
  created := rfl
  row := ⟨entryKey rootFsid ['a'], oneFileRecord,
    newFileVersion (.numbered .unchanged) uploadOneFile 2, blobsPath ++ '/' :: blobFileName 0,
    by decide, ⟨_, rfl, by decide⟩, rfl, by decide, rfl, by decide⟩

/-- **A request whose end wraps around gets a byte past the recorded length.** -/
theorem longerFile_past_end :
    ReadableVersion (.numbered .unchanged) longerFile [['a']] (some 1) 2 [1, 2, 63] ∧
      ((download (.numbered .unchanged)
        (pageRequest [['a']] (some 1) 1 0xFFFFFFFFFFFFFFFF)).run longerFile).result =
          .ok ⟨[2, 63], false⟩ ∧
      ¬ ServesSlice (.numbered .unchanged) longerFile [['a']] (some 1) 2 [1, 2, 63] 1
        0xFFFFFFFFFFFFFFFF := by
  have served : ((download (.numbered .unchanged)
      (pageRequest [['a']] (some 1) 1 0xFFFFFFFFFFFFFFFF)).run longerFile).result =
        .ok ⟨[2, 63], false⟩ := by
    decide
  refine ⟨longerFile_readable, served, fun serves => ?_⟩
  exact absurd (serves.within _ _ served) (by decide)

theorem longerFile_slice : ServesSlice (.numbered .unchanged) longerFile [['a']] (some 1) 2
    [1, 2, 63] 1 5 :=
  (servesSlice_iff longerFile_readable (by decide) (by decide) fun _ => rfl).1.mpr
    (.inr ⟨by decide, by decide⟩)

end Yeetbox.Storage
