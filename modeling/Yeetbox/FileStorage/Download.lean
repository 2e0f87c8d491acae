import Yeetbox.FileStorage.Links
import Yeetbox.FileStorage.Upload

/-!
# Downloading from the file driver

A download opens the link to the latest version, which leads to a file, and reads a page of it; a
download of a version opens a path under `_vers`, where no upload puts anything. What is found at
paths that lead neither to the link nor to a version is not part of the directory of a stored file,
and stays open here. `run_download` says what a download of the latest version returns.
-/

set_option autoImplicit false

namespace Yeetbox.FileStorage

open Library Storage Handler

def versionsDirName : Name := ['_', 'v', 'e', 'r', 's']

def latestFileName : Name := ['_', 'l', 'a', 't', 'e', 's', 't']

def maxReadSize : ℕ := 8 * 1024 * 1024

structure RequestedFileVersion where
  major : UInt64
  minor : Option UInt64 := none

/-- A version of a file by its path; a path is bytes here. -/
structure RequestedFileId where
  path : List Bytes
  version : Option RequestedFileVersion := none

structure DownloadArg where
  target : Option RequestedFileId
  offset : UInt64 := 0
  length : UInt64 := 0

/-- What is found when paths are opened that lead to nothing of a stored file. -/
abbrev Elsewhere := Bytes → Except IoError Bytes

/-- `File::open` of a path, which follows the link to the latest version. -/
def StoredFile.openPath (file : StoredFile) (elsewhere : Elsewhere) (dir path : Bytes) :
    Except IoError Bytes :=
  if path = push dir (utf8 headFileName) then
    match file.head with
    | none => .error .notFound
    | some .other => elsewhere path
    | some (.link target) =>
        match (versionAt dir target).bind fun version => file.versionFile version.1 version.2 with
        | some content => .ok content
        | none => elsewhere target
  else elsewhere path

/-- The path that a download opens. -/
def downloadPath (dir : Bytes) : Option RequestedFileVersion → Bytes
  | none => push dir (utf8 headFileName)
  | some version =>
      let path := push (push dir (utf8 versionsDirName)) (utf8 (versionName version.major))
      match version.minor with
      | some minor => push path (utf8 (versionName minor))
      | none => push path (utf8 latestFileName)

/-- The size of the buffer that a download reads into. -/
def allocSize (length : UInt64) : ℕ :=
  if length > 0 then min length.toNat maxReadSize else maxReadSize

variable (env : Env) (elsewhere : Elsewhere)

def download (req : DownloadArg) : FileOp DownloadResult := do
  let target ← orFail (.status (.invalidArgument "target is required")) req.target
  let relpath ← orFail (.status .panic) (strsToPath target.path)
  let world ← get
  let content ← ofExcept ((world.file.openPath elsewhere (fileDir relpath)
    (downloadPath (fileDir relpath) target.version)).mapError .io)
  -- `lseek` refuses offsets that are negative as `i64`.
  rejectIf (decide (req.offset > 0 ∧ 2 ^ 63 ≤ req.offset.toNat)) (.io .invalidInput)
  let rest := content.drop req.offset.toNat
  let data ← draw
    (fun world => rest.take (env.read world.calls (min (allocSize req.length) rest.length)))
    fun world => { world with calls := world.calls + 1 }
  pure { data, more := data.length == allocSize req.length }

/-! ## What a download returns -/

/-- The download asks for the latest version of the file of this path, from an offset that `lseek`
does not refuse. -/
structure AsksLatest (relpath : Bytes) (req : DownloadArg) : Prop where
  target : ∃ target, req.target = some target ∧ strsToPath target.path = some relpath ∧
    target.version = none
  seekable : req.offset.toNat < 2 ^ 63

/-- What was returned is a page of these contents. -/
structure IsPage (req : DownloadArg) (content : Bytes) (page : DownloadResult) : Prop where
  data : page.data <+: content.drop req.offset.toNat
  fits : page.data.length ≤ allocSize req.length
  progress : page.data = [] → content.length ≤ req.offset.toNat
  more : page.more = true ↔ page.data.length = allocSize req.length

variable {env elsewhere} {relpath : Bytes} {req : DownloadArg} {world : FileWorld}

theorem allocSize_pos (length : UInt64) : 0 < allocSize length := by
  rw [allocSize]
  split
  · rename_i positive
    exact Nat.lt_min.mpr ⟨UInt64.lt_iff_toNat_lt.mp positive, by decide⟩
  · decide

/-- The bytes that a `read` transfers are a page. -/
theorem isPage_read (content : Bytes) (call : ℕ) :
    let rest := content.drop req.offset.toNat
    let data := rest.take (env.read call (min (allocSize req.length) rest.length))
    IsPage req content { data, more := data.length == allocSize req.length } where
  data := List.take_prefix _ _
  fits := (List.length_take_le _ _).trans
    ((env.read_le call _).trans (Nat.min_le_left _ _))
  progress := by
    intro empty
    by_contra more
    have left : 0 < (content.drop req.offset.toNat).length := by
      rw [List.length_drop]
      omega
    rcases List.take_eq_nil_iff.mp empty with none | nothing
    · have transferred := env.read_pos call _ (Nat.lt_min.mpr ⟨allocSize_pos req.length, left⟩)
      exact absurd none (Nat.ne_of_gt transferred)
    · rw [nothing] at left
      cases left
  more := beq_iff_eq

/-- The bytes of a download after its file was opened. -/
theorem run_download (asks : AsksLatest relpath req) :
    (download env elsewhere req).run world =
      (do
        let content ← ofExcept ((world.file.openPath elsewhere (fileDir relpath)
          (push (fileDir relpath) (utf8 headFileName))).mapError .io)
        let rest := content.drop req.offset.toNat
        let data ← draw (fun world => rest.take
            (env.read world.calls (min (allocSize req.length) rest.length)))
          fun world => { world with calls := world.calls + 1 }
        pure { data, more := data.length == allocSize req.length } :
          FileOp DownloadResult).run world := by
  obtain ⟨target, targeted, path, latest⟩ := asks.target
  have seekable : decide (req.offset > 0 ∧ 2 ^ 63 ≤ req.offset.toNat) = false := by
    rw [decide_eq_false_iff_not]
    exact fun refused => absurd refused.2 (Nat.not_le_of_lt asks.seekable)
  rw [download, targeted, run_orFail_some_bind, path, run_orFail_some_bind, run_get_bind, latest,
    seekable]
  rfl

/-- There is no latest version as long as there is no link. -/
theorem download_unlinked (asks : AsksLatest relpath req) (missing : world.file.head = none) :
    ((download env elsewhere req).run world).result = .error (.io .notFound) := by
  rw [run_download asks, StoredFile.openPath, if_pos rfl, missing]
  rfl

/-- **A download of the latest version returns a page of the version that the link leads to.** -/
theorem download_linked (asks : AsksLatest relpath req) {target content : Bytes}
    {version : Bytes × Bytes} (link : world.file.head = some (.link target))
    (leads : versionAt (fileDir relpath) target = some version)
    (there : world.file.versionFile version.1 version.2 = some content) :
    ∃ page, ((download env elsewhere req).run world).result = .ok page ∧
      IsPage req content page := by
  have opened : world.file.openPath elsewhere (fileDir relpath)
      (push (fileDir relpath) (utf8 headFileName)) = .ok content := by
    rw [StoredFile.openPath, if_pos rfl, link]
    dsimp only
    rw [leads, Option.bind_some, there]
  rw [run_download asks, opened]
  exact ⟨_, rfl, isPage_read content world.calls⟩

end Yeetbox.FileStorage
