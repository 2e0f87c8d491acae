import Yeetbox.Properties.Histories

/-!
# Entries and files over time

A request acts on a drive only where there is room: a new entry comes to a free place, and what is
removed is not the entry of a file (`Drive.decide_fits`). So every file has an entry, in every run
(`serverAfter_filed`). An entry can be followed through the acts of a run: it stays where it is
until it is renamed or removed, and the entry of a file is never removed and never comes to stand in
two places (`entries_followed`). And a file that was deleted stays deleted: its one entry is there
for good, and whoever finds it is refused (`deleted_stays_deleted`).
-/

set_option autoImplicit false

namespace Yeetbox.Storage

open Library

variable {env : Env} {horizon : ℕ} {server : Server} {normalization : Normalization}
  {drive : Drive} {place : Place} {entry : Entry}

/-! ## Acts that fit -/

/-- An entry comes to a free place, and goes from where it is. -/
inductive Act.Fits (drive : Drive) : Act → Prop
  | rest : Fits drive .rest
  | makeFolder {place : Place} {shown : Name} (free : drive.entry place = none) :
      Fits drive (.makeFolder place shown)
  | create {place : Place} {shown : Name} {file : File} (free : drive.entry place = none) :
      Fits drive (.create place shown file)
  | copy {place : Place} {shown : Name} (free : drive.entry place = none) :
      Fits drive (.copy place shown)
  | remove {place : Place} {entry : Entry} (there : drive.entry place = some entry)
      (noFile : ∀ id, entry.node ≠ .file id) : Fits drive (.remove place)
  | rename {source destination : Place} {shown : Name} {entry : Entry}
      (there : drive.entry source = some entry)
      (free : destination = source ∨ drive.entry destination = none) :
      Fits drive (.rename source destination shown)
  | receive {ulid : Ulid} {data : Bytes} : Fits drive (.receive ulid data)
  | finish {ulid : Ulid} {data : Bytes} {place : Place} {shown : Name}
      (free : drive.entry place = none) : Fits drive (.finish ulid data place shown)
  | append {id : FileSystemId} {data : Bytes} : Fits drive (.append id data)
  | clear {id : FileSystemId} : Fits drive (.clear id)

/-- A place for a new entry is free. -/
theorem Drive.newPlace_free {path : List Name} {shown : Name}
    (found : drive.newPlace normalization path = some (place, shown)) :
    drive.entry place = none := by
  rw [newPlace] at found
  obtain ⟨name, last, found⟩ := Option.bind_eq_some_iff.mp found
  obtain ⟨folder, walked, found⟩ := Option.bind_eq_some_iff.mp found
  dsimp only at found
  split at found
  · rename_i free
    cases found
    exact free
  · cases found

theorem Drive.target_there {target : RequestedFileId}
    (found : drive.target normalization target = some (place, entry)) :
    drive.entry place = some entry := by
  rw [Drive.target] at found
  obtain ⟨other, placed, found⟩ := Option.bind_eq_some_iff.mp found
  obtain ⟨stands, there, found⟩ := Option.bind_eq_some_iff.mp found
  split at found
  · cases found
    exact there
  · cases found

/-- What is done about a target fits, when it does for every entry. -/
theorem Drive.decideOn_fits {target : Option RequestedFileId}
    {act : Place → Entry → Option (Act × Reply)}
    (fits : ∀ place entry did, drive.entry place = some entry → act place entry = some did →
      did.1.Fits drive) : (drive.decideOn normalization target act).1.Fits drive := by
  rw [Drive.decideOn]
  rcases done : (target.bind (drive.target normalization)).bind
      fun found => act found.1 found.2 with _ | did
  · exact .rest
  · obtain ⟨⟨place, entry⟩, found, acted⟩ := Option.bind_eq_some_iff.mp done
    obtain ⟨asked, _, found⟩ := Option.bind_eq_some_iff.mp found
    exact fits place entry did (Drive.target_there found) acted

theorem Drive.decideUpload_fits (drawn : Ulid) (arg : UploadArg) :
    (drive.decideUpload normalization drawn arg).1.Fits drive := by
  rw [Drive.decideUpload]
  split
  · split
    · exact .rest
    · split
      · exact .receive
      · rw [Drive.decideFinal]
        split
        · rename_i place shown found
          have free := Drive.newPlace_free found
          dsimp only
          split
          · exact .create free
          · exact .finish free
        · dsimp only
          split
          · exact .rest
          · exact .receive
  · exact .rest

theorem Drive.decideMove_fits (arg : MoveArg) :
    (drive.decideMove normalization arg).1.Fits drive := by
  refine Drive.decideOn_fits fun place entry did there acted => ?_
  obtain ⟨shown, _, acted⟩ := Option.bind_eq_some_iff.mp acted
  obtain ⟨destination, _, acted⟩ := Option.bind_eq_some_iff.mp acted
  split at acted
  · rename_i free
    cases acted
    exact .rename there free
  · cases acted

theorem Drive.decideCopy_fits (arg : CopyArg) :
    (drive.decideCopy normalization arg).1.Fits drive := by
  refine Drive.decideOn_fits fun place entry did there acted => ?_
  split at acted
  · obtain ⟨shown, _, acted⟩ := Option.bind_eq_some_iff.mp acted
    obtain ⟨destination, _, acted⟩ := Option.bind_eq_some_iff.mp acted
    split at acted
    · rename_i free
      cases acted
      exact .copy free
    · cases acted
  · cases acted

theorem Drive.decideAppend_fits (arg : AppendArg) :
    (drive.decideAppend normalization arg).1.Fits drive := by
  refine Drive.decideOn_fits fun place entry did there acted => ?_
  split at acted
  · split at acted
    · cases acted
    · cases acted
      exact .append
  · cases acted

theorem Drive.decideDelete_fits (arg : DeleteArg) :
    (drive.decideDelete normalization arg).1.Fits drive := by
  refine Drive.decideOn_fits fun place entry did there acted => ?_
  split at acted
  · split at acted
    · cases acted
    · cases acted
      exact .clear
  · rename_i noFile
    cases acted
    exact .remove there noFile

theorem Drive.decideDownload_fits (arg : DownloadArg) :
    (drive.decideDownload normalization arg).1.Fits drive := by
  refine Drive.decideOn_fits fun place entry did there acted => ?_
  split at acted
  · obtain ⟨file, _, rfl⟩ := Option.map_eq_some_iff.mp acted
    exact .rest
  · cases acted

/-- **Whatever a drive does fits.** -/
theorem Drive.decide_fits (drive : Drive) (normalization : Normalization) (drawn : Ulid)
    (req : Request) : (drive.decide normalization drawn req).1.Fits drive := by
  cases req with
  | makeDirectory arg =>
      rw [Drive.decide]
      split
      · rename_i place shown found
        obtain ⟨target, _, found⟩ := Option.bind_eq_some_iff.mp found
        exact .makeFolder (Drive.newPlace_free found)
      · exact .rest
  | upload arg => exact Drive.decideUpload_fits drawn arg
  | append arg => exact Drive.decideAppend_fits arg
  | download arg => exact Drive.decideDownload_fits arg
  | delete arg => exact Drive.decideDelete_fits arg
  | list arg =>
      rw [Drive.decide]
      split <;> exact .rest
  | move arg => exact Drive.decideMove_fits arg
  | copy arg => exact Drive.decideCopy_fits arg

/-! ## Following an entry -/

/-- Where an entry is after an act, and what it shows then. It is nowhere when it was removed. -/
def followed (found : Place × Entry) : Act → Option (Place × Entry)
  | .remove place => if place = found.1 then none else some found
  | .rename source destination shown =>
      some (if source = found.1 then (destination, ⟨shown, found.2.node⟩) else found)
  | _ => some found

/-- A free place is not that of an entry. -/
theorem Drive.ne_of_free {other : Place} (there : drive.entry place = some entry)
    (free : drive.entry other = none) : place ≠ other := by
  rintro rfl
  cases there.symm.trans free

/-- **An entry is found again where it is followed to.** -/
theorem Act.Fits.followed_there {act : Act} (fits : act.Fits drive)
    (there : drive.entry place = some entry) {later : Place × Entry}
    (goes : followed (place, entry) act = some later) :
    (drive.perform act).entry later.1 = some later.2 := by
  cases fits with
  | rest | receive | append | clear =>
      cases goes
      exact there
  | makeFolder free | create free | copy free | finish free =>
      cases goes
      exact (Function.update_of_ne (Drive.ne_of_free there free) _ _).trans there
  | @remove other removed isThere noFile =>
      rw [followed] at goes
      dsimp only at goes
      split at goes
      · cases goes
      · rename_i differs
        cases goes
        exact (Function.update_of_ne (Ne.symm differs) _ _).trans there
  | @rename source destination shown renamed isThere free =>
      rw [followed, Option.some_inj] at goes
      dsimp only at goes
      split at goes
      · rename_i same
        subst same goes
        refine (Function.update_self _ _ _).trans ?_
        rw [there]
        rfl
      · rename_i differs
        subst goes
        have elsewhere : place ≠ destination := by
          rcases free with rfl | free
          · exact Ne.symm differs
          · exact Drive.ne_of_free there free
        exact (Function.update_of_ne elsewhere _ _).trans
          ((Function.update_of_ne (Ne.symm differs) _ _).trans there)

/-- **The entry of a file is not removed.** -/
theorem Act.Fits.file_followed {act : Act} (fits : act.Fits drive)
    (there : drive.entry place = some entry) {id : FileSystemId} (file : entry.node = .file id) :
    ∃ place' shown, followed (place, entry) act = some (place', ⟨shown, .file id⟩) := by
  have stays : entry = ⟨entry.shown, .file id⟩ := by rw [← file]
  cases fits with
  | @remove other removed isThere noFile =>
      have differs : other ≠ place := by
        rintro rfl
        cases there.symm.trans isThere
        exact noFile id file
      exact ⟨place, entry.shown, (if_neg differs).trans (by rw [← stays])⟩
  | @rename source destination shown renamed isThere free =>
      rw [followed]
      dsimp only
      split
      · exact ⟨destination, shown, by rw [file]⟩
      · exact ⟨place, entry.shown, by rw [← stays]⟩
  | _ => exact ⟨place, entry.shown, congrArg (fun same => some (place, same)) stays⟩

/-- No two entries stand for one file. -/
theorem Legible.entry_unique (legible : Legible env horizon server) {first second : Place}
    {one other : Name} {id : FileSystemId}
    (found : server.drive.entry first = some ⟨one, .file id⟩)
    (found' : server.drive.entry second = some ⟨other, .file id⟩) : first = second := by
  obtain ⟨record, there, node⟩ := legible.entry_iff.mp found
  obtain ⟨record', there', node'⟩ := legible.entry_iff.mp found'
  obtain ⟨type, number⟩ := nodeOf_eq_file_iff.mp node
  obtain ⟨type', number'⟩ := nodeOf_eq_file_iff.mp node'
  have notFolder : NotFolder record := by
    rw [NotFolder, type]
    decide
  have notFolder' : NotFolder record' := by
    rw [NotFolder, type']
    decide
  exact Place.key_injective (legible.counted.ids.unique (Legible.recordAt there)
    (Legible.recordAt there') notFolder notFolder' (number.trans number'.symm))

/-- A file is uploaded. -/
def oneUploaded : List Request := [.upload { target := some ⟨[['d']]⟩, data := { bytes := [105] } }]

/-- Every file has an entry. -/
def Drive.Filed (drive : Drive) : Prop :=
  ∀ id file, drive.file id = some file → ∃ place shown, drive.entry place = some ⟨shown, .file id⟩

/-- A file was there, or comes with its entry. -/
theorem Drive.file_cases {act : Act} {id : FileSystemId} {file : File}
    (found : (drive.perform act).file id = some file) :
    (∃ older, drive.file id = some older) ∨
      ∃ place shown, (drive.perform act).entry place = some ⟨shown, .file id⟩ := by
  have created : ∀ place shown new (last : FileSystemId),
      Function.update drive.file (last + 1) (some new) id = some file →
      Function.update drive.entry place (some ⟨shown, .file (last + 1)⟩) place =
        some ⟨shown, .file (last + 1)⟩ →
      (∃ older, drive.file id = some older) ∨ ∃ place' shown',
        Function.update drive.entry place (some ⟨shown, .file (last + 1)⟩) place' =
          some ⟨shown', .file id⟩ := by
    intro place shown new last found entry
    by_cases next : id = last + 1
    · rw [next]
      exact .inr ⟨place, shown, entry⟩
    · rw [Function.update_of_ne next] at found
      exact .inl ⟨file, found⟩
  have changed : ∀ (other : FileSystemId) (change : File → File),
      Function.update drive.file other ((drive.file other).map change) id = some file →
      ∃ older, drive.file id = some older := by
    intro other change found
    by_cases same : id = other
    · rw [same, Function.update_self] at found
      obtain ⟨older, there, _⟩ := Option.map_eq_some_iff.mp found
      exact ⟨older, same ▸ there⟩
    · rw [Function.update_of_ne same] at found
      exact ⟨file, found⟩
  cases act with
  | create place shown new => exact created place shown new _ found (Function.update_self _ _ _)
  | finish ulid data place shown =>
      exact created place shown _ _ found (Function.update_self _ _ _)
  | append other data => exact .inl (changed other _ found)
  | clear other => exact .inl (changed other _ found)
  | _ => exact .inl ⟨file, found⟩

/-- What fits leaves every file with an entry. -/
theorem Drive.Filed.performed (filed : drive.Filed) {act : Act} (fits : act.Fits drive) :
    (drive.perform act).Filed := by
  intro id file found
  rcases Drive.file_cases found with ⟨older, was⟩ | new
  · obtain ⟨place, shown, there⟩ := filed id older was
    obtain ⟨later, name, goes⟩ := fits.file_followed there rfl
    exact ⟨later, name, fits.followed_there there goes⟩
  · exact new

/-- **Every file has an entry after every permitted run.** -/
theorem serverAfter_filed (fresh : env.FreshBelow horizon) (faithful : env.Faithful)
    {requests : List Request}
    (permitted : Guarded (serve env) (Permitted env horizon) .empty requests) :
    (serverAfter env requests).drive.Filed := by
  have implements := storage_implements fresh faithful.transfers faithful.dated
  refine implements.invariant (fun drive asked filed => ?_) permitted (.empty env _) ?_
  · exact filed.performed (drive.decide_fits _ _ _)
  · intro id file found
    rw [show (driveReading env).state .empty = .empty from Server.drive_empty] at found
    cases found

/-- An entry of a file has its file. -/
theorem Legible.file_of_entry (legible : Legible env horizon server) {place : Place} {shown : Name}
    {id : FileSystemId} (found : server.drive.entry place = some ⟨shown, .file id⟩) :
    ∃ file, server.drive.file id = some file := by
  obtain ⟨record, there, node⟩ := legible.entry_iff.mp found
  obtain ⟨type, rfl⟩ := nodeOf_eq_file_iff.mp node
  obtain ⟨version, call, _, file⟩ := legible.file_of_record (Legible.recordAt there) type
  exact ⟨_, file⟩

/-! ## Deleted files -/

/-- The requests that need what is in the file that a target leads to. (A copy does not: of a file
that was uploaded it takes the entry alone.) -/
inductive UsesContent (asked : RequestedFileId) : Request → Prop
  | append (data : Payload) : UsesContent asked (.append ⟨some asked, data⟩)
  | download (offset length : UInt64) : UsesContent asked (.download ⟨some asked, offset, length⟩)
  | delete : UsesContent asked (.delete ⟨some asked⟩)

/-- Nothing can be done with a file without contents. -/
theorem Drive.refuses_deleted {req : Request} {asked : RequestedFileId} {shown : Name}
    {id : FileSystemId} {recorded : Option ℕ} (uses : UsesContent asked req)
    (found : drive.target normalization asked = some (place, ⟨shown, .file id⟩))
    (gone : drive.file id = some ⟨recorded, none⟩) (drawn : Ulid) :
    drive.decide normalization drawn req = (.rest, .refused) := by
  cases uses with
  | append data =>
      rw [Drive.decide]
      refine (decideOn_found found).trans ?_
      dsimp only
      rw [gone]
      rfl
  | download offset length => exact Drive.decideDownload_file found gone offset length
  | delete =>
      rw [Drive.decide]
      refine (decideOn_found found).trans ?_
      dsimp only
      rw [gone]
      rfl

/-- A deletion that finds a file leaves no contents. -/
theorem Drive.delete_clears {asked : RequestedFileId} {shown : Name} {id : FileSystemId}
    {file : File} (found : drive.target normalization asked = some (place, ⟨shown, .file id⟩))
    (there : drive.file id = some file) :
    file.after id (drive.decideDelete normalization ⟨some asked⟩).1 = ⟨file.recorded, none⟩ := by
  have decided : drive.decideDelete normalization ⟨some asked⟩ =
      if file.content = none then (.rest, .refused) else (.clear id, .done) := by
    refine (decideOn_found found).trans ?_
    dsimp only
    rw [there, Option.bind_some]
    split <;> rfl
  rw [decided]
  split
  · rename_i gone
    rw [← gone]
    rfl
  · rw [File.after, if_pos rfl, File.cleared]

/-- **A deleted file stays deleted.** Once a deletion has found a file, one entry stands for it for
good, and whoever comes to the file by whatever path is refused. -/
theorem deleted_stays_deleted (faithful : env.Faithful) {before since rest : List Request}
    {target : RequestedFileId} {req : Request}
    (regular : Regular env ((before ++ .delete ⟨some target⟩ :: since) ++ req :: rest))
    {place : Place} {shown : Name} {id : FileSystemId}
    (found : (serverAfter env before).drive.target env.toNormalization target =
      some (place, ⟨shown, .file id⟩)) :
    (∃! now, ∃ name, (serverAfter env (before ++ .delete ⟨some target⟩ :: since)).drive.entry now =
        some ⟨name, .file id⟩) ∧
      ∀ asked now name, UsesContent asked req →
        (serverAfter env (before ++ .delete ⟨some target⟩ :: since)).drive.target
          env.toNormalization asked = some (now, ⟨name, .file id⟩) →
        replyOf ((handle env req).run (serverAfter env
          (before ++ .delete ⟨some target⟩ :: since)).world).result = .refused := by
  have whole : before ++ (Request.delete ⟨some target⟩ :: since ++ req :: rest) =
      (before ++ .delete ⟨some target⟩ :: since) ++ req :: rest := by
    rw [List.append_assoc]
  obtain ⟨legible, permitted⟩ := (whole ▸ regular : Regular env _).split
  obtain ⟨file, there⟩ := legible.file_of_entry (Drive.target_there found)
  obtain ⟨recorded, gone⟩ : ∃ recorded, (serverAfter env
      (before ++ .delete ⟨some target⟩ :: since)).drive.file id = some ⟨recorded, none⟩ := by
    have after := file_history regular.fresh faithful (whole ▸ legible)
      (whole ▸ (guarded_append_iff.mp permitted).1) there
    have cleared : file.after id (actOf env (serverAfter env before) (.delete ⟨some target⟩)) =
        ⟨file.recorded, none⟩ := Drive.delete_clears found there
    rw [← serverAfter_append, actsOf, List.foldl_cons, cleared, foldl_after] at after
    exact ⟨file.recorded, after.trans (by rw [Option.map_none, ite_self])⟩
  obtain ⟨legible', here, _⟩ := regular.split
  refine ⟨?_, ?_⟩
  · obtain ⟨now, name, entry⟩ := serverAfter_filed regular.fresh faithful
      (guarded_append_iff.mp regular.permitted).1 id _ gone
    exact ⟨now, ⟨name, entry⟩, fun other ⟨shows, entry'⟩ => legible'.entry_unique entry' entry⟩
  · intro asked now name uses leads
    have reply := (request_onDrive regular.fresh faithful.transfers faithful.dated legible'
      here).reply
    rw [reply, Drive.refuses_deleted uses leads gone]

/-- A file is uploaded, deleted and renamed, and then someone appends to it. -/
def appendedAfterDeletion : List Request :=
  (oneUploaded ++ .delete ⟨some ⟨[['d']], none⟩⟩ :: [.move ⟨some ⟨[['d']], none⟩, [['e']]⟩]) ++
    .append ⟨some ⟨[['e']], none⟩, { bytes := [106] }⟩ :: []

theorem appendedAfterDeletion_regular :
    Regular (.stamped .unchanged) appendedAfterDeletion where
  fresh := Env.stamped_freshBelow _ (by decide +kernel)
  honest := by decide +kernel
  few := by decide +kernel

/-- Its entry is still there, and nothing is appended. -/
theorem appendedAfterDeletion_refused :
    (∃! now, ∃ name, (serverAfter (.stamped .unchanged) (oneUploaded ++
        .delete ⟨some ⟨[['d']], none⟩⟩ :: [.move ⟨some ⟨[['d']], none⟩, [['e']]⟩])).drive.entry
          now = some ⟨name, .file 1⟩) ∧
      replyOf ((handle (.stamped .unchanged)
        (.append ⟨some ⟨[['e']], none⟩, { bytes := [106] }⟩)).run (serverAfter (.stamped .unchanged)
          (oneUploaded ++ .delete ⟨some ⟨[['d']], none⟩⟩ ::
            [.move ⟨some ⟨[['d']], none⟩, [['e']]⟩])).world).result = .refused := by
  have found : (serverAfter (.stamped .unchanged) oneUploaded).drive.target .unchanged
      ⟨[['d']], none⟩ = some (⟨0, ['d']⟩, ⟨['d'], .file 1⟩) := by
    decide +kernel
  obtain ⟨unique, refused⟩ :=
    deleted_stays_deleted (Env.stamped_faithful _) appendedAfterDeletion_regular found
  exact ⟨unique, refused ⟨[['e']], none⟩ ⟨0, ['e']⟩ ['e'] (.append _) (by decide +kernel)⟩

end Yeetbox.Storage
