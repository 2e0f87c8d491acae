import Yeetbox.Properties.Crashes

/-!
# Repeating a request until it is answered

When the server stops, the client does not know whether its request took effect. A request that can
be repeated (`isRepeatable`) may be sent again: every one but an append and the messages of an
upload that goes on. A drive on which it took effect does not change when it is asked again
(`Drive.settled_perform`), so it takes effect once, however often the server stopped before it
answered (`retried_until_answered`).
-/

set_option autoImplicit false

namespace Yeetbox.Storage

open Library

variable {env : Env} {horizon : ℕ} {normalization : Normalization} {drive later : Drive}
  {here : Place} {entry : Entry}

/-- A request that may be sent again when its answer is missing. -/
def isRepeatable : Request → Bool
  | .append _ => false
  | .upload arg => !arg.incomplete && arg.continuation.isEmpty
  | _ => true

/-- A request changes nothing on a drive. -/
def Drive.Settled (normalization : Normalization) (drive : Drive) (req : Request) : Prop :=
  ∀ drawn, drive.perform (drive.decide normalization drawn req).1 = drive

/-! ## Walks on a changed drive -/

/-- The folder that a name leads to. -/
def Drive.Entering (drive : Drive) (folder : FileSystemId) (name : Name)
    (inside : FileSystemId) : Prop :=
  drive.enter folder name = some inside

theorem Drive.walk_eq_some_iff {names : List Name} {folder : FileSystemId} :
    drive.walk names = some folder ↔ Descends drive.Entering rootFsid names folder :=
  foldlM_eq_some_iff fun _ _ _ => Iff.rfl

/-- All entries lead where they led. -/
def Drive.Extends (later drive : Drive) : Prop :=
  ∀ folder name inside, drive.Entering folder name inside → later.Entering folder name inside

/-- What is entered now is where it was. -/
def Drive.Agrees (later drive : Drive) : Prop :=
  ∀ folder name first second, drive.Entering folder name first →
    later.Entering folder name second → first = second

theorem Drive.Extends.walk (more : later.Extends drive) {names : List Name}
    {folder : FileSystemId} (walked : drive.walk names = some folder) :
    later.walk names = some folder :=
  walk_eq_some_iff.mpr ((walk_eq_some_iff.mp walked).mono more)

theorem Drive.Extends.place (more : later.Extends drive) {path : List Name}
    (placed : drive.place normalization path = some here) :
    later.place normalization path = some here := by
  rw [Drive.place] at placed ⊢
  obtain ⟨name, last, placed⟩ := Option.bind_eq_some_iff.mp placed
  obtain ⟨folder, walked, placed⟩ := Option.bind_eq_some_iff.mp placed
  rw [last, Option.bind_eq_bind, Option.bind_some, more.walk walked]
  exact placed

theorem Drive.Agrees.place (agrees : later.Agrees drive) {path : List Name} {other : Place}
    (placed : drive.place normalization path = some here)
    (moved : later.place normalization path = some other) : here = other := by
  rw [Drive.place] at placed moved
  obtain ⟨name, last, placed⟩ := Option.bind_eq_some_iff.mp placed
  obtain ⟨folder, walked, placed⟩ := Option.bind_eq_some_iff.mp placed
  obtain ⟨_, same, moved⟩ := Option.bind_eq_some_iff.mp moved
  obtain ⟨inside, rewalked, moved⟩ := Option.bind_eq_some_iff.mp moved
  cases last.symm.trans same
  have folders : folder = inside :=
    (walk_eq_some_iff.mp walked).agree agrees (walk_eq_some_iff.mp rewalked)
  cases folders
  cases placed
  cases moved
  rfl

/-- An entry is added. -/
theorem Drive.extends_of_free {changed : Option Entry} (free : drive.entry here = none)
    (entries : later.entry = Function.update drive.entry here changed) :
    later.Extends drive := by
  intro folder name inside enters
  have elsewhere : (⟨folder, name⟩ : Place) ≠ here := by
    rintro rfl
    rw [Drive.Entering, Drive.enter, free] at enters
    cases enters
  rw [Drive.Entering, Drive.enter, entries, Function.update_of_ne elsewhere]
  exact enters

/-- Of the entries that were there, none leads anywhere else. -/
theorem Drive.agrees_of_kept (kept : ∀ place, drive.entry place ≠ none →
    later.entry place = drive.entry place ∨ later.entry place = none) : later.Agrees drive := by
  intro folder name first second before after
  rw [Drive.Entering, Drive.enter] at before after
  have there : drive.entry ⟨folder, name⟩ ≠ none := by
    intro none
    rw [none] at before
    cases before
  rcases kept _ there with same | gone
  · rw [same, before] at after
    exact Option.some_inj.mp after
  · rw [gone] at after
    cases after

/-! ## Asking again -/

theorem Drive.target_eq_some_iff {target : RequestedFileId} :
    drive.target normalization target = some (here, entry) ↔
      drive.place normalization target.path = some here ∧ drive.entry here = some entry ∧
        target.isFirst = true := by
  simp only [Drive.target, Option.bind_eq_bind, Option.bind_eq_some_iff,
    Option.ite_none_right_eq_some, Option.pure_def, Option.some_inj, Prod.mk.injEq]
  constructor
  · rintro ⟨place, placed, stands, there, first, rfl, rfl⟩
    exact ⟨placed, there, first⟩
  · rintro ⟨placed, there, first⟩
    exact ⟨here, placed, entry, there, first, rfl, rfl⟩

theorem Drive.newPlace_eq_some_iff {path : List Name} {shown : Name} :
    drive.newPlace normalization path = some (here, shown) ↔
      ∃ name folder, path.getLast? = some name ∧ drive.walk path.dropLast = some folder ∧
        here = ⟨folder, normalization.nfkd (trim name)⟩ ∧ shown = trim name ∧
        drive.entry here = none := by
  simp only [Drive.newPlace, Option.bind_eq_bind, Option.bind_eq_some_iff,
    Option.ite_none_right_eq_some, Option.pure_def, Option.some_inj, Prod.mk.injEq]
  constructor
  · rintro ⟨name, last, folder, walked, free, rfl, rfl⟩
    exact ⟨name, folder, last, walked, rfl, rfl, free⟩
  · rintro ⟨name, folder, last, walked, rfl, rfl, free⟩
    exact ⟨name, last, folder, walked, free, rfl, rfl⟩

/-- A target is found again where more entries are. -/
theorem Drive.Extends.target (more : later.Extends drive) {target : RequestedFileId}
    {stands : Entry} (found : drive.target normalization target = some (here, entry))
    (stays : later.entry here = some stands) :
    later.target normalization target = some (here, stands) := by
  obtain ⟨placed, _, first⟩ := Drive.target_eq_some_iff.mp found
  exact Drive.target_eq_some_iff.mpr ⟨more.place placed, stays, first⟩

/-- A target is not found again when its entry is gone. -/
theorem Drive.Agrees.no_target (agrees : later.Agrees drive) {target : RequestedFileId}
    (found : drive.target normalization target = some (here, entry))
    (gone : later.entry here = none) : later.target normalization target = none := by
  rw [Option.eq_none_iff_forall_ne_some]
  rintro ⟨other, stands⟩ again
  obtain ⟨placed, _⟩ := Drive.target_eq_some_iff.mp found
  obtain ⟨moved, there, _⟩ := Drive.target_eq_some_iff.mp again
  rw [← agrees.place placed moved, gone] at there
  cases there

/-- A place for a new entry is not offered again when it was taken. -/
theorem Drive.newPlace_taken {path : List Name} {shown : Name} {taken : Entry}
    (found : drive.newPlace normalization path = some (here, shown))
    (entries : later.entry = Function.update drive.entry here (some taken)) :
    later.newPlace normalization path = none := by
  obtain ⟨name, folder, last, walked, rfl, _, free⟩ := Drive.newPlace_eq_some_iff.mp found
  rw [Option.eq_none_iff_forall_ne_some]
  rintro ⟨other, spelled⟩ again
  obtain ⟨_, inside, same, rewalked, rfl, _, still⟩ := Drive.newPlace_eq_some_iff.mp again
  cases last.symm.trans same
  cases ((Drive.extends_of_free free entries).walk walked).symm.trans rewalked
  rw [entries, Function.update_self] at still
  cases still

/-! ## Requests that take effect once -/

theorem Drive.settled_of_rest {req : Request}
    (rest : ∀ drawn, (drive.decide normalization drawn req).1 = .rest) (drawn : Ulid) :
    (drive.perform (drive.decide normalization drawn req).1).Settled normalization req := by
  intro again
  rw [rest drawn, Drive.perform, rest again, Drive.perform]

theorem Drive.settled_makeDirectory (arg : MakeDirectoryArg) (drawn : Ulid) :
    (drive.perform (drive.decide normalization drawn (.makeDirectory arg)).1).Settled normalization
      (.makeDirectory arg) := by
  intro again
  rcases placed : arg.target.bind fun target => drive.newPlace normalization target.path with
    _ | ⟨place, shown⟩
  · exact Drive.settled_of_rest (fun _ => by rw [Drive.decide, placed]) drawn again
  · obtain ⟨target, asked, found⟩ := Option.bind_eq_some_iff.mp placed
    have taken : (drive.perform (.makeFolder place shown)).newPlace normalization target.path =
        none := Drive.newPlace_taken found rfl
    rw [Drive.decide, placed, Drive.decide, asked, Option.bind_some, taken]
    rfl

/-- A new upload in one message asks for the same, whichever ULID is drawn. -/
theorem Drive.decideUpload_new {arg : UploadArg} (complete : arg.incomplete = false)
    (new : arg.continuation = []) (drawn : Ulid) :
    (drive.decideUpload normalization drawn arg).1 =
      match arg.target.bind fun target => drive.newPlace normalization target.path with
      | some (place, shown) =>
          .create place shown ⟨some arg.data.bytes.length, some arg.data.bytes⟩
      | none => .rest := by
  rw [Drive.decideUpload, uploadWith, if_pos new]
  rcases arg.target with _ | target
  · rfl
  · rw [Option.bind_some]
    dsimp only
    by_cases empty : target.path = []
    · rw [if_pos empty, Drive.newPlace, empty]
      rfl
    · rw [if_neg empty, if_neg (complete ▸ Bool.false_ne_true), Drive.decideFinal]
      rcases drive.newPlace normalization target.path with _ | ⟨place, shown⟩
      · exact if_pos new
      · exact if_pos new

theorem Drive.settled_upload {arg : UploadArg} (complete : arg.incomplete = false)
    (new : arg.continuation = []) (drawn : Ulid) :
    (drive.perform (drive.decide normalization drawn (.upload arg)).1).Settled normalization
      (.upload arg) := by
  intro again
  rw [Drive.decide, Drive.decide, Drive.decideUpload_new complete new,
    Drive.decideUpload_new complete new]
  rcases placed : arg.target.bind fun target => drive.newPlace normalization target.path with
    _ | ⟨place, shown⟩
  · dsimp only [Drive.perform]
    rw [placed]
  · obtain ⟨target, asked, found⟩ := Option.bind_eq_some_iff.mp placed
    have taken : (drive.perform (.create place shown
        ⟨some arg.data.bytes.length, some arg.data.bytes⟩)).newPlace normalization target.path =
          none := Drive.newPlace_taken found rfl
    rw [asked, Option.bind_some]
    dsimp only
    rw [taken]
    rfl

/-- What is decided on a target: nothing is done, or it was found and something is done. -/
theorem Drive.decideOn_cases (target : Option RequestedFileId)
    (act : Place → Entry → Option (Act × Reply)) :
    drive.decideOn normalization target act = (.rest, .refused) ∨
      ∃ asked place entry, target = some asked ∧
        drive.target normalization asked = some (place, entry) ∧
        act place entry = some (drive.decideOn normalization target act) := by
  rw [Drive.decideOn]
  rcases done : (target.bind (drive.target normalization)).bind
      fun found => act found.1 found.2 with _ | did
  · exact .inl rfl
  · obtain ⟨⟨place, entry⟩, found, acted⟩ := Option.bind_eq_some_iff.mp done
    obtain ⟨asked, targeted, found⟩ := Option.bind_eq_some_iff.mp found
    exact .inr ⟨asked, place, entry, targeted, found, acted⟩

/-- An entry that was moved is not found where it was. -/
theorem Drive.renamed_away {target : RequestedFileId} {destination : Place} {shown : Name}
    (found : drive.target normalization target = some (here, entry))
    (free : drive.entry destination = none) :
    (drive.perform (.rename here destination shown)).target normalization target = none := by
  have elsewhere : here ≠ destination := Drive.ne_of_free (Drive.target_there found) free
  have gone : (drive.perform (.rename here destination shown)).entry here = none :=
    (Function.update_of_ne elsewhere _ _).trans (Function.update_self _ _ _)
  refine (Drive.agrees_of_kept fun place there => ?_).no_target found gone
  by_cases same : place = here
  · exact .inr (same ▸ gone)
  · have other : place ≠ destination := by
      rintro rfl
      exact there free
    exact .inl ((Function.update_of_ne other _ _).trans (Function.update_of_ne same _ _))

/-- An entry that was removed is not found. -/
theorem Drive.removed_away {target : RequestedFileId}
    (found : drive.target normalization target = some (here, entry)) :
    (drive.perform (.remove here)).target normalization target = none := by
  refine (Drive.agrees_of_kept fun place _ => ?_).no_target found (Function.update_self _ _ _)
  by_cases same : place = here
  · exact .inr (same ▸ Function.update_self _ _ _)
  · exact .inl (Function.update_of_ne same _ _)

/-- What an entry that was renamed in its place shows. -/
theorem Drive.entry_renamed (there : drive.entry here = some entry) (shown : Name) :
    (drive.perform (.rename here here shown)).entry =
      Function.update drive.entry here (some ⟨shown, entry.node⟩) := by
  refine (Function.update_idem _ _ _).trans ?_
  rw [there]
  rfl

/-- An entry that was renamed in its place leads where it led. -/
theorem Drive.extends_renamed (there : drive.entry here = some entry) (shown : Name) :
    (drive.perform (.rename here here shown)).Extends drive := by
  intro folder name inside enters
  rw [Drive.Entering, Drive.enter] at enters ⊢
  rw [Drive.entry_renamed there]
  by_cases same : (⟨folder, name⟩ : Place) = here
  · rw [same, there] at enters
    rw [same, Function.update_self]
    exact enters
  · rw [Function.update_of_ne same]
    exact enters

/-- Renaming an entry in its place once more changes nothing. -/
theorem Drive.perform_renamed (there : drive.entry here = some entry) (shown : Name) :
    (drive.perform (.rename here here shown)).perform (.rename here here shown) =
      drive.perform (.rename here here shown) := by
  have entries := Drive.entry_renamed there shown
  have stays : (drive.perform (.rename here here shown)).entry here =
      some ⟨shown, entry.node⟩ := by
    rw [entries]
    exact Function.update_self _ _ _
  ext1
  · rw [Drive.entry_renamed stays, entries]
    exact Function.update_idem _ _ _
  · rfl
  · rfl
  · rfl

theorem Drive.settled_move (arg : MoveArg) (drawn : Ulid) :
    (drive.perform (drive.decide normalization drawn (.move arg)).1).Settled normalization
      (.move arg) := by
  intro again
  rcases drive.decideOn_cases arg.target _ with
    rest | ⟨asked, source, entry, targeted, found, acted⟩
  · have refused : drive.decideMove normalization arg = (.rest, .refused) := rest
    refine Drive.settled_of_rest (fun _ => ?_) drawn again
    exact congrArg Prod.fst refused
  · obtain ⟨shown, last, acted⟩ := Option.bind_eq_some_iff.mp acted
    obtain ⟨destination, placed, acted⟩ := Option.bind_eq_some_iff.mp acted
    have there := Drive.target_there found
    split at acted
    · rename_i free
      have decided : drive.decideMove normalization arg =
        (.rename source destination shown, .done) := (Option.some_inj.mp acted).symm
      rw [Drive.decide, decided, Drive.decide, Drive.decideMove, targeted]
      by_cases same : destination = source
      · subst same
        have more := Drive.extends_renamed there shown
        have stays : (drive.perform (.rename destination destination shown)).entry destination =
            some ⟨shown, entry.node⟩ := by
          rw [Drive.entry_renamed there]
          exact Function.update_self _ _ _
        rw [decideOn_found (more.target found stays), last, more.place placed]
        dsimp only [Option.bind_eq_bind, Option.bind_some]
        rw [if_pos (.inl rfl)]
        exact Drive.perform_renamed there shown
      · rw [decideOn_missing (Drive.renamed_away found (free.resolve_left same))]
        rfl
    · cases acted

theorem Drive.settled_copy (arg : CopyArg) (drawn : Ulid) :
    (drive.perform (drive.decide normalization drawn (.copy arg)).1).Settled normalization
      (.copy arg) := by
  intro again
  rcases drive.decideOn_cases (arg.target.map fun target => { target with version := none }) _ with
    rest | ⟨asked, source, entry, targeted, found, acted⟩
  · have refused : drive.decideCopy normalization arg = (.rest, .refused) := rest
    refine Drive.settled_of_rest (fun _ => ?_) drawn again
    exact congrArg Prod.fst refused
  · split at acted
    · rename_i id node
      obtain ⟨shown, last, acted⟩ := Option.bind_eq_some_iff.mp acted
      obtain ⟨destination, placed, acted⟩ := Option.bind_eq_some_iff.mp acted
      have there := Drive.target_there found
      split at acted
      · rename_i free
        have decided : drive.decideCopy normalization arg =
          (.copy destination shown, .done) := (Option.some_inj.mp acted).symm
        rw [Drive.decide, decided, Drive.decide, Drive.decideCopy, targeted]
        have more : (drive.perform (.copy destination shown)).Extends drive :=
          Drive.extends_of_free free rfl
        have stays : (drive.perform (.copy destination shown)).entry source = some entry :=
          (Function.update_of_ne (Drive.ne_of_free there free) _ _).trans there
        have taken : (drive.perform (.copy destination shown)).entry destination ≠ none := by
          have copied : (drive.perform (.copy destination shown)).entry destination =
              some ⟨shown, .copied⟩ := Function.update_self _ _ _
          rw [copied]
          exact Option.some_ne_none _
        rw [decideOn_found (more.target found stays), node]
        dsimp only
        rw [last, more.place placed]
        dsimp only [Option.bind_eq_bind, Option.bind_some]
        rw [if_neg taken]
        rfl
      · cases acted
    · cases acted

theorem Drive.settled_delete (arg : DeleteArg) (drawn : Ulid) :
    (drive.perform (drive.decide normalization drawn (.delete arg)).1).Settled normalization
      (.delete arg) := by
  intro again
  rcases drive.decideOn_cases arg.target _ with
    rest | ⟨asked, place, entry, targeted, found, acted⟩
  · have refused : drive.decideDelete normalization arg = (.rest, .refused) := rest
    refine Drive.settled_of_rest (fun _ => ?_) drawn again
    exact congrArg Prod.fst refused
  · split at acted
    · rename_i id node
      split at acted
      · cases acted
      · have decided : drive.decideDelete normalization arg = (.clear id, .done) :=
          (Option.some_inj.mp acted).symm
        rw [Drive.decide, decided, Drive.decide, Drive.decideDelete, targeted]
        have still : (drive.perform (.clear id)).target normalization asked =
          some (place, entry) := found
        have cleared : ((drive.perform (.clear id)).file id).bind File.content = none := by
          have changed : (drive.perform (.clear id)).file id =
              (drive.file id).map File.cleared := Function.update_self _ _ _
          rw [changed]
          rcases drive.file id with _ | file <;> rfl
        rw [decideOn_found still, node]
        dsimp only
        rw [if_pos cleared]
        rfl
    · have decided : drive.decideDelete normalization arg = (.remove place, .done) :=
        (Option.some_inj.mp acted).symm
      rw [Drive.decide, decided, Drive.decide, Drive.decideDelete, targeted,
        decideOn_missing (Drive.removed_away found)]
      rfl

/-- **A request that can be repeated changes a drive only once.** -/
theorem Drive.settled_perform {req : Request} (repeatable : isRepeatable req = true)
    (drawn : Ulid) :
    (drive.perform (drive.decide normalization drawn req).1).Settled normalization req := by
  cases req with
  | makeDirectory arg => exact Drive.settled_makeDirectory arg drawn
  | upload arg =>
      rw [isRepeatable, Bool.and_eq_true, Bool.not_eq_true', List.isEmpty_iff] at repeatable
      exact Drive.settled_upload repeatable.1 repeatable.2 drawn
  | append arg => cases repeatable
  | download arg =>
      refine Drive.settled_of_rest (fun _ => ?_) drawn
      exact decideDownload_rest drive normalization arg
  | delete arg => exact Drive.settled_delete arg drawn
  | list arg =>
      refine Drive.settled_of_rest (fun _ => ?_) drawn
      rw [Drive.decide]
      split <;> rfl
  | move arg => exact Drive.settled_move arg drawn
  | copy arg => exact Drive.settled_copy arg drawn

/-- Which ULID is drawn makes no difference to a request that can be repeated. -/
theorem Drive.decide_repeatable {req : Request} (repeatable : isRepeatable req = true)
    (first second : Ulid) : (drive.decide normalization first req).1 =
      (drive.decide normalization second req).1 := by
  cases req with
  | upload arg =>
      rw [isRepeatable, Bool.and_eq_true, Bool.not_eq_true', List.isEmpty_iff] at repeatable
      rw [Drive.decide, Drive.decide, Drive.decideUpload_new repeatable.1 repeatable.2,
        Drive.decideUpload_new repeatable.1 repeatable.2]
  | _ => rfl

/-! ## Attempts -/

/-- **An attempt at a request that can be repeated takes effect or does not.** -/
theorem Drive.Attempts.repeated {req : Request} (repeatable : isRepeatable req = true)
    {stop : Option ℕ} {drawn : Ulid} {reply : Option Reply}
    (attempted : drive.Attempts normalization (⟨req, stop⟩, drawn) reply later) :
    (stop ≠ none ∧ later = drive) ∨
      later = drive.perform (drive.decide normalization drawn req).1 := by
  cases attempted with
  | answered | after => exact .inr rfl
  | before => exact .inl ⟨Option.some_ne_none _, rfl⟩
  | received arg ulid data count _ presented part =>
      rw [isRepeatable, presented, List.isEmpty_eq_false_iff.mpr (Ulid.toBytes_ne_nil ulid),
        Bool.and_false] at repeatable
      cases repeatable
  | lost arg ulid count _ presented complete =>
      rw [isRepeatable, presented, List.isEmpty_eq_false_iff.mpr (Ulid.toBytes_ne_nil ulid),
        Bool.and_false] at repeatable
      cases repeatable

section Server

variable {req : Request} {server : Server}

/-- A drive, or what the request makes of it. -/
def Drive.AtMostOnce (normalization : Normalization) (drawn : Ulid) (req : Request)
    (drive later : Drive) : Prop :=
  later = drive ∨ later = drive.perform (drive.decide normalization drawn req).1

/-- **An attempt at a request takes effect once at most, together with those before it.** -/
theorem attempt_repeated (fresh : env.FreshBelow horizon) (faithful : env.Faithful)
    (repeatable : isRepeatable req = true) {drawn : Ulid} {stop : Option ℕ}
    (legible : Legible env horizon server)
    (permitted : PermittedAttempt env horizon server ⟨req, stop⟩)
    (reached : drive.AtMostOnce env.toNormalization drawn req server.drive) :
    drive.AtMostOnce env.toNormalization drawn req (survive env server ⟨req, stop⟩).drive ∧
      (stop = none → (survive env server ⟨req, stop⟩).drive =
        drive.perform (drive.decide env.toNormalization drawn req).1) := by
  have attempted := (attempts_simulated fresh faithful).step _ _ permitted legible
  rcases Drive.Attempts.repeated repeatable attempted with ⟨stopped, nothing⟩ | effect
  · have still : (survive env server ⟨req, stop⟩).drive = server.drive := nothing
    rw [still]
    exact ⟨reached, fun answered => absurd answered stopped⟩
  · have took : (survive env server ⟨req, stop⟩).drive = server.drive.perform
        (server.drive.decide env.toNormalization (env.newUlid server.world.calls) req).1 := effect
    suffices done : (survive env server ⟨req, stop⟩).drive =
        drive.perform (drive.decide env.toNormalization drawn req).1 from
      ⟨.inr done, fun _ => done⟩
    rcases reached with same | changed
    · rw [took, same, Drive.decide_repeatable repeatable _ drawn]
    · rw [took, changed]
      exact Drive.settled_perform repeatable drawn _

/-- The same request, at which the server stopped again and again before it was answered. -/
def retries (req : Request) (stops : List ℕ) : List Attempt :=
  stops.map (fun count => ⟨req, some count⟩) ++ [⟨req, none⟩]

/-- What was attempted before, and the retries, together take effect once. -/
theorem retries_drive (fresh : env.FreshBelow horizon) (faithful : env.Faithful)
    (repeatable : isRepeatable req = true) {drawn : Ulid} {stops : List ℕ}
    (legible : Legible env horizon server)
    (permitted : Guarded (survive env) (PermittedAttempt env horizon) server (retries req stops))
    (reached : drive.AtMostOnce env.toNormalization drawn req server.drive) :
    (runAll (survive env) server (retries req stops)).drive =
      drive.perform (drive.decide env.toNormalization drawn req).1 := by
  induction stops generalizing server with
  | nil => exact (attempt_repeated fresh faithful repeatable legible permitted.1 reached).2 rfl
  | cons count rest ih =>
      obtain ⟨here, onwards⟩ := permitted
      apply ih
      · exact legible.survives fresh faithful.dated here
      · exact onwards
      · exact (attempt_repeated fresh faithful repeatable legible here reached).1

end Server

/-- **A request that is repeated until it is answered takes effect once**, however often the server
stopped before: it leaves the drive as it is after the request was answered at once. -/
theorem retried_until_answered (faithful : env.Faithful) {before : List Attempt} {req : Request}
    (repeatable : isRepeatable req = true) {stops : List ℕ}
    (regular : RegularAttempts env horizon (before ++ retries req stops)) :
    (survived env (before ++ retries req stops)).drive =
      (survived env (before ++ [⟨req, none⟩])).drive := by
  obtain ⟨first, second⟩ := guarded_append_iff.mp regular.permitted
  have legible := RegularAttempts.legible faithful.dated ⟨regular.fresh, first⟩
  have once : Guarded (survive env) (PermittedAttempt env horizon) (survived env before)
      (retries req []) := by
    cases stops with
    | nil => exact second
    | cons count rest => exact ⟨second.1, trivial⟩
  have effect : ∀ stops, Guarded (survive env) (PermittedAttempt env horizon) (survived env before)
      (retries req stops) → (survived env (before ++ retries req stops)).drive =
        (survived env before).drive.perform ((survived env before).drive.decide env.toNormalization
          (env.newUlid (survived env before).world.calls) req).1 := by
    intro stops permitted
    rw [survived, runAll_append]
    exact retries_drive regular.fresh faithful repeatable legible permitted (.inl rfl)
  exact (effect stops second).trans (effect [] once).symm

/-- A move to another name. -/
def moveRetried : Request := .move ⟨some ⟨[['f']], none⟩, [['g']]⟩

/-- The server stops twice before it answers, the first time when all is done. -/
theorem moveRetried_once :
    (survived (.stamped .unchanged) (uploadedAttempt ++ retries moveRetried [0, 0])).drive =
        (survived (.stamped .unchanged) (uploadedAttempt ++ [⟨moveRetried, none⟩])).drive ∧
      (survived (.stamped .unchanged) (uploadedAttempt ++ retries moveRetried [0, 0])).drive.entry
        ⟨0, ['g']⟩ = some ⟨['g'], .file 1⟩ :=
  ⟨@retried_until_answered (.stamped .unchanged) 100 (Env.stamped_faithful _) _ _ rfl _
    ⟨Env.stamped_freshBelow _ (by decide), by decide +kernel⟩, by decide +kernel⟩

end Yeetbox.Storage
