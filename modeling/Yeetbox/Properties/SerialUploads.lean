import Yeetbox.FileStorage.Processes

/-!
# Uploads one after the other

Uploads that are served one after the other are uploads that run at the same time, in one of the
orders that their calls can have: each makes all of its calls before the next one begins
(`uploads_in_turn`). So what holds in every interleaving holds of every sequence of uploads.
-/

set_option autoImplicit false

namespace Yeetbox.FileStorage

open Library Storage

/-- The world after an upload. -/
def afterUpload (env : Env) (world : FileWorld) (req : UploadArg) : FileWorld :=
  ((upload env req).run world).state

/-- The answer to an upload that is served after those before it. -/
def answerInTurn (env : Env) (start : FileWorld) (reqs : List UploadArg) (turn : ℕ)
    (req : UploadArg) : Except Failure UploadResult :=
  ((upload env req).run (runAll (afterUpload env) start (reqs.take turn))).result

/-- Some uploads have been served in turn, and the others have not begun. -/
structure InTurn (env : Env) (start : FileWorld) (reqs : List UploadArg) (served : ℕ)
    (machine : Machine FileWorld OsCall OsCall.Reply Failure UploadResult) : Prop where
  state : machine.scene.state = runAll (afterUpload env) start (reqs.take served)
  programs : ∀ turn req, reqs[turn]? = some req → machine.programs[turn]? = some
    (if turn < served then .done (answerInTurn env start reqs turn req) else Process.upload req)

variable {env : Env} {start : FileWorld} {reqs : List UploadArg}

theorem InTurn.begin : InTurn env start reqs 0 (uploading start reqs) where
  state := rfl
  programs := by
    intro turn req found
    rw [uploading, List.getElem?_map, found]
    rfl

/-- **The next upload in turn makes all of its calls.** -/
theorem InTurn.next {served : ℕ}
    {machine : Machine FileWorld OsCall OsCall.Reply Failure UploadResult}
    (inTurn : InTurn env start reqs served machine) (more : served < reqs.length) :
    ∃ count, InTurn env start reqs (served + 1)
      (runAll (Machine.next (performOs env)) machine (List.replicate count served)) := by
  have found : reqs[served]? = some reqs[served] := List.getElem?_eq_getElem more
  have program := inTurn.programs served reqs[served] found
  rw [if_neg (Nat.lt_irrefl served)] at program
  obtain ⟨count, history, run⟩ := Machine.run_alone (performOs env) program
  have alone := @Process.upload_agrees env reqs[served] machine.scene.state
  refine ⟨count, ?_, fun turn req there => ?_⟩
  · rw [run, alone, inTurn.state, List.take_add_one, found, runAll_append]
    rfl
  · rw [run, alone, inTurn.state]
    rcases Nat.lt_trichotomy turn served with earlier | rfl | later
    · rw [List.getElem?_set_ne (Nat.ne_of_gt earlier), inTurn.programs turn req there,
        if_pos earlier, if_pos (Nat.lt_succ_of_lt earlier)]
    · obtain rfl := Option.some_inj.mp (found.symm.trans there)
      rw [List.getElem?_set_self (List.getElem?_eq_some_iff.mp program).1,
        if_pos (Nat.lt_succ_self _)]
      rfl
    · rw [List.getElem?_set_ne (Nat.ne_of_lt later), inTurn.programs turn req there,
        if_neg (Nat.not_lt_of_gt later), if_neg (by omega)]

/-- **Uploads that are served one after the other are one of the interleavings.** -/
theorem uploads_in_turn (env : Env) (start : FileWorld) (reqs : List UploadArg) : ∃ schedule,
    (afterSchedule env start reqs schedule).scene.state = runAll (afterUpload env) start reqs ∧
      ∀ turn req, reqs[turn]? = some req →
        answerOf (afterSchedule env start reqs schedule) turn =
          some (answerInTurn env start reqs turn req) := by
  have served : ∀ count ≤ reqs.length, ∃ schedule,
      InTurn env start reqs count (afterSchedule env start reqs schedule) := by
    intro count
    induction count with
    | zero => exact fun _ => ⟨[], InTurn.begin⟩
    | succ count ih =>
        intro small
        obtain ⟨schedule, inTurn⟩ := ih (by omega)
        obtain ⟨calls, next⟩ := inTurn.next small
        refine ⟨schedule ++ List.replicate calls count, ?_⟩
        rw [afterSchedule, runAll_append]
        exact next
  obtain ⟨schedule, inTurn⟩ := served reqs.length (Nat.le_refl _)
  refine ⟨schedule, ?_, fun turn req found => ?_⟩
  · rw [inTurn.state, List.take_length]
  · have inside := (List.getElem?_eq_some_iff.mp found).1
    rw [answerOf, inTurn.programs turn req found, if_pos inside]

end Yeetbox.FileStorage
