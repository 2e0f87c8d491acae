import Mathlib.Data.Nat.Notation
import Yeetbox.Library.Handler
import Yeetbox.Library.Runs

/-!
# Processes that run at the same time

A program makes calls, one after the other, and goes on with their replies (`Program`). Each call is
atomic. Several programs run at the same time on one state: a schedule says which of them makes the
next call, and a process that it never names again has stopped (`Machine.next`). The scene keeps the
history of the calls beside the state, each with the process that made it.

What holds in every interleaving is shown by relying and guaranteeing (`Discipline`). Each process
makes only calls that it is permitted where it makes them, and relies on what the others can do with
the calls that they are permitted. A program that is secured in this way on its own ends as it
should whatever runs beside it (`Discipline.interleaved`).

A process that runs alone does what a handler does that makes the same calls (`Agrees`).
-/

set_option autoImplicit false

namespace Yeetbox.Library

/-! ## Programs -/

/-- A program that makes calls and goes on with their replies. -/
inductive Program (Call : Type) (Reply : Call → Type) (Err Value : Type) : Type where
  | done (result : Except Err Value)
  | ask (call : Call) (next : Reply call → Program Call Reply Err Value)

variable {State Call : Type} {Reply : Call → Type} {Err Value Next : Type}

namespace Program

/-- Continue with a value; an error ends the program. -/
def andThen : Program Call Reply Err Value → (Value → Program Call Reply Err Next) →
    Program Call Reply Err Next
  | .done (.ok value), next => next value
  | .done (.error err), _ => .done (.error err)
  | .ask call continued, next => .ask call fun reply => (continued reply).andThen next

instance : Monad (Program Call Reply Err) where
  pure value := .done (.ok value)
  bind := andThen

/-- Make one call. -/
def make (call : Call) : Program Call Reply Err (Reply call) :=
  .ask call fun reply => .done (.ok reply)

def fail (err : Err) : Program Call Reply Err Value := .done (.error err)

def orFail (err : Err) : Option Value → Program Call Reply Err Value
  | some value => pure value
  | none => fail err

def ofExcept : Except Err Value → Program Call Reply Err Value := .done

def rejectIf : Bool → Err → Program Call Reply Err Unit
  | true, err => fail err
  | false, _ => pure ()

@[simp] theorem orFail_some_bind (err : Err) (value : Value)
    (next : Value → Program Call Reply Err Next) :
    (orFail err (some value) >>= next) = next value := rfl

theorem bind_assoc {Last : Type} (program : Program Call Reply Err Value)
    (next : Value → Program Call Reply Err Next) (last : Next → Program Call Reply Err Last) :
    (program >>= next) >>= last = program >>= fun value => next value >>= last := by
  induction program with
  | done result => rcases result with err | value <;> rfl
  | ask call continued ih =>
      apply congrArg (Program.ask call)
      funext reply
      exact ih reply

variable (perform : (call : Call) → State → Reply call × State)

/-- Run a program alone. -/
def run : Program Call Reply Err Value → State → Except Err Value × State
  | .done result, state => (result, state)
  | .ask call next, state => (next (perform call state).1).run (perform call state).2

/-- The program alone ends as the handler does. -/
def Agrees (program : Program Call Reply Err Value) (handler : Handler State Err Value) : Prop :=
  ∀ state, program.run perform state = ((handler.run state).result, (handler.run state).state)

end Program

/-! ## Programs that agree with handlers -/

namespace Program.Agrees

variable {perform : (call : Call) → State → Reply call × State}

theorem pure (value : Value) :
    Agrees perform (Pure.pure value : Program Call Reply Err Value) (Pure.pure value) :=
  fun _ => rfl

theorem fail (err : Err) :
    Agrees perform (.fail err : Program Call Reply Err Value) (.fail err) := fun _ => rfl

theorem orFail (err : Err) (found : Option Value) :
    Agrees perform (.orFail err found : Program Call Reply Err Value) (.orFail err found) := by
  cases found with
  | none => exact fail err
  | some value => exact pure value

theorem ofExcept (result : Except Err Value) :
    Agrees perform (.ofExcept result : Program Call Reply Err Value) (.ofExcept result) := by
  cases result with
  | error err => exact fail err
  | ok value => exact pure value

theorem rejectIf (condition : Bool) (err : Err) :
    Agrees perform (.rejectIf condition err : Program Call Reply Err Unit)
      (.rejectIf condition err) := by
  cases condition with
  | true => exact fail err
  | false => exact pure ()

theorem run_bind (program : Program Call Reply Err Value)
    (next : Value → Program Call Reply Err Next) (state : State) :
    (program >>= next).run perform state =
      match program.run perform state with
      | (.ok value, later) => (next value).run perform later
      | (.error err, later) => (.error err, later) := by
  induction program generalizing state with
  | done result => rcases result with err | value <;> rfl
  | ask call continued ih => exact ih _ _

/-- **Agreement is closed under sequencing.** -/
theorem bind {program : Program Call Reply Err Value} {handler : Handler State Err Value}
    {next : Value → Program Call Reply Err Next} {rest : Value → Handler State Err Next}
    (here : Agrees perform program handler)
    (later : ∀ value, Agrees perform (next value) (rest value)) :
    Agrees perform (program >>= next) (handler >>= rest) := by
  intro state
  rw [run_bind, here state, Handler.run_bind, Handler.resume]
  rcases (handler.run state).result with err | value
  · rfl
  · exact later value _

end Program.Agrees

/-! ## Scenes and machines -/

/-- A call that a process made, with the state before it. -/
structure Event (State Call : Type) where
  process : ℕ
  call : Call
  before : State

/-- The shared state, and the calls that were made, the latest one last. -/
structure Scene (State Call : Type) where
  state : State
  history : List (Event State Call) := []

/-- Programs that run at the same time. -/
structure Machine (State Call : Type) (Reply : Call → Type) (Err Value : Type) where
  scene : Scene State Call
  programs : List (Program Call Reply Err Value)

section Steps

variable (perform : (call : Call) → State → Reply call × State)

/-- The scene after a call. -/
def Scene.make (scene : Scene State Call) (process : ℕ) (call : Call) : Scene State Call where
  state := (perform call scene.state).2
  history := scene.history ++ [⟨process, call, scene.state⟩]

/-- A process has made a call with some property, which may depend on the state before it. -/
def Scene.Did (scene : Scene State Call) (process : ℕ) (what : Call → State → Prop) : Prop :=
  ∃ event ∈ scene.history, event.process = process ∧ what event.call event.before

variable {perform} in
theorem Scene.did_make {scene : Scene State Call} {process other : ℕ} {call : Call}
    {what : Call → State → Prop} : (scene.make perform other call).Did process what ↔
      scene.Did process what ∨ other = process ∧ what call scene.state := by
  constructor
  · rintro ⟨event, member, made, holds⟩
    rcases List.mem_append.mp member with earlier | latest
    · exact .inl ⟨event, earlier, made, holds⟩
    · obtain rfl := List.mem_singleton.mp latest
      exact .inr ⟨made, holds⟩
  · rintro (⟨event, member, made, holds⟩ | ⟨made, holds⟩)
    · exact ⟨event, List.mem_append_left _ member, made, holds⟩
    · exact ⟨_, List.mem_append_right _ (List.mem_singleton_self _), made, holds⟩

/-- A process makes its next call. A process that is done, or is not there, makes none. -/
def Machine.next (machine : Machine State Call Reply Err Value) (process : ℕ) :
    Machine State Call Reply Err Value :=
  match machine.programs[process]? with
  | some (.ask call continued) =>
      ⟨machine.scene.make perform process call,
        machine.programs.set process (continued (perform call machine.scene.state).1)⟩
  | _ => machine

/-- What a step does: nothing, or a call of its process. -/
theorem Machine.next_cases (machine : Machine State Call Reply Err Value) (process : ℕ) :
    machine.next perform process = machine ∨
      ∃ call continued, machine.programs[process]? = some (.ask call continued) ∧
        machine.next perform process =
          ⟨machine.scene.make perform process call,
            machine.programs.set process (continued (perform call machine.scene.state).1)⟩ := by
  rw [next]
  rcases found : machine.programs[process]? with _ | result | ⟨call, continued⟩
  · exact .inl rfl
  · exact .inl rfl
  · exact .inr ⟨call, continued, rfl, rfl⟩

/-- **A process that is scheduled again and again ends as its program does alone.** -/
theorem Machine.run_alone {machine : Machine State Call Reply Err Value} {process : ℕ}
    {program : Program Call Reply Err Value}
    (found : machine.programs[process]? = some program) :
    ∃ count history, runAll (Machine.next perform) machine (List.replicate count process) =
      ⟨⟨(program.run perform machine.scene.state).2, history⟩,
        machine.programs.set process (.done (program.run perform machine.scene.state).1)⟩ := by
  induction program generalizing machine with
  | done result =>
      refine ⟨0, machine.scene.history, ?_⟩
      obtain ⟨inside, same⟩ := List.getElem?_eq_some_iff.mp found
      rw [Program.run, ← same, List.set_getElem_self]
      rfl
  | ask call continued ih =>
      have inside := (List.getElem?_eq_some_iff.mp found).1
      have stepped : machine.next perform process = ⟨machine.scene.make perform process call,
          machine.programs.set process (continued (perform call machine.scene.state).1)⟩ := by
        rw [next, found]
      obtain ⟨count, history, rest⟩ := @ih (perform call machine.scene.state).1
        (machine.next perform process) (by rw [stepped]; exact List.getElem?_set_self inside)
      refine ⟨count + 1, history, ?_⟩
      rw [List.replicate_succ, runAll_cons, rest, stepped, List.set_set]
      rfl

end Steps

/-! ## Relying and guaranteeing -/

/-- What each process may do, and what it relies on while the others do what they may. The scene is
sound throughout. -/
structure Discipline (perform : (call : Call) → State → Reply call × State) where
  sound : Scene State Call → Prop
  permits : ℕ → Scene State Call → Call → Prop
  rely : ℕ → Scene State Call → Scene State Call → Prop
  rely_refl : ∀ process scene, rely process scene scene
  rely_trans : ∀ {process first second third},
    rely process first second → rely process second third → rely process first third
  kept : ∀ {process scene call}, sound scene → permits process scene call →
    sound (scene.make perform process call)
  others : ∀ {process other scene call}, process ≠ other → sound scene →
    permits other scene call → rely process scene (scene.make perform other call)

namespace Discipline

variable {perform : (call : Call) → State → Reply call × State}
  (discipline : Discipline perform)

/-- Whatever the others do, the program makes permitted calls only and ends as it should. -/
def Secured (process : ℕ) (post : Except Err Value → Scene State Call → Prop) :
    Program Call Reply Err Value → Scene State Call → Prop
  | .done result, scene => ∀ later, discipline.rely process scene later →
      discipline.sound later → post result later
  | .ask call next, scene => ∀ later, discipline.rely process scene later →
      discipline.sound later → discipline.permits process later call ∧
        Secured process post (next (perform call later.state).1) (later.make perform process call)

variable {discipline}

namespace Secured

variable {process : ℕ} {post : Except Err Value → Scene State Call → Prop}
  {program : Program Call Reply Err Value} {scene : Scene State Call}

/-- A program stays secured while the others go on. -/
theorem later (secured : discipline.Secured process post program scene)
    {later : Scene State Call} (relied : discipline.rely process scene later) :
    discipline.Secured process post program later := by
  cases program with
  | done result =>
      exact fun last further => secured last (discipline.rely_trans relied further)
  | ask call next =>
      exact fun last further => secured last (discipline.rely_trans relied further)

/-- To secure a program, one may first let the others go on. -/
theorem of_later (secured : ∀ later, discipline.rely process scene later →
      discipline.sound later → discipline.Secured process post program later) :
    discipline.Secured process post program scene := by
  cases program with
  | done result =>
      exact fun last relied sound => secured last relied sound last
        (discipline.rely_refl process last) sound
  | ask call next =>
      exact fun last relied sound => secured last relied sound last
        (discipline.rely_refl process last) sound

/-- What a program ends with may be weakened. -/
theorem mono {weaker : Except Err Value → Scene State Call → Prop}
    (secured : discipline.Secured process post program scene)
    (implies : ∀ result later, post result later → weaker result later) :
    discipline.Secured process weaker program scene := by
  induction program generalizing scene with
  | done result =>
      exact fun later relied sound => implies result later (secured later relied sound)
  | ask call next ih =>
      intro later relied sound
      obtain ⟨permitted, rest⟩ := secured later relied sound
      exact ⟨permitted, ih _ rest⟩

theorem done {result : Except Err Value} (holds : ∀ later, discipline.rely process scene later →
    discipline.sound later → post result later) :
    discipline.Secured process post (.done result) scene := holds

/-- One call, made after the others went on. -/
theorem make_bind {call : Call} {next : Reply call → Program Call Reply Err Value}
    (holds : ∀ later, discipline.rely process scene later → discipline.sound later →
      discipline.permits process later call ∧
        (discipline.sound (later.make perform process call) →
          discipline.Secured process post (next (perform call later.state).1)
            (later.make perform process call))) :
    discipline.Secured process post (Program.make call >>= next) scene := by
  intro later relied sound
  obtain ⟨permitted, onwards⟩ := holds later relied sound
  exact ⟨permitted, onwards (discipline.kept sound permitted)⟩

/-- **A sequence is secured by its parts.** -/
theorem bind {first : Program Call Reply Err Next}
    {next : Next → Program Call Reply Err Value}
    {between : Except Err Next → Scene State Call → Prop}
    (here : discipline.Secured process between first scene)
    (failed : ∀ err later, between (.error err) later → post (.error err) later)
    (onwards : ∀ value later, between (.ok value) later → discipline.sound later →
      discipline.Secured process post (next value) later) :
    discipline.Secured process post (first >>= next) scene := by
  induction first generalizing scene with
  | done result =>
      apply of_later
      intro later relied sound
      rcases result with err | value
      · refine Secured.done fun last further still => failed err last ?_
        exact here last (discipline.rely_trans relied further) still
      · exact onwards value later (here later relied sound) sound
  | ask call continued ih =>
      intro later relied sound
      obtain ⟨permitted, rest⟩ := here later relied sound
      exact ⟨permitted, ih _ rest⟩

end Secured

/-- All programs of a machine are secured where they stand. -/
structure SecuredAll (discipline : Discipline perform)
    (post : ℕ → Except Err Value → Scene State Call → Prop)
    (machine : Machine State Call Reply Err Value) : Prop where
  sound : discipline.sound machine.scene
  each : ∀ process program, machine.programs[process]? = some program →
    discipline.Secured process (post process) program machine.scene

variable {post : ℕ → Except Err Value → Scene State Call → Prop}
  {machine : Machine State Call Reply Err Value}

/-- A step makes a permitted call, if any, and leaves all programs secured. -/
theorem SecuredAll.step (secured : SecuredAll discipline post machine) (process : ℕ) :
    SecuredAll discipline post (machine.next perform process) ∧
      ((machine.next perform process).scene = machine.scene ∨
        ∃ call, discipline.permits process machine.scene call ∧
          (machine.next perform process).scene = machine.scene.make perform process call) := by
  rcases machine.next_cases perform process with same | ⟨call, continued, found, stepped⟩
  · rw [same]
    exact ⟨secured, .inl rfl⟩
  · obtain ⟨permitted, rest⟩ := secured.each process _ found machine.scene
      (discipline.rely_refl process machine.scene) secured.sound
    rw [stepped]
    refine ⟨⟨discipline.kept secured.sound permitted, ?_⟩, .inr ⟨call, permitted, rfl⟩⟩
    intro other program there
    by_cases same : process = other
    · obtain rfl := same
      rw [List.getElem?_set_self (List.getElem?_eq_some_iff.mp found).1, Option.some_inj] at there
      exact there ▸ rest
    · rw [List.getElem?_set_ne same] at there
      exact (secured.each other program there).later
        (discipline.others (Ne.symm same) secured.sound permitted)

/-- **Programs that are secured on their own are secured in every interleaving.** -/
theorem SecuredAll.interleaved (secured : SecuredAll discipline post machine)
    (schedule : List ℕ) :
    SecuredAll discipline post (runAll (Machine.next perform) machine schedule) := by
  apply @runAll_invariant _ _ _ (SecuredAll discipline post)
  · exact fun _ process holds => (holds.step process).1
  · exact secured

/-- **What every permitted call keeps holds in every interleaving.** -/
theorem SecuredAll.keeps (secured : SecuredAll discipline post machine)
    (Holds : Scene State Call → Prop)
    (kept : ∀ process scene call, discipline.sound scene →
      discipline.permits process scene call → Holds scene →
      Holds (scene.make perform process call)) (schedule : List ℕ)
    (initially : Holds machine.scene) :
    Holds (runAll (Machine.next perform) machine schedule).scene := by
  induction schedule generalizing machine with
  | nil => exact initially
  | cons process rest ih =>
      obtain ⟨still, stepped⟩ := secured.step process
      apply ih still
      rcases stepped with same | ⟨call, permitted, made⟩
      · rw [same]
        exact initially
      · rw [made]
        exact kept process machine.scene call secured.sound permitted initially

end Discipline

end Yeetbox.Library
