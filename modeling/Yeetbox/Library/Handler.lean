import Mathlib.Logic.Relation

/-!
# Handlers that can fail and can be stopped

A handler runs on a state, changes it by a sequence of side effects, and ends with a
value or an error. An error does not undo the effects before it. The process that runs
the handler may also stop for good between any two effects; `stops` lists the states it
then leaves behind, in order.

A relation between states is *followed* by an outcome when every stop and the final
state are reached by finitely many of its steps (`Outcome.Follows`). A property that each
step keeps then holds at every stop and at the end (`Outcome.Follows.invariant`). A handler that
follows a relation from every state, with a postcondition on its value, is `Handler.Follows`, and
following is closed under sequencing (`Handler.Follows.bind`).

A handler that does not look at a part of the state commutes with changes of that part
(`Handler.Commutes`), and so does a sequence of such handlers (`Handler.Commutes.bind`).
-/

set_option autoImplicit false

namespace Yeetbox.Library

/-- What running a handler from a state gives: its result, the state at the end, and the
states after each of its side effects. -/
structure Outcome (State Err Value : Type) where
  result : Except Err Value
  state : State
  stops : List State

/-- A handler: a program with side effects on a state that may end with an error. -/
structure Handler (State Err Value : Type) where
  run : State → Outcome State Err Value

variable {State Err Value Next : Type}

namespace Outcome

/-- The outcome with earlier stops in front of its own. -/
def after (earlier : List State) (outcome : Outcome State Err Value) : Outcome State Err Value :=
  { outcome with stops := earlier ++ outcome.stops }

@[simp] theorem after_after (first second : List State) (outcome : Outcome State Err Value) :
    (outcome.after second).after first = outcome.after (first ++ second) := by
  simp [after]

@[simp] theorem after_result (earlier : List State) (outcome : Outcome State Err Value) :
    (outcome.after earlier).result = outcome.result := rfl

@[simp] theorem after_state (earlier : List State) (outcome : Outcome State Err Value) :
    (outcome.after earlier).state = outcome.state := rfl

@[simp] theorem after_stops (earlier : List State) (outcome : Outcome State Err Value) :
    (outcome.after earlier).stops = earlier ++ outcome.stops := rfl

/-- The outcome with its value put into another form. -/
def map (form : Value → Next) (outcome : Outcome State Err Value) : Outcome State Err Next where
  result := outcome.result.map form
  state := outcome.state
  stops := outcome.stops

theorem map_map {Last : Type} (form : Value → Next) (last : Next → Last)
    (outcome : Outcome State Err Value) :
    (outcome.map form).map last = outcome.map fun value => last (form value) := by
  rcases outcome with ⟨err | value, reached, stops⟩ <;> rfl

end Outcome

namespace Handler

/-! ## Sequencing -/

/-- The handler with its value put into another form. -/
def map (form : Value → Next) (handler : Handler State Err Value) : Handler State Err Next :=
  ⟨fun state => (handler.run state).map form⟩

/-- Continue after an outcome: a value runs on from the state reached, an error ends. -/
def resume (outcome : Outcome State Err Value) (next : Value → Handler State Err Next) :
    Outcome State Err Next :=
  match outcome.result with
  | .ok value => ((next value).run outcome.state).after outcome.stops
  | .error err => ⟨.error err, outcome.state, outcome.stops⟩

instance : Monad (Handler State Err) where
  pure value := ⟨fun state => ⟨.ok value, state, []⟩⟩
  bind first next := ⟨fun state => resume (first.run state) next⟩

/-- End with an error. -/
def fail (err : Err) : Handler State Err Value := ⟨fun state => ⟨.error err, state, []⟩⟩

/-- Read the state. -/
def get : Handler State Err State := ⟨fun state => ⟨.ok state, state, []⟩⟩

/-- A side effect, after which the process may stop. -/
def effect (change : State → State) : Handler State Err Unit :=
  ⟨fun state => ⟨.ok (), change state, [change state]⟩⟩

/-- A reading that moves the state but leaves nothing behind by itself. -/
def draw (reading : State → Value) (advance : State → State) : Handler State Err Value :=
  ⟨fun state => ⟨.ok (reading state), advance state, []⟩⟩

/-- A value that must be present. -/
def orFail (err : Err) : Option Value → Handler State Err Value
  | some value => pure value
  | none => fail err

/-- A computation without side effects. -/
def ofExcept : Except Err Value → Handler State Err Value
  | .ok value => pure value
  | .error err => fail err

/-- End with an error when a condition holds. -/
def rejectIf : Bool → Err → Handler State Err Unit
  | true, err => fail err
  | false, _ => pure ()

/-! ## Running one statement -/

section Running

variable (next : Value → Handler State Err Next) (state : State)

theorem run_bind (first : Handler State Err Value) :
    (first >>= next).run state = resume (first.run state) next := rfl

theorem run_map (handler : Handler State Err Value) (form : Value → Next) :
    (handler.map form).run state = (handler.run state).map form := rfl

@[simp] theorem resume_ok (value : Value) (stops : List State) :
    resume ⟨.ok value, state, stops⟩ next = ((next value).run state).after stops := rfl

@[simp] theorem resume_error (err : Err) (stops : List State) :
    resume ⟨.error err, state, stops⟩ next = ⟨.error err, state, stops⟩ := rfl

theorem resume_map {Last : Type} (form : Value → Next) (next : Next → Handler State Err Last)
    (outcome : Outcome State Err Value) :
    resume (outcome.map form) next = resume outcome fun value => next (form value) := by
  rcases outcome with ⟨err | value, reached, stops⟩ <;> rfl

/-- Putting the value into another form last. -/
theorem run_map_bind {Last : Type} (first : Handler State Err Value) (form : Next → Last) :
    ((first >>= next).map form).run state =
      (first >>= fun value => (next value).map form).run state := by
  rw [run_map, run_bind, run_bind]
  rcases first.run state with ⟨err | value, reached, stops⟩ <;> rfl

theorem run_bind_pure (first : Handler State Err Value) (form : Value → Next) :
    (first >>= fun value => pure (form value)).run state = (first.map form).run state := by
  rw [run_map, run_bind]
  rcases first.run state with ⟨err | value, reached, stops⟩
  · rfl
  · rw [resume_ok]
    exact congrArg (Outcome.mk (.ok (form value)) reached) (List.append_nil stops)

/-- Sequencing is associative. -/
theorem run_bind_assoc {Last : Type} (first : Handler State Err Value)
    (next : Value → Handler State Err Next) (last : Next → Handler State Err Last) :
    ((first >>= next) >>= last).run state =
      (first >>= fun value => next value >>= last).run state := by
  rw [run_bind, run_bind, run_bind]
  rcases first.run state with ⟨err | value, reached, stops⟩
  · rfl
  · rw [resume_ok, resume_ok, run_bind]
    rcases (next value).run reached with ⟨err | inner, later, more⟩
    · rfl
    · rw [resume_ok, Outcome.after_after]
      rfl

@[simp] theorem run_pure (value : Value) :
    (pure value : Handler State Err Value).run state = ⟨.ok value, state, []⟩ := rfl

@[simp] theorem run_pure_bind (value : Value) :
    (pure value >>= next).run state = (next value).run state := rfl

@[simp] theorem run_get_bind (next : State → Handler State Err Next) :
    (get >>= next).run state = (next state).run state := rfl

@[simp] theorem run_effect_bind (change : State → State) (next : Unit → Handler State Err Next) :
    (effect change >>= next).run state = ((next ()).run (change state)).after [change state] := rfl

@[simp] theorem run_draw_bind (reading : State → Value) (advance : State → State) :
    (draw reading advance >>= next).run state = (next (reading state)).run (advance state) := rfl

@[simp] theorem run_orFail_some_bind (err : Err) (value : Value) :
    (orFail err (some value) >>= next).run state = (next value).run state := rfl

@[simp] theorem run_ofExcept_ok_bind (value : Value) :
    (ofExcept (.ok value) >>= next).run state = (next value).run state := rfl

@[simp] theorem run_rejectIf_true_bind (err : Err) (next : Unit → Handler State Err Next) :
    (rejectIf true err >>= next).run state = ⟨.error err, state, []⟩ := rfl

@[simp] theorem run_rejectIf_false_bind (err : Err) (next : Unit → Handler State Err Next) :
    (rejectIf false err >>= next).run state = (next ()).run state := rfl

end Running

end Handler

/-! ## What holds throughout an outcome -/

namespace Outcome

/-- A property of every stop and of the final state. -/
structure Throughout (Holds : State → Prop) (outcome : Outcome State Err Value) : Prop where
  stops : ∀ stop ∈ outcome.stops, Holds stop
  state : Holds outcome.state

theorem Throughout.still {Holds : State → Prop} {start : State} (holds : Holds start)
    (result : Except Err Value) : Throughout Holds (⟨result, start, []⟩ : Outcome _ _ _) where
  stops := fun _ member => absurd member List.not_mem_nil
  state := holds

/-- An outcome whose only stop is its end. -/
theorem Throughout.single {Holds : State → Prop} {later : State} (holds : Holds later)
    (result : Except Err Value) : Throughout Holds (⟨result, later, [later]⟩ : Outcome _ _ _) where
  stops := fun _ member => List.mem_singleton.mp member ▸ holds
  state := holds

theorem Throughout.after {Holds : State → Prop} {outcome : Outcome State Err Value}
    (holds : outcome.Throughout Holds) {earlier : List State}
    (before : ∀ stop ∈ earlier, Holds stop) : (outcome.after earlier).Throughout Holds where
  stops := fun stop member => (List.mem_append.mp member).elim (before stop) (holds.stops stop)
  state := holds.state

theorem Throughout.map {Holds : State → Prop} {outcome : Outcome State Err Value}
    (holds : outcome.Throughout Holds) (form : Value → Next) :
    (outcome.map form).Throughout Holds :=
  ⟨holds.stops, holds.state⟩

/-! ## Following a relation -/

variable {step : State → State → Prop}

/-- Every stop and the final state are reached from the start by steps of the relation. -/
structure Follows (step : State → State → Prop) (start : State)
    (outcome : Outcome State Err Value) : Prop where
  stops : ∀ stop ∈ outcome.stops, Relation.ReflTransGen step start stop
  state : Relation.ReflTransGen step start outcome.state

/-- An outcome that leaves the state alone and has no stop follows every relation. -/
theorem Follows.still {start : State} {result : Except Err Value} :
    Follows step start ⟨result, start, []⟩ where
  stops := fun _ member => absurd member List.not_mem_nil
  state := .refl

/-- **What every step keeps holds at every stop and at the end.** -/
theorem Follows.invariant {start : State} {outcome : Outcome State Err Value}
    (follows : Follows step start outcome) {Holds : State → Prop} (initially : Holds start)
    (kept : ∀ {before later}, step before later → Holds before → Holds later) :
    outcome.Throughout Holds := by
  have lift : ∀ {last}, Relation.ReflTransGen step start last → Holds last := by
    intro last steps
    induction steps with
    | refl => exact initially
    | tail _ one ih => exact kept one ih
  exact ⟨fun stop member => lift (follows.stops stop member), lift follows.state⟩

/-- A path that begins with some steps. -/
theorem Follows.after {start middle : State} {earlier : List State}
    {outcome : Outcome State Err Value}
    (first : Relation.ReflTransGen step start middle)
    (before : ∀ stop ∈ earlier, Relation.ReflTransGen step start stop)
    (follows : Follows step middle outcome) : Follows step start (outcome.after earlier) where
  stops := by
    intro stop member
    rcases List.mem_append.mp member with here | later
    · exact before stop here
    · exact first.trans (follows.stops stop later)
  state := first.trans follows.state

end Outcome

namespace Handler

variable {step : State → State → Prop}

/-- From every state the handler follows the relation, and a value that it ends with satisfies a
postcondition. -/
structure Follows (step : State → State → Prop) (post : Value → Prop)
    (handler : Handler State Err Value) : Prop where
  outcome : ∀ state, (handler.run state).Follows step state
  value : ∀ state value, (handler.run state).result = .ok value → post value

theorem Follows.pure {post : Value → Prop} {value : Value} (holds : post value) :
    Follows step post (pure value : Handler State Err Value) where
  outcome := fun _ => .still
  value := fun _ _ same => Except.ok.inj same ▸ holds

theorem Follows.done (value : Value) :
    Follows step (fun _ => True) (Pure.pure value : Handler State Err Value) :=
  .pure trivial

theorem Follows.fail {post : Value → Prop} (err : Err) :
    Follows step post (fail err : Handler State Err Value) where
  outcome := fun _ => .still
  value := fun _ _ same => by cases same

theorem Follows.get {post : State → Prop} (holds : ∀ state, post state) :
    Follows step post (get : Handler State Err State) where
  outcome := fun _ => .still
  value := fun _ value _ => holds value

theorem Follows.effect {change : State → State}
    (steps : ∀ state, Relation.ReflTransGen step state (change state)) :
    Follows step (fun _ => True) (effect change : Handler State Err Unit) where
  outcome := fun state => {
    stops := fun _ member => List.mem_singleton.mp member ▸ steps state
    state := steps state }
  value := fun _ _ _ => trivial

theorem Follows.orFail {post : Value → Prop} {found : Option Value} (err : Err)
    (holds : ∀ value, found = some value → post value) :
    Follows step post (orFail err found : Handler State Err Value) := by
  cases found with
  | none => exact .fail err
  | some value => exact .pure (holds value rfl)

theorem Follows.rejectIf (condition : Bool) (err : Err) :
    Follows step (fun _ => True) (rejectIf condition err : Handler State Err Unit) := by
  cases condition with
  | true => exact .fail err
  | false => exact .pure trivial

/-- **Following is closed under sequencing.** -/
theorem Follows.bind {post : Value → Prop} {nextPost : Next → Prop}
    {first : Handler State Err Value} {next : Value → Handler State Err Next}
    (here : Follows step post first)
    (later : ∀ value, post value → Follows step nextPost (next value)) :
    Follows step nextPost (first >>= next) where
  outcome := by
    intro state
    have outcome := here.outcome state
    have value := here.value state
    rw [run_bind]
    rcases ran : first.run state with ⟨err | reached, middle, stops⟩ <;> rw [ran] at outcome value
    · exact ⟨outcome.stops, outcome.state⟩
    · rw [resume_ok]
      exact .after outcome.state outcome.stops ((later reached (value reached rfl)).outcome middle)
  value := by
    intro state result ok
    have value := here.value state
    rw [run_bind] at ok
    rcases ran : first.run state with ⟨err | reached, middle, stops⟩ <;> rw [ran] at ok value
    · cases ok
    · rw [resume_ok, Outcome.after_result] at ok
      exact (later reached (value reached rfl)).value middle result ok

/-! ## Handlers that do not look at a part of the state -/

/-- Running from a changed state gives the same result, and the state at the end is changed in the
same way. -/
structure Commutes (change : State → State) (handler : Handler State Err Value) : Prop where
  result : ∀ state, (handler.run (change state)).result = (handler.run state).result
  state : ∀ state, (handler.run (change state)).state = change (handler.run state).state

variable {change : State → State}

theorem Commutes.both {handler : Handler State Err Value} (commutes : Commutes change handler)
    (state : State) : (handler.run (change state)).result = (handler.run state).result ∧
      (handler.run (change state)).state = change (handler.run state).state :=
  ⟨commutes.result state, commutes.state state⟩

theorem Commutes.pure (value : Value) :
    Commutes change (pure value : Handler State Err Value) :=
  ⟨fun _ => rfl, fun _ => rfl⟩

theorem Commutes.fail (err : Err) : Commutes change (fail err : Handler State Err Value) :=
  ⟨fun _ => rfl, fun _ => rfl⟩

theorem Commutes.effect {act : State → State}
    (swap : ∀ state, act (change state) = change (act state)) :
    Commutes change (effect act : Handler State Err Unit) :=
  ⟨fun _ => rfl, swap⟩

theorem Commutes.draw {reading : State → Value} {advance : State → State}
    (same : ∀ state, reading (change state) = reading state)
    (swap : ∀ state, advance (change state) = change (advance state)) :
    Commutes change (draw reading advance : Handler State Err Value) :=
  ⟨fun state => congrArg Except.ok (same state), swap⟩

theorem Commutes.orFail (err : Err) (found : Option Value) :
    Commutes change (orFail err found : Handler State Err Value) := by
  cases found with
  | none => exact .fail err
  | some value => exact .pure value

theorem Commutes.rejectIf (condition : Bool) (err : Err) :
    Commutes change (rejectIf condition err : Handler State Err Unit) := by
  cases condition with
  | true => exact .fail err
  | false => exact .pure ()

/-- **Commuting is closed under sequencing.** -/
theorem Commutes.bind {first : Handler State Err Value} {next : Value → Handler State Err Next}
    (here : Commutes change first) (later : ∀ value, Commutes change (next value)) :
    Commutes change (first >>= next) := by
  have both : ∀ state, ((first >>= next).run (change state)).result =
        ((first >>= next).run state).result ∧
      ((first >>= next).run (change state)).state = change ((first >>= next).run state).state := by
    intro state
    have result := here.result state
    have reached := here.state state
    rw [run_bind, run_bind]
    rcases ran : first.run state with ⟨err | value, middle, stops⟩ <;>
      rcases ran' : first.run (change state) with ⟨err' | value', middle', stops'⟩ <;>
        rw [ran, ran'] at result reached
    · cases result
      exact ⟨rfl, reached⟩
    · cases result
    · cases result
    · cases result
      cases reached
      exact ⟨(later value).result middle, (later value).state middle⟩
  exact ⟨fun state => (both state).1, fun state => (both state).2⟩

end Handler

end Yeetbox.Library
