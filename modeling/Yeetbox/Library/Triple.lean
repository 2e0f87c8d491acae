import Yeetbox.Library.Handler

/-!
# Triples for handlers

A triple says what a handler does from every state that satisfies its precondition: a value comes
with a state that satisfies the postcondition, and an error is one of the permitted exits. Each
statement has its rule, a sequence is proved statement by statement (`Triple.bind`), and what a
statement has found out is at hand for the statements after it (`Triple.get_bind`,
`Triple.orFail_bind`, `Triple.ofExcept_bind`).
-/

set_option autoImplicit false

namespace Yeetbox.Library

variable {State Err Value Next : Type}

namespace Handler

/-- What a handler does from the states of a precondition. -/
structure Triple (pre : State → Prop) (handler : Handler State Err Value)
    (post : Value → State → Prop) (exits : Err → Prop) : Prop where
  value : ∀ state, pre state → ∀ value, (handler.run state).result = .ok value →
    post value (handler.run state).state
  error : ∀ state, pre state → ∀ err, (handler.run state).result = .error err → exits err

variable {pre : State → Prop} {post : Value → State → Prop} {exits : Err → Prop}

/-! ## Rules for statements -/

theorem Triple.pure {value : Value} (holds : ∀ state, pre state → post value state) :
    Triple pre (Pure.pure value : Handler State Err Value) post exits where
  value := by
    intro state start result same
    cases same
    exact holds state start
  error := by
    intro state start err same
    cases same

theorem Triple.fail {err : Err} (permitted : exits err) :
    Triple pre (fail err : Handler State Err Value) post exits where
  value := by
    intro state start result same
    cases same
  error := by
    intro state start other same
    cases same
    exact permitted

theorem Triple.effect {change : State → State} {post : Unit → State → Prop}
    (holds : ∀ state, pre state → post () (change state)) :
    Triple pre (effect change : Handler State Err Unit) post exits where
  value := fun state start _ _ => holds state start
  error := by
    intro state start err same
    cases same

theorem Triple.draw {reading : State → Value} {advance : State → State}
    (holds : ∀ state, pre state → post (reading state) (advance state)) :
    Triple pre (draw reading advance : Handler State Err Value) post exits where
  value := by
    intro state start value same
    cases same
    exact holds state start
  error := by
    intro state start err same
    cases same

theorem Triple.orFail {err : Err} {found : Option Value} (missing : found = none → exits err) :
    Triple pre (orFail err found) (fun value state => pre state ∧ found = some value) exits := by
  cases found with
  | none => exact .fail (missing rfl)
  | some value => exact .pure fun state start => ⟨start, rfl⟩

theorem Triple.ofExcept {computed : Except Err Value}
    (failed : ∀ err, computed = .error err → exits err) :
    Triple pre (ofExcept computed) (fun value state => pre state ∧ computed = .ok value)
      exits := by
  cases computed with
  | error err => exact .fail (failed err rfl)
  | ok value => exact .pure fun state start => ⟨start, rfl⟩

theorem Triple.rejectIf {condition : Bool} {err : Err} (permitted : condition = true → exits err) :
    Triple pre (rejectIf condition err) (fun _ state => pre state ∧ condition = false) exits := by
  cases condition with
  | true => exact .fail (permitted rfl)
  | false => exact .pure fun state start => ⟨start, rfl⟩

/-- What the precondition settles holds after every handler, if all exits are permitted. -/
theorem Triple.settled {handler : Handler State Err Value}
    (holds : ∀ state, pre state → ∀ value later, post value later)
    (permitted : ∀ err, exits err) : Triple pre handler post exits where
  value := fun state start value _ => holds state start value _
  error := fun _ _ err _ => permitted err

/-! ## Sequences -/

/-- A weaker postcondition. -/
theorem Triple.weaken {handler : Handler State Err Value} {weaker : Value → State → Prop}
    (triple : Triple pre handler post exits)
    (implied : ∀ value state, post value state → weaker value state) :
    Triple pre handler weaker exits where
  value := fun state start value same => implied _ _ (triple.value state start value same)
  error := triple.error

theorem Triple.map {handler : Handler State Err Value} {nextPost : Next → State → Prop}
    (triple : Triple pre handler post exits) {form : Value → Next}
    (implied : ∀ value state, post value state → nextPost (form value) state) :
    Triple pre (handler.map form) nextPost exits where
  value := by
    intro state start value same
    have holds := triple.value state start
    rw [run_map] at same ⊢
    rcases ran : handler.run state with ⟨err | inner, later, stops⟩ <;> rw [ran] at same holds
    · cases same
    · cases same
      exact implied _ _ (holds inner rfl)
  error := by
    intro state start err same
    have permitted := triple.error state start
    rw [run_map] at same
    rcases ran : handler.run state with ⟨other | inner, later, stops⟩ <;>
      rw [ran] at same permitted
    · cases same
      exact permitted err rfl
    · cases same

/-- **A sequence is proved statement by statement.** -/
theorem Triple.bind {first : Handler State Err Value} {next : Value → Handler State Err Next}
    {nextPost : Next → State → Prop} (here : Triple pre first post exits)
    (later : ∀ value, Triple (post value) (next value) nextPost exits) :
    Triple pre (first >>= next) nextPost exits where
  value := by
    intro state start result same
    have holds := here.value state start
    rw [run_bind] at same ⊢
    rcases ran : first.run state with ⟨err | value, middle, stops⟩ <;> rw [ran] at same holds
    · cases same
    · exact (later value).value middle (holds value rfl) result same
  error := by
    intro state start err same
    have holds := here.value state start
    have permitted := here.error state start
    rw [run_bind] at same
    rcases ran : first.run state with ⟨other | value, middle, stops⟩ <;>
      rw [ran] at same holds permitted
    · cases same
      exact permitted err rfl
    · exact (later value).error middle (holds value rfl) err same

/-- The statements after a reading know the state that was read. -/
theorem Triple.get_bind {next : State → Handler State Err Next} {nextPost : Next → State → Prop}
    (later : ∀ state, pre state → Triple pre (next state) nextPost exits) :
    Triple pre (get >>= next) nextPost exits where
  value := fun state start => (later state start).value state start
  error := fun state start => (later state start).error state start

/-- A fact that does not depend on the state can be taken out of a precondition. -/
theorem Triple.given {fact : Prop} {handler : Handler State Err Value}
    (known : fact → Triple pre handler post exits) :
    Triple (fun state => pre state ∧ fact) handler post exits where
  value := fun state start => (known start.2).value state start.1
  error := fun state start => (known start.2).error state start.1

/-- The statements after a value that must be present know what it is. -/
theorem Triple.orFail_bind {err : Err} {found : Option Value}
    {next : Value → Handler State Err Next} {nextPost : Next → State → Prop}
    (missing : found = none → exits err)
    (later : ∀ value, found = some value → Triple pre (next value) nextPost exits) :
    Triple pre (Handler.orFail err found >>= next) nextPost exits :=
  (Triple.orFail missing).bind fun value => .given (later value)

/-- The statements after a computation know its value. -/
theorem Triple.ofExcept_bind {computed : Except Err Value} {next : Value → Handler State Err Next}
    {nextPost : Next → State → Prop} (failed : ∀ err, computed = .error err → exits err)
    (later : ∀ value, computed = .ok value → Triple pre (next value) nextPost exits) :
    Triple pre (Handler.ofExcept computed >>= next) nextPost exits :=
  (Triple.ofExcept failed).bind fun value => .given (later value)

/-- The statements after a check know that it has passed. -/
theorem Triple.rejectIf_bind {condition : Bool} {err : Err} {next : Unit → Handler State Err Next}
    {nextPost : Next → State → Prop} (permitted : condition = true → exits err)
    (later : condition = false → Triple pre (next ()) nextPost exits) :
    Triple pre (Handler.rejectIf condition err >>= next) nextPost exits :=
  (Triple.rejectIf permitted).bind fun _ => .given later

end Handler

end Yeetbox.Library
