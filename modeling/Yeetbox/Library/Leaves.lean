import Yeetbox.Library.Handler

/-!
# What a handler leaves as it was

A view shows a part of the state. `Leaves` says what it shows when a handler has ended, with a value
or with an error. Each statement has its rule, as an equivalence: a check leaves what it finds, so a
handler that begins with checks leaves the state alone exactly when its other statements do wherever
the checks pass. Going through the statements in this way turns `Leaves` into a condition on the
state before.
-/

set_option autoImplicit false

namespace Yeetbox.Library

variable {State Err Value Next View : Type}

namespace Handler

/-- A view shows a given thing when the handler has ended. -/
def Leaves (view : State → View) (shown : View) (handler : Handler State Err Value)
    (state : State) : Prop :=
  view (handler.run state).state = shown

variable {view : State → View} {shown : View} {state : State}

theorem leaves_pure_iff {value : Value} :
    Leaves view shown (pure value : Handler State Err Value) state ↔ view state = shown :=
  Iff.rfl

theorem leaves_effect_iff {change : State → State} :
    Leaves view shown (effect change : Handler State Err Unit) state ↔
      view (change state) = shown :=
  Iff.rfl

theorem leaves_map_iff {handler : Handler State Err Value} {form : Value → Next} :
    Leaves view shown (handler.map form) state ↔ Leaves view shown handler state :=
  Iff.rfl

theorem leaves_pure_bind_iff {value : Value} {next : Value → Handler State Err Next} :
    Leaves view shown (pure value >>= next) state ↔ Leaves view shown (next value) state :=
  Iff.rfl

theorem leaves_get_bind_iff {next : State → Handler State Err Next} :
    Leaves view shown (get >>= next) state ↔ Leaves view shown (next state) state :=
  Iff.rfl

theorem leaves_draw_bind_iff {reading : State → Value} {advance : State → State}
    {next : Value → Handler State Err Next} :
    Leaves view shown (draw reading advance >>= next) state ↔
      Leaves view shown (next (reading state)) (advance state) :=
  Iff.rfl

theorem leaves_effect_bind_iff {change : State → State} {next : Unit → Handler State Err Next} :
    Leaves view shown (effect change >>= next) state ↔
      Leaves view shown (next ()) (change state) :=
  Iff.rfl

theorem leaves_bind_assoc_iff {Last : Type} {first : Handler State Err Value}
    {next : Value → Handler State Err Next} {last : Next → Handler State Err Last} :
    Leaves view shown ((first >>= next) >>= last) state ↔
      Leaves view shown (first >>= fun value => next value >>= last) state := by
  rw [Leaves, Leaves, run_bind_assoc]

theorem leaves_ite_iff {condition : Prop} [Decidable condition]
    {first second : Handler State Err Value} :
    Leaves view shown (if condition then first else second) state ↔
      if condition then Leaves view shown first state else Leaves view shown second state := by
  split <;> exact Iff.rfl

/-- A value that must be present leaves the state alone where it is missing. -/
theorem leaves_orFail_bind_iff (here : view state = shown) {err : Err} {found : Option Value}
    {next : Value → Handler State Err Next} :
    Leaves view shown (orFail err found >>= next) state ↔
      ∀ value, found = some value → Leaves view shown (next value) state := by
  cases found with
  | none => exact ⟨fun _ _ none => (by cases none), fun _ => here⟩
  | some value =>
      constructor
      · rintro leaves _ ⟨⟩
        exact leaves
      · exact fun leaves => leaves value rfl

theorem leaves_ofExcept_bind_iff (here : view state = shown) {computed : Except Err Value}
    {next : Value → Handler State Err Next} :
    Leaves view shown (ofExcept computed >>= next) state ↔
      ∀ value, computed = .ok value → Leaves view shown (next value) state := by
  cases computed with
  | error err => exact ⟨fun _ _ error => (by cases error), fun _ => here⟩
  | ok value =>
      constructor
      · rintro leaves _ ⟨⟩
        exact leaves
      · exact fun leaves => leaves value rfl

theorem leaves_rejectIf_bind_iff (here : view state = shown) {condition : Bool} {err : Err}
    {next : Unit → Handler State Err Next} :
    Leaves view shown (rejectIf condition err >>= next) state ↔
      (condition = false → Leaves view shown (next ()) state) := by
  cases condition with
  | true => exact ⟨fun _ passed => (by cases passed), fun _ => here⟩
  | false => exact ⟨fun leaves _ => leaves, fun leaves => leaves rfl⟩

/-- Statements that the view does not see can be left out at the end. -/
theorem leaves_bind_unseen_iff {first : Handler State Err Value}
    {next : Value → Handler State Err Next}
    (unseen : ∀ value reached, view ((next value).run reached).state = view reached) :
    Leaves view shown (first >>= next) state ↔ Leaves view shown first state := by
  rw [Leaves, Leaves, run_bind]
  rcases first.run state with ⟨err | value, reached, stops⟩
  · exact Iff.rfl
  · rw [resume_ok, Outcome.after_state, unseen]

end Handler

end Yeetbox.Library
