import Yeetbox.Library.Runs

/-!
# Services and what they implement

A service moves on with every label and answers it. One service *implements* another under a
reading of its states, labels and answers: from a sound state a guarded label leads to a sound
state, and reading the state and the answer gives what the other service makes of the reading
(`Implements`). What holds of one step then holds of whole runs: the reading of the state at the end
is the state of the other service at the end, and the answers read as its answers
(`Implements.run`). So an invariant of the other service holds of all readings
(`Implements.invariant`). A specification may also leave a choice between several states to go on
to; then the runs of the service are among those that it allows (`Simulates.run`).
-/

set_option autoImplicit false

namespace Yeetbox.Library

/-- A system that moves on with every label and answers it. -/
structure Service (State Label Answer : Type) where
  next : State → Label → State
  answer : State → Label → Answer

/-- How states, labels and answers are read. What a label says may depend on the state in which it
is answered. -/
structure Reading (State Label Answer State' Label' Answer' : Type) where
  state : State → State'
  label : State → Label → Label'
  answer : Answer → Answer'

variable {State Label Answer State' Label' Answer' : Type}

namespace Service

/-- The answers to the labels of a run. -/
def answers (service : Service State Label Answer) : State → List Label → List Answer
  | _, [] => []
  | state, label :: rest =>
      service.answer state label :: answers service (service.next state label) rest

/-- The labels of a run as they are read. -/
def labelsRead (service : Service State Label Answer)
    (reading : Reading State Label Answer State' Label' Answer') : State → List Label → List Label'
  | _, [] => []
  | state, label :: rest =>
      reading.label state label :: labelsRead service reading (service.next state label) rest

end Service

/-- From a sound state a guarded label leads to a sound state, and reading the state and the answer
gives what the other service makes of the reading. -/
structure Implements (service : Service State Label Answer) (spec : Service State' Label' Answer')
    (reading : Reading State Label Answer State' Label' Answer') (guard : State → Label → Prop)
    (Sound : State → Prop) : Prop where
  sound : ∀ state label, guard state label → Sound state → Sound (service.next state label)
  state : ∀ state label, guard state label → Sound state →
    reading.state (service.next state label) =
      spec.next (reading.state state) (reading.label state label)
  answer : ∀ state label, guard state label → Sound state →
    reading.answer (service.answer state label) =
      spec.answer (reading.state state) (reading.label state label)

namespace Implements

variable {service : Service State Label Answer} {spec : Service State' Label' Answer'}
  {reading : Reading State Label Answer State' Label' Answer'} {guard : State → Label → Prop}
  {Sound : State → Prop}

/-- **A service that implements another goes through its runs and gives its answers.** -/
theorem run (implements : Implements service spec reading guard Sound) {start : State}
    {labels : List Label} (guarded : Guarded service.next guard start labels)
    (sound : Sound start) :
    reading.state (runAll service.next start labels) =
        runAll spec.next (reading.state start) (service.labelsRead reading start labels) ∧
      (service.answers start labels).map reading.answer =
        spec.answers (reading.state start) (service.labelsRead reading start labels) := by
  induction labels generalizing start with
  | nil => exact ⟨rfl, rfl⟩
  | cons label rest ih =>
      obtain ⟨here, later⟩ := guarded
      have state := implements.state start label here sound
      have answer := implements.answer start label here sound
      have onwards := ih later (implements.sound start label here sound)
      rw [state] at onwards
      refine ⟨onwards.1, ?_⟩
      rw [Service.answers, List.map_cons, answer, onwards.2]
      rfl

/-- **What every step of the implemented service keeps holds of the readings of all runs.** -/
theorem invariant (implements : Implements service spec reading guard Sound)
    {Holds : State' → Prop}
    (kept : ∀ state label, Holds state → Holds (spec.next state label)) {start : State}
    {labels : List Label} (guarded : Guarded service.next guard start labels)
    (sound : Sound start) (initially : Holds (reading.state start)) :
    Holds (reading.state (runAll service.next start labels)) := by
  rw [(implements.run guarded sound).1]
  exact runAll_invariant kept _ initially

end Implements

/-! ## Specifications that leave a choice -/

/-- What states a specification allows to go on to with labels, and with which answers. -/
inductive Allowed (spec : State → Label → Answer → State → Prop) :
    State → List Label → List Answer → State → Prop
  | nil (state : State) : Allowed spec state [] [] state
  | cons {state next last : State} {label : Label} {labels : List Label} {answer : Answer}
      {answers : List Answer} (step : spec state label answer next)
      (rest : Allowed spec next labels answers last) :
      Allowed spec state (label :: labels) (answer :: answers) last

/-- From a sound state a guarded label leads to a sound state, and reading the states and the answer
gives a step that the specification allows. -/
structure Simulates (service : Service State Label Answer)
    (spec : State' → Label' → Answer' → State' → Prop)
    (reading : Reading State Label Answer State' Label' Answer') (guard : State → Label → Prop)
    (Sound : State → Prop) : Prop where
  sound : ∀ state label, guard state label → Sound state → Sound (service.next state label)
  step : ∀ state label, guard state label → Sound state →
    spec (reading.state state) (reading.label state label)
      (reading.answer (service.answer state label)) (reading.state (service.next state label))

/-- **The runs of a service that is simulated are allowed.** -/
theorem Simulates.run {service : Service State Label Answer}
    {spec : State' → Label' → Answer' → State' → Prop}
    {reading : Reading State Label Answer State' Label' Answer'} {guard : State → Label → Prop}
    {Sound : State → Prop} (simulates : Simulates service spec reading guard Sound)
    {start : State} {labels : List Label} (guarded : Guarded service.next guard start labels)
    (sound : Sound start) :
    Allowed spec (reading.state start) (service.labelsRead reading start labels)
      ((service.answers start labels).map reading.answer)
      (reading.state (runAll service.next start labels)) := by
  induction labels generalizing start with
  | nil => exact .nil _
  | cons label rest ih =>
      obtain ⟨here, later⟩ := guarded
      exact .cons (simulates.step start label here sound)
        (ih later (simulates.sound start label here sound))

end Yeetbox.Library
