import Mathlib.Order.Defs.PartialOrder

/-!
# Runs of a system

A system answers labels one after the other, each by a state that depends on the state before it
and the label. A run is *guarded* when every label satisfies a condition in the state in which it
is answered.

The rule for runs is `Guarded.invariant`: what every guarded step keeps holds at the end of every
guarded run. Guarding is closed under prefixes (`guarded_append_iff`), so it holds on the way too.
A quantity that no step lowers stays below its value at the end (`guarded_le`), which turns a bound
on the end of a run into a guard. Labels that change nothing can be left out of a run
(`Guarded.left_out`).
-/

set_option autoImplicit false

namespace Yeetbox.Library

variable {State Label : Type} (next : State → Label → State)

/-- The state after some labels. -/
def runAll (start : State) (labels : List Label) : State := labels.foldl next start

@[simp] theorem runAll_nil (start : State) : runAll next start [] = start := rfl

@[simp] theorem runAll_cons (start : State) (label : Label) (rest : List Label) :
    runAll next start (label :: rest) = runAll next (next start label) rest := rfl

theorem runAll_append (start : State) (first second : List Label) :
    runAll next start (first ++ second) = runAll next (runAll next start first) second :=
  List.foldl_append

/-- Every label satisfies a condition in the state in which it is answered. -/
def Guarded (guard : State → Label → Prop) : State → List Label → Prop
  | _, [] => True
  | state, label :: rest => guard state label ∧ Guarded guard (next state label) rest

instance Guarded.decidable (guard : State → Label → Prop)
    [∀ state label, Decidable (guard state label)] :
    ∀ state labels, Decidable (Guarded next guard state labels)
  | _, [] => .isTrue trivial
  | state, label :: rest =>
      have := Guarded.decidable guard (next state label) rest
      inferInstanceAs (Decidable (guard state label ∧ Guarded next guard (next state label) rest))

variable {next}
variable {guard : State → Label → Prop}

theorem guarded_append_iff {start : State} {first second : List Label} :
    Guarded next guard start (first ++ second) ↔
      Guarded next guard start first ∧ Guarded next guard (runAll next start first) second := by
  induction first generalizing start with
  | nil => simp [Guarded]
  | cons label rest ih =>
      rw [List.cons_append, Guarded, Guarded, ih, runAll_cons, and_assoc]

/-- A run is guarded when the condition holds at every point of it. -/
theorem guarded_iff {start : State} {labels : List Label} :
    Guarded next guard start labels ↔ ∀ before label after, labels = before ++ label :: after →
      guard (runAll next start before) label := by
  constructor
  · rintro guarded before label after rfl
    exact (guarded_append_iff.mp guarded).2.1
  · intro everywhere
    induction labels generalizing start with
    | nil => trivial
    | cons label rest ih =>
        refine ⟨everywhere [] label rest rfl, ih fun before other after split => ?_⟩
        exact everywhere (label :: before) other after (by rw [split, List.cons_append])

/-- **What every guarded step keeps holds at the end of every guarded run.** -/
theorem Guarded.invariant {Holds : State → Prop}
    (kept : ∀ state label, guard state label → Holds state → Holds (next state label))
    {start : State} {labels : List Label} (guarded : Guarded next guard start labels)
    (initially : Holds start) : Holds (runAll next start labels) := by
  induction labels generalizing start with
  | nil => exact initially
  | cons label rest ih => exact ih guarded.2 (kept start label guarded.1 initially)

/-- What every step keeps holds at the end of every run. -/
theorem runAll_invariant {Holds : State → Prop}
    (kept : ∀ state label, Holds state → Holds (next state label)) {start : State}
    (labels : List Label) (initially : Holds start) : Holds (runAll next start labels) := by
  induction labels generalizing start with
  | nil => exact initially
  | cons label rest ih => exact ih (kept start label initially)

theorem Guarded.mono {weaker : State → Label → Prop}
    (implies : ∀ state label, guard state label → weaker state label) {start : State}
    {labels : List Label} (guarded : Guarded next guard start labels) :
    Guarded next weaker start labels := by
  induction labels generalizing start with
  | nil => trivial
  | cons label rest ih => exact ⟨implies start label guarded.1, ih guarded.2⟩

theorem Guarded.and {other : State → Label → Prop} {start : State} {labels : List Label}
    (one : Guarded next guard start labels) (two : Guarded next other start labels) :
    Guarded next (fun state label => guard state label ∧ other state label) start labels := by
  induction labels generalizing start with
  | nil => trivial
  | cons label rest ih => exact ⟨⟨one.1, two.1⟩, ih one.2 two.2⟩

theorem Guarded.right {other : State → Label → Prop} {start : State} {labels : List Label}
    (both : Guarded next (fun state label => guard state label ∧ other state label) start labels) :
    Guarded next other start labels :=
  both.mono fun _ _ holds => holds.2

/-- **Labels that change nothing where they are answered can be left out of a run.** -/
theorem Guarded.left_out {out : State → Label → Bool}
    (steady : ∀ state label other, out (next state label) other = out state other) {start : State}
    {labels : List Label} (guarded : Guarded next
      (fun state label => out state label = true → next state label = state) start labels) :
    runAll next start (labels.filter fun label => !out start label) = runAll next start labels := by
  induction labels generalizing start with
  | nil => rfl
  | cons label rest ih =>
      obtain ⟨here, later⟩ := guarded
      have onwards := ih later
      simp only [steady] at onwards
      cases isOut : out start label with
      | true =>
          rw [here isOut] at onwards
          rw [List.filter_cons_of_neg (by simp [isOut]), onwards, runAll_cons, here isOut]
      | false =>
          rw [List.filter_cons_of_pos (by simp [isOut]), runAll_cons, onwards, runAll_cons]

section Rising

variable {Rank : Type} [Preorder Rank] {rank : State → Rank}

/-- A quantity that no step lowers is not lowered by a run. -/
theorem le_runAll (rises : ∀ state label, rank state ≤ rank (next state label)) (start : State)
    (labels : List Label) : rank start ≤ rank (runAll next start labels) := by
  induction labels generalizing start with
  | nil => exact le_refl _
  | cons label rest ih => exact le_trans (rises start label) (ih (next start label))

/-- **A quantity that no step lowers stays below its value at the end of the run.** -/
theorem guarded_le (rises : ∀ state label, rank state ≤ rank (next state label)) (start : State)
    (labels : List Label) :
    Guarded next (fun state label => rank (next state label) ≤ rank (runAll next start labels))
      start labels := by
  induction labels generalizing start with
  | nil => trivial
  | cons label rest ih => exact ⟨le_runAll rises _ _, ih _⟩

end Rising

end Yeetbox.Library
