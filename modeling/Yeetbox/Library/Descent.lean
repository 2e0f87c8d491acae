import Mathlib.Logic.Relation

/-!
# Descending by labels

A relation `enter node label inner` says that from a node one may enter another under a
label. Descending follows a list of labels, one entry each. When entering is
deterministic a list of labels leads to at most one node (`Descends.unique`); a descent
splits at every point of its list (`descends_append_iff`); and it survives every change of
the relation that keeps the entries it uses (`Descends.carry`, and `Descends.carry_map` for
labels that are spelled).

A loop that enters one label after the other and stops at the first failure computes the
descent (`foldlM_eq_ok_iff`).
-/

set_option autoImplicit false

namespace Yeetbox.Library

variable {Node Label : Type}

/-- The labels lead from one node to another. -/
inductive Descends (enter : Node → Label → Node → Prop) : Node → List Label → Node → Prop where
  | here (node : Node) : Descends enter node [] node
  | inside {node inner target : Node} {label : Label} {rest : List Label} :
      enter node label inner → Descends enter inner rest target →
        Descends enter node (label :: rest) target

variable {enter : Node → Label → Node → Prop}

theorem descends_nil_iff {start target : Node} :
    Descends enter start [] target ↔ target = start := by
  constructor
  · intro descent
    cases descent
    rfl
  · rintro rfl
    exact .here _

theorem descends_cons_iff {start target : Node} {label : Label} {rest : List Label} :
    Descends enter start (label :: rest) target ↔
      ∃ inner, enter start label inner ∧ Descends enter inner rest target := by
  constructor
  · intro descent
    cases descent with
    | inside first later => exact ⟨_, first, later⟩
  · rintro ⟨inner, first, later⟩
    exact .inside first later

/-- **A descent splits at every point of its list.** -/
theorem descends_append_iff {start target : Node} {first second : List Label} :
    Descends enter start (first ++ second) target ↔
      ∃ middle, Descends enter start first middle ∧ Descends enter middle second target := by
  induction first generalizing start with
  | nil => simp [descends_nil_iff]
  | cons label rest ih =>
      rw [List.cons_append, descends_cons_iff]
      constructor
      · rintro ⟨inner, entered, later⟩
        obtain ⟨middle, before, after⟩ := ih.mp later
        exact ⟨middle, .inside entered before, after⟩
      · rintro ⟨middle, before, after⟩
        obtain ⟨inner, entered, later⟩ := descends_cons_iff.mp before
        exact ⟨inner, entered, ih.mpr ⟨middle, later, after⟩⟩

theorem descends_append_singleton_iff {start target : Node} {path : List Label} {label : Label} :
    Descends enter start (path ++ [label]) target ↔
      ∃ parent, Descends enter start path parent ∧ enter parent label target := by
  rw [descends_append_iff]
  constructor
  · rintro ⟨parent, before, last⟩
    obtain ⟨inner, entered, done⟩ := descends_cons_iff.mp last
    rw [descends_nil_iff] at done
    exact ⟨parent, before, done ▸ entered⟩
  · rintro ⟨parent, before, entered⟩
    exact ⟨parent, before, .inside entered (.here _)⟩

/-- A label leads from a node to at most one other. -/
def Deterministic (enter : Node → Label → Node → Prop) : Prop :=
  ∀ node label first second, enter node label first → enter node label second → first = second

/-- **Two descents along the same labels end at the same node when their entries agree.** -/
theorem Descends.agree {enter' : Node → Label → Node → Prop}
    (agree : ∀ node label first second, enter node label first → enter' node label second →
      first = second)
    {start first second : Node} {path : List Label} (one : Descends enter start path first)
    (other : Descends enter' start path second) : first = second := by
  induction one with
  | here node => exact (descends_nil_iff.mp other).symm
  | inside entered _ ih =>
      obtain ⟨inner, entered', later⟩ := descends_cons_iff.mp other
      rw [← agree _ _ _ _ entered entered'] at later
      exact ih later

/-- **Labels lead to at most one node when entering is deterministic.** -/
theorem Descends.unique (deterministic : Deterministic enter)
    {start first second : Node} {path : List Label} (one : Descends enter start path first)
    (other : Descends enter start path second) : first = second :=
  one.agree deterministic other

/-- **A descent survives a change that keeps the entries it uses.** An entry is used when
the labels before it lead to its node. -/
theorem Descends.carry {enter' : Node → Label → Node → Prop} {start target : Node}
    {path : List Label} (descent : Descends enter start path target)
    (kept : ∀ before label after node inner, path = before ++ label :: after →
      Descends enter start before node → enter node label inner → enter' node label inner) :
    Descends enter' start path target := by
  induction descent with
  | here node => exact .here node
  | @inside node inner target label rest entered _ ih =>
      refine .inside (kept [] label rest node inner rfl (.here node) entered) (ih ?_)
      intro before other after deeper innermost split reached
      exact kept (label :: before) other after deeper innermost
        (by rw [split, List.cons_append]) (.inside entered reached)

theorem Descends.mono {enter' : Node → Label → Node → Prop} {start target : Node}
    {path : List Label} (descent : Descends enter start path target)
    (included : ∀ node label inner, enter node label inner → enter' node label inner) :
    Descends enter' start path target :=
  descent.carry fun _ label _ node inner _ _ entered => included node label inner entered

/-- The same for a list of spellings, each of which stands for a label. -/
theorem Descends.carry_map {enter' : Node → Label → Node → Prop} {Spelling : Type}
    {spell : Spelling → Label} {path : List Spelling} {start target : Node}
    (descent : Descends enter start (path.map spell) target)
    (kept : ∀ front component back node inner, path = front ++ component :: back →
      Descends enter start (front.map spell) node → enter node (spell component) inner →
        enter' node (spell component) inner) :
    Descends enter' start (path.map spell) target := by
  refine descent.carry ?_
  intro before label after node inner split reached entered
  obtain ⟨front, back, rfl, rfl, rest⟩ := List.map_eq_append_iff.mp split
  obtain ⟨component, others, rfl, rfl, rfl⟩ := List.map_eq_cons_iff.mp rest
  exact kept front component others node inner rfl reached entered

/-- **The loop that enters one label after the other computes the descent.** -/
theorem foldlM_eq_ok_iff {Err Spelling : Type} {step : Node → Spelling → Except Err Node}
    {spell : Spelling → Label}
    (steps : ∀ node label inner, step node label = .ok inner ↔ enter node (spell label) inner)
    {path : List Spelling} {start target : Node} :
    path.foldlM step start = .ok target ↔ Descends enter start (path.map spell) target := by
  induction path generalizing start with
  | nil =>
      rw [List.map_nil, descends_nil_iff, List.foldlM_nil]
      exact ⟨fun same => (Except.ok.inj same).symm, fun same => same ▸ rfl⟩
  | cons label rest ih =>
      rw [List.map_cons, descends_cons_iff, List.foldlM_cons]
      constructor
      · intro ran
        cases entered : step start label with
        | error err => rw [entered] at ran; cases ran
        | ok inner =>
            rw [entered] at ran
            exact ⟨inner, (steps _ _ _).mp entered, ih.mp ran⟩
      · rintro ⟨inner, entered, later⟩
        rw [(steps _ _ _).mpr entered]
        exact ih.mpr later

/-- The same for a loop that may find nothing. -/
theorem foldlM_eq_some_iff {step : Node → Label → Option Node}
    (steps : ∀ node label inner, step node label = some inner ↔ enter node label inner)
    {path : List Label} {start target : Node} :
    path.foldlM step start = some target ↔ Descends enter start path target := by
  induction path generalizing start with
  | nil =>
      rw [descends_nil_iff, List.foldlM_nil]
      exact ⟨fun same => (Option.some.inj same).symm, fun same => congrArg some same.symm⟩
  | cons label rest ih =>
      rw [descends_cons_iff, List.foldlM_cons]
      simp only [Option.bind_eq_bind, Option.bind_eq_some_iff, ih, steps]

end Yeetbox.Library
