import Mathlib.Logic.Relation

/-!
# What can be reached from a root

A node is reached from a root when a finite chain of entries leads to it. The rules below compare
what is reached before and after a change of the entries. Everything is still reached when each lost
entry leads to a node that is reached in another way (`Reaches.reroute`). Entries that are new and
start at one node reach nothing new unless that node was reached before (`Reaches.without_new`).
Taking away the entries into a node that nothing is in loses this node at most (`Reaches.cut`).

When a node is entered from one node at most, and the root from none, no node that is reached lies
inside itself (`Reaches.not_inside_itself`).
-/

set_option autoImplicit false

namespace Yeetbox.Library

variable {Node Label : Type} {enter enter' : Node → Label → Node → Prop} {root target : Node}

/-- A node may be entered from another under some label. -/
def Child (enter : Node → Label → Node → Prop) (node inner : Node) : Prop :=
  ∃ label, enter node label inner

/-- A finite chain of entries leads from the root to a node. -/
abbrev Reaches (enter : Node → Label → Node → Prop) : Node → Node → Prop :=
  Relation.ReflTransGen (Child enter)

/-- **What was reached still is when every lost entry leads to a node that is reached.** -/
theorem Reaches.reroute (reached : Reaches enter root target)
    (kept : ∀ node label inner, enter node label inner →
      enter' node label inner ∨ Reaches enter' root inner) : Reaches enter' root target := by
  induction reached with
  | refl => exact .refl
  | tail _ child ih =>
      obtain ⟨label, entered⟩ := child
      rcases kept _ label _ entered with still | other
      · exact ih.tail ⟨label, still⟩
      · exact other

theorem Reaches.mono (reached : Reaches enter root target)
    (included : ∀ node label inner, enter node label inner → enter' node label inner) :
    Reaches enter' root target :=
  reached.reroute fun node label inner entered => .inl (included node label inner entered)

/-- **New entries that start at one node reach nothing new unless that node was reached before.** -/
theorem Reaches.without_new {start : Node} (reached : Reaches enter' root target)
    (new : ∀ node label inner, enter' node label inner → enter node label inner ∨ node = start) :
    Reaches enter root target ∨ Reaches enter root start := by
  induction reached with
  | refl => exact .inl .refl
  | tail _ child ih =>
      obtain ⟨label, entered⟩ := child
      rcases ih with before | started
      · rcases new _ label _ entered with old | rfl
        · exact .inl (before.tail ⟨label, old⟩)
        · exact .inr before
      · exact .inr started

/-- **Losing the entries into a node that nothing is in loses that node at most.** -/
theorem Reaches.cut {lost : Node} (reached : Reaches enter root target)
    (kept : ∀ node label inner, enter node label inner →
      enter' node label inner ∨ inner = lost)
    (empty : ∀ label inner, ¬ enter' lost label inner) :
    Reaches enter' root target ∨ target = lost := by
  induction reached with
  | refl => exact .inl .refl
  | tail _ child ih =>
      obtain ⟨label, entered⟩ := child
      rcases kept _ label _ entered with still | same
      · rcases ih with before | rfl
        · exact .inl (before.tail ⟨label, still⟩)
        · exact absurd still (empty label _)
      · exact .inr same

/-- **No node that is reached lies inside itself**, when every node is entered from one node at
most and the root from none. -/
theorem Reaches.not_inside_itself (reached : Reaches enter root target)
    (oneParent : ∀ {first second inner}, Child enter first inner → Child enter second inner →
      first = second) (top : ∀ node, ¬ Child enter node root) :
    ¬ Relation.TransGen (Child enter) target target := by
  induction reached with
  | refl =>
      intro cycle
      obtain ⟨last, _, entered⟩ := Relation.TransGen.tail'_iff.mp cycle
      exact top last entered
  | tail _ child ih =>
      intro cycle
      obtain ⟨last, below, entered⟩ := Relation.TransGen.tail'_iff.mp cycle
      -- The node is entered from its parent alone, so the cycle goes through the parent.
      obtain rfl := oneParent entered child
      exact ih (Relation.TransGen.head' child below)

end Yeetbox.Library
