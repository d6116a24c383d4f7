import Mathlib.Tactic.Common

/-! Objects that are in one place each.

`holds` is what the places say, `place` where each object is. Moving an object
changes `place` there and two of the places.
-/

namespace Svr4

variable {α β : Type}

/-- The objects of `within` are where `place` says, and no others are anywhere. -/
def Placed (within : α → Prop) (holds : β → α → Prop) (place : α → β) : Prop :=
  ∀ p a, holds p a ↔ within a ∧ place a = p

namespace Placed
variable {within : α → Prop} {holds holds' : β → α → Prop} {place : α → β} {p p' : β} {a : α}

section
variable (placed : Placed within holds place)
include placed

theorem unique (first : holds p a) (second : holds p' a) : p = p' :=
  ((placed p a).mp first).2.symm.trans ((placed p' a).mp second).2

theorem existsUnique (member : within a) : ∃! p, holds p a :=
  ⟨place a, (placed _ a).mpr ⟨member, rfl⟩, fun _ other => ((placed _ a).mp other).2.symm⟩

/-- `a` goes from `p` to `p'`. -/
theorem move [DecidableEq α] (here : holds p a) (differ : p ≠ p')
    (gone : ∀ b, holds' p b ↔ holds p b ∧ b ≠ a) (come : ∀ b, holds' p' b ↔ holds p' b ∨ b = a)
    (same : ∀ r, r ≠ p → r ≠ p' → ∀ b, holds' r b ↔ holds r b) :
    Placed within holds' (Function.update place a p') := by
  have member := ((placed p a).mp here).1
  intro r b
  by_cases moved : b = a
  · -- The object itself is at `p'` and nowhere else.
    subst moved
    rw [Function.update_self]
    constructor
    · intro there
      refine ⟨member, ?_⟩
      by_contra other
      by_cases old : r = p
      · subst old
        exact ((gone b).mp there).2 rfl
      · exact old (placed.unique ((same r old (Ne.symm other) b).mp there) here)
    · rintro ⟨_, rfl⟩
      exact (come b).mpr (Or.inr rfl)
  · rw [Function.update_of_ne moved, ← placed r b]
    by_cases old : r = p
    · subst old
      rw [gone b]
      exact and_iff_left moved
    · by_cases new : r = p'
      · subst new
        rw [come b]
        exact or_iff_left moved
      · exact same r old new b

end

end Placed

end Svr4
