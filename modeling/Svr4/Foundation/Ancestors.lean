import Mathlib.Tactic.Common

/-! Maps from each point to its parent, and what moving one point does to the ancestors. -/

namespace Svr4

open Function (update update_of_ne)

section
variable {α : Type}

/-- `y` is `x` or an ancestor of it. -/
inductive Above (parent : α → α) : α → α → Prop where
  | refl {x : α} : Above parent x x
  | up {x y : α} : Above parent (parent x) y → Above parent x y

/-- The path from `x` up to `y` does not pass `u` before it is at `y`. -/
inductive Clear (parent : α → α) (u : α) : α → α → Prop where
  | refl {x : α} : Clear parent u x x
  | up {x y : α} : x ≠ u → Clear parent u (parent x) y → Clear parent u x y

/-- Every path leads to the root, which is its own parent. -/
structure Rooted (parent : α → α) (root : α) : Prop where
  reaches : ∀ x, Above parent x root
  root : parent root = root

variable {parent : α → α} {root u v x y z : α}

theorem Above.trans (first : Above parent x y) (second : Above parent y z) : Above parent x z := by
  induction first with
  | refl => exact second
  | up _ ih => exact .up (ih second)

theorem Above.one : Above parent x (parent x) := .up .refl

theorem Above.split (above : Above parent x y) : x = y ∨ Above parent (parent x) y := by
  cases above with
  | refl => exact .inl rfl
  | up rest => exact .inr rest

theorem Clear.above (clear : Clear parent u x y) : Above parent x y := by
  induction clear with
  | refl => exact .refl
  | up _ _ ih => exact .up ih

theorem Above.clear_self (above : Above parent x u) : Clear parent u x u := by
  induction above with
  | refl => exact .refl
  | @up x u _ ih =>
    by_cases same : x = u
    · subst same
      exact .refl
    · exact .up same ih

theorem Above.clear (above : Above parent x y) : Clear parent u x y ∨ Above parent x u ∧ Above parent u y := by
  induction above with
  | refl => exact .inl .refl
  | @up x y rest ih =>
    by_cases same : x = u
    · subst same
      exact .inr ⟨.refl, .up rest⟩
    · exact ih.imp (.up same) (And.imp_left .up)

theorem Clear.split (clear : Clear parent u x y) (above : Above parent x z) :
    Clear parent u x z ∧ Clear parent u z y ∨ Above parent y z := by
  induction clear with
  | refl => exact .inr above
  | @up x y differ rest ih =>
    cases above with
    | refl => exact .inl ⟨.refl, .up differ rest⟩
    | up further => exact (ih further).imp_left (And.imp_left (.up differ))

namespace Rooted

theorem root_above (rooted : Rooted parent root) (above : Above parent x y) (top : x = root) : y = root := by
  induction above with
  | refl => exact top
  | up _ ih => exact ih (top ▸ rooted.root)

theorem antisymm (rooted : Rooted parent root) (first : Above parent x y) (second : Above parent y x) : x = y := by
  have reaches := rooted.reaches x
  induction reaches generalizing y with
  | refl => exact (rooted.root_above first rfl).symm
  | @up x r rest ih =>
    rcases first.split with same | first
    · exact same
    · have next : parent x = y := ih rooted first (second.trans .one)
      subst next
      -- The parent of `x` is below `x`, so `x` is its own parent.
      exact (ih rooted second .one).symm

end Rooted

/-! ## Moving a point -/

section
variable [DecidableEq α]

theorem Clear.update (clear : Clear parent u x y) : Above (update parent u v) x y := by
  induction clear with
  | refl => exact .refl
  | up differ _ ih => exact .up (by rwa [update_of_ne differ])

theorem Above.of_update (apart : ¬ Above parent v u) (above : Above (update parent u v) x y) :
    Clear parent u x y ∨ Above parent x u ∧ Clear parent u v y := by
  induction above with
  | refl => exact .inl .refl
  | @up x y _ ih =>
    by_cases same : x = u
    · subst same
      rw [Function.update_self] at ih
      exact .inr ⟨.refl, ih.resolve_right fun through => apart through.1⟩
    · rw [update_of_ne same] at ih
      exact ih.imp (.up same) (And.imp_left .up)

theorem Above.update (above : Above parent x u) (further : Clear parent u v y) : Above (update parent u v) x y := by
  refine above.clear_self.update.trans (.up ?_)
  rw [Function.update_self]
  exact further.update

/-- A point is moved to a place that is not below it. -/
theorem Rooted.update (rooted : Rooted parent root) (apart : ¬ Above parent v u) : Rooted (update parent u v) root := by
  have above : Clear parent u v root := (rooted.reaches v).clear.resolve_right fun through => apart through.1
  constructor
  case reaches =>
    intro x
    rcases (rooted.reaches x).clear (u := u) with clear | through
    · exact clear.update
    · exact through.1.update above
  case root =>
    have differ : root ≠ u := fun same => apart (same ▸ rooted.reaches v)
    rw [update_of_ne differ]
    exact rooted.root

end

end

end Svr4
