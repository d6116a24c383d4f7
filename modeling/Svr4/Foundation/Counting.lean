import Mathlib.Algebra.BigOperators.Group.Finset.Piecewise
import Mathlib.Data.Int.Basic
import Mathlib.Data.Nat.Count

/-! Counts below a bound, and sums, when one index changes. -/

namespace Svr4

open Finset (mem_range range card_pos)

section
variable {p q : Nat → Prop} [DecidablePred p] [DecidablePred q] {i n : Nat}

theorem count_same (same : ∀ j, j < n → (q j ↔ p j)) : Nat.count q n = Nat.count p n := by
  rw [Nat.count_eq_card_filter_range, Nat.count_eq_card_filter_range]
  congr 1
  exact Finset.filter_congr fun j member => same j (mem_range.mp member)

/-- One more index is counted. -/
theorem count_insert (inside : i < n) (fresh : ¬ p i) (same : ∀ j, j < n → (q j ↔ j = i ∨ p j)) :
    Nat.count q n = Nat.count p n + 1 := by
  rw [Nat.count_eq_card_filter_range, Nat.count_eq_card_filter_range]
  have member : i ∉ (range n).filter p := by simp [fresh]
  rw [← Finset.card_insert_of_notMem member]
  congr 1
  ext j
  simp only [Finset.mem_filter, mem_range, Finset.mem_insert]
  constructor
  · rintro ⟨below, holds⟩
    exact ((same j below).mp holds).imp_right fun holds => ⟨below, holds⟩
  · rintro (rfl | ⟨below, holds⟩)
    · exact ⟨inside, (same j inside).mpr (.inl rfl)⟩
    · exact ⟨below, (same j below).mpr (.inr holds)⟩

theorem count_pos (inside : i < n) (holds : p i) : 0 < Nat.count p n := by
  rw [Nat.count_eq_card_filter_range, card_pos]
  exact ⟨i, by simp [inside, holds]⟩

theorem exists_of_count_pos (positive : 0 < Nat.count p n) : ∃ i, i < n ∧ p i := by
  rw [Nat.count_eq_card_filter_range, card_pos] at positive
  obtain ⟨i, member⟩ := positive
  exact ⟨i, by simpa using member⟩

end

/-- The sum of a function that has changed at one index. -/
theorem sum_change {n i : Nat} {f g : Nat → Int} (inside : i < n) (same : ∀ j, j < n → j ≠ i → g j = f j) :
    ∑ j ∈ range n, g j = ∑ j ∈ range n, f j + (g i - f i) := by
  have member : i ∈ range n := mem_range.mpr inside
  rw [← Finset.add_sum_erase _ f member, ← Finset.add_sum_erase _ g member]
  have rest : ∑ j ∈ (range n).erase i, g j = ∑ j ∈ (range n).erase i, f j := by
    apply Finset.sum_congr rfl
    intro j other
    obtain ⟨differ, below⟩ := Finset.mem_erase.mp other
    exact same j (mem_range.mp below) differ
  rw [rest]
  omega

end Svr4
