import Mathlib

/-! Lists of ranges of natural numbers that are in order and do not touch.

A range is whatever has a first number `low` and an end `high` behind its last one.
-/

namespace Svr4

variable {α : Type} (low high : α → Nat)

/-- Each range ends before the next one begins, with a gap. -/
def Separated (list : List α) : Prop := list.Pairwise fun a b => high a < low b

/-- `x` is in one of the ranges. -/
def Covers (list : List α) (x : Nat) : Prop := ∃ a ∈ list, low a ≤ x ∧ x < high a

variable {low high} {left right list : List α} {a b : α} {x : Nat}

@[simp]
theorem covers_nil : ¬ Covers low high ([] : List α) x := by simp [Covers]

@[simp]
theorem covers_cons : Covers low high (a :: list) x ↔ (low a ≤ x ∧ x < high a) ∨ Covers low high list x := by
  simp [Covers]

@[simp]
theorem covers_append : Covers low high (left ++ right) x ↔ Covers low high left x ∨ Covers low high right x := by
  simp only [Covers, List.mem_append]
  constructor
  · rintro ⟨a, member | member, inside⟩
    · exact .inl ⟨a, member, inside⟩
    · exact .inr ⟨a, member, inside⟩
  · rintro (⟨a, member, inside⟩ | ⟨a, member, inside⟩)
    · exact ⟨a, .inl member, inside⟩
    · exact ⟨a, .inr member, inside⟩

/-- What the ranges on the two sides of one have to do with it. -/
theorem Separated.around (separated : Separated low high (left ++ a :: right)) :
    (∀ b ∈ left, high b < low a) ∧ (∀ b ∈ right, high a < low b) ∧ Separated low high (left ++ right) := by
  obtain ⟨before, behind, across⟩ := List.pairwise_append.mp separated
  obtain ⟨first, rest⟩ := List.pairwise_cons.mp behind
  refine ⟨fun b member => across b member a (by simp), first, List.pairwise_append.mpr ⟨before, rest, ?_⟩⟩
  exact fun b member c other => across b member c (by simp [other])

/-- A range goes into a gap. -/
theorem Separated.insert (separated : Separated low high (left ++ right)) (before : ∀ b ∈ left, high b < low a)
    (behind : ∀ b ∈ right, high a < low b) : Separated low high (left ++ a :: right) := by
  obtain ⟨first, second, across⟩ := List.pairwise_append.mp separated
  refine List.pairwise_append.mpr ⟨first, List.pairwise_cons.mpr ⟨behind, second⟩, ?_⟩
  intro b member c other
  rcases List.mem_cons.mp other with rfl | other
  · exact before b member
  · exact across b member c other

/-- The numbers of one range are in no other. -/
theorem Separated.alone (separated : Separated low high (left ++ a :: right)) (inside : low a ≤ x ∧ x < high a) :
    ¬ Covers low high (left ++ right) x := by
  obtain ⟨before, behind, _⟩ := separated.around
  rintro ⟨b, member, low', high'⟩
  rcases List.mem_append.mp member with member | member
  · have gap := before b member
    omega
  · have gap := behind b member
    omega

/-- Numbers in a row that are all covered are in one range. -/
theorem Separated.run (separated : Separated low high list) {first count : Nat} (positive : 0 < count)
    (covered : ∀ x, first ≤ x → x < first + count → Covers low high list x) :
    ∃ a ∈ list, low a ≤ first ∧ first + count ≤ high a := by
  obtain ⟨a, member, start, inside⟩ := covered first (Nat.le_refl _) (by omega)
  refine ⟨a, member, start, ?_⟩
  by_contra short
  -- The number behind the range would be in another one, which touches it.
  have next := covered (high a) (by omega) (by omega)
  obtain ⟨left, right, rfl⟩ := List.append_of_mem member
  obtain ⟨before, behind, _⟩ := separated.around
  obtain ⟨b, other, low', high'⟩ := next
  simp only [List.mem_append, List.mem_cons] at other
  rcases other with other | rfl | other
  · have gap := before b other
    omega
  · omega
  · have gap := behind b other
    omega

/-- Ranges that share no number fill no more than the numbers they are in. -/
theorem sum_lengths_le {bound : Nat} (nodup : list.Nodup)
    (apart : ∀ a ∈ list, ∀ b ∈ list, ∀ x, low a ≤ x ∧ x < high a → low b ≤ x ∧ x < high b → a = b)
    (within : ∀ a ∈ list, ∀ x, low a ≤ x ∧ x < high a → 0 < x ∧ x ≤ bound) :
    (list.map fun a => high a - low a).sum ≤ bound := by
  let numbers := list.flatMap fun a => List.range' (low a) (high a - low a)
  have inside (a : α) (x : Nat) : x ∈ List.range' (low a) (high a - low a) ↔ low a ≤ x ∧ x < high a := by
    rw [List.mem_range'_1]
    omega
  have once : numbers.Nodup := by
    refine List.nodup_flatMap.mpr ⟨fun a _ => List.nodup_range', ?_⟩
    refine nodup.imp_of_mem fun {a b} first second differ x here there => ?_
    exact differ (apart a first b second x ((inside a x).mp here) ((inside b x).mp there))
  have bounded : numbers ⊆ List.range' 1 bound := by
    intro x member
    obtain ⟨a, member, here⟩ := List.mem_flatMap.mp member
    obtain ⟨positive, limit⟩ := within a member x ((inside a x).mp here)
    rw [List.mem_range'_1]
    omega
  have count := (List.subperm_of_subset once bounded).length_le
  simpa [numbers, List.length_flatMap] using count

end Svr4
