import Mathlib.Data.Multiset.Range

/-! Heaps in arrays, with a hole.

The first `n` entries of an array form a binary tree with its root at 0. A hole is an
entry whose value does not count; moving a neighbour into it moves the hole.
-/

namespace Svr4.Heap

open Function (update update_self update_of_ne)

variable {α ι : Type} [LinearOrder ι]

def parent (i : Nat) : Nat := (i - 1) / 2

/-- No entry is smaller than its parent. -/
def Ordered (key : α → ι) (f : Nat → α) (n : Nat) : Prop :=
  ∀ i, 0 < i → i < n → key (f (parent i)) ≤ key (f i)

/-- The entries beside the hole are in order, and so are its parent and its children. -/
structure Gap (key : α → ι) (f : Nat → α) (n hole : Nat) : Prop where
  apart : ∀ i, 0 < i → i < n → i ≠ hole → parent i ≠ hole → key (f (parent i)) ≤ key (f i)
  across : ∀ i, 0 < i → i < n → parent i = hole → 0 < hole → key (f (parent hole)) ≤ key (f i)

/-- The hole is a place for a value `t`. -/
structure Fits (key : α → ι) (f : Nat → α) (n hole : Nat) (t : ι) : Prop extends Gap key f n hole where
  above : 0 < hole → key (f (parent hole)) ≤ t
  below : ∀ i, 0 < i → i < n → parent i = hole → t ≤ key (f i)

theorem parent_lt {i : Nat} (positive : 0 < i) : parent i < i := by
  unfold parent
  omega

section
variable {key : α → ι} {f : Nat → α} {n hole k : Nat} {x : α} {t : ι}

/-- The root is the least entry. -/
theorem Ordered.root_le (ordered : Ordered key f n) {i : Nat} (inside : i < n) : key (f 0) ≤ key (f i) := by
  induction i using Nat.strong_induction_on with
  | _ i ih =>
    rcases Nat.eq_zero_or_pos i with rfl | positive
    · exact le_refl _
    · have up := parent_lt positive
      exact (ih (parent i) up (up.trans inside)).trans (ordered i positive inside)

/-- A heap is in order around each of its entries. -/
theorem Ordered.gap (ordered : Ordered key f n) {m : Nat} (shorter : m ≤ n) (inside : hole < m) :
    Gap key f m hole where
  apart i positive last _ _ := ordered i positive (last.trans_le shorter)
  across i positive last child above := by
    have first := ordered hole above (inside.trans_le shorter)
    have second := ordered i positive (last.trans_le shorter)
    rw [child] at second
    exact first.trans second

/-- A heap with a hole behind its last entry. -/
theorem Ordered.gap_last (ordered : Ordered key f n) : Gap key f (n + 1) n where
  apart i positive last other _ := ordered i positive (by omega)
  across i positive last child _ := by
    have up := parent_lt positive
    omega

/-- The hole is filled with a value that fits. -/
theorem Fits.fill (fits : Fits key f n hole (key x)) : Ordered key (update f hole x) n := by
  intro i positive last
  have up := parent_lt positive
  by_cases here : i = hole
  · subst here
    rw [update_self, update_of_ne (by omega)]
    exact fits.above positive
  · rw [update_of_ne here]
    by_cases child : parent i = hole
    · rw [child, update_self]
      exact fits.below i positive last child
    · rw [update_of_ne child]
      exact fits.apart i positive last here child

namespace Gap

/-- The parent moves down into the hole. -/
theorem up (gap : Gap key f n hole) (positive : 0 < hole) (inside : hole < n) :
    Gap key (update f hole (f (parent hole))) n (parent hole) := by
  have higher := parent_lt positive
  constructor
  · intro i above last notNew notChild
    by_cases here : i = hole
    · rw [here] at notChild
      exact absurd rfl notChild
    · rw [update_of_ne here]
      by_cases child : parent i = hole
      · rw [child, update_self]
        exact gap.across i above last child positive
      · rw [update_of_ne child]
        exact gap.apart i above last here child
  · intro i above last child root
    have highest := parent_lt root
    have order := gap.apart (parent hole) root (by omega) (by omega) (by omega)
    rw [update_of_ne (by omega)]
    by_cases here : i = hole
    · rw [here, update_self]
      exact order
    · rw [update_of_ne here]
      have sibling := gap.apart i above last here (by omega)
      rw [child] at sibling
      exact order.trans sibling

/-- A value smaller than the parent is smaller than the children of the new hole. -/
theorem below_up (gap : Gap key f n hole) (positive : 0 < hole)
    (smaller : t < key (f (parent hole))) {i : Nat} (above : 0 < i) (last : i < n) (child : parent i = parent hole) :
    t ≤ key (update f hole (f (parent hole)) i) := by
  have higher := parent_lt positive
  by_cases here : i = hole
  · rw [here, update_self]
    exact smaller.le
  · rw [update_of_ne here]
    have sibling := gap.apart i above last here (by omega)
    rw [child] at sibling
    exact smaller.le.trans sibling

/-- The smallest child moves up into the hole. -/
theorem down (gap : Gap key f n hole) (positive : 0 < k) (inside : k < n) (child : parent k = hole)
    (least : ∀ i, 0 < i → i < n → parent i = hole → key (f k) ≤ key (f i)) :
    Gap key (update f hole (f k)) n k := by
  have lower := parent_lt positive
  constructor
  · intro i above last notNew notChild
    by_cases here : i = hole
    · subst here
      rw [update_self, update_of_ne (by have := parent_lt above; omega)]
      exact gap.across k positive inside child above
    · rw [update_of_ne here]
      by_cases sibling : parent i = hole
      · rw [sibling, update_self]
        exact least i above last sibling
      · rw [update_of_ne sibling]
        exact gap.apart i above last here sibling
  · intro i above last grandchild _
    have deeper := parent_lt above
    have order := gap.apart i above last (by omega) (by omega)
    rw [grandchild] at order
    rw [child, update_self, update_of_ne (by omega)]
    exact order

end Gap

end

/-! ## What the array holds -/

def contents (f : Nat → α) (n : Nat) : Multiset α := (Multiset.range n).map f

/-- Without the hole. -/
def others (f : Nat → α) (n hole : Nat) : Multiset α := ((Multiset.range n).erase hole).map f

section
variable {f : Nat → α} {n hole k : Nat} {x : α}

theorem contents_eq (inside : hole < n) : contents f n = f hole ::ₘ others f n hole := by
  have member : hole ∈ Multiset.range n := Multiset.mem_range.mpr inside
  rw [contents, others, ← Multiset.map_cons, Multiset.cons_erase member]

theorem contents_succ : contents f (n + 1) = f n ::ₘ contents f n := by
  rw [contents, contents, Multiset.range_succ, Multiset.map_cons]

theorem others_last : others f (n + 1) n = contents f n := by
  rw [others, contents, Multiset.range_succ, Multiset.erase_cons_head]

theorem mem_contents : x ∈ contents f n ↔ ∃ i < n, f i = x := by
  simp [contents]

/-- Values at other places do not see a change of the hole. -/
theorem map_update {indices : Multiset Nat} (away : hole ∉ indices) :
    indices.map (update f hole x) = indices.map f := by
  refine Multiset.map_congr rfl fun i member => update_of_ne ?_ ..
  rintro rfl
  exact away member

theorem others_update : others (update f hole x) n hole = others f n hole :=
  map_update (Multiset.Nodup.notMem_erase (Multiset.nodup_range n))

theorem contents_fill (inside : hole < n) : contents (update f hole x) n = x ::ₘ others f n hole := by
  rw [contents_eq inside, update_self, others_update]

/-- Moving an entry into the hole loses nothing. -/
theorem others_move (inside : hole < n) (other : k < n) (differ : k ≠ hole) :
    others (update f hole (f k)) n k = others f n hole := by
  have nodup := Multiset.nodup_range n
  have here : hole ∈ (Multiset.range n).erase k :=
    (Multiset.mem_erase_of_ne differ.symm).mpr (Multiset.mem_range.mpr inside)
  have there : k ∈ (Multiset.range n).erase hole := (Multiset.mem_erase_of_ne differ).mpr (Multiset.mem_range.mpr other)
  have rest : hole ∉ ((Multiset.range n).erase k).erase hole := (nodup.erase k).notMem_erase
  rw [others, others, ← Multiset.cons_erase here, ← Multiset.cons_erase there, Multiset.map_cons, Multiset.map_cons,
    update_self, map_update rest, Multiset.erase_comm]

end

end Svr4.Heap
