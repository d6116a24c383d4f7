import Mathlib.Data.BitVec
import Mathlib.Tactic.Ring

/-! Numbers of 32 bits for the positions of an unbounded stream, and their signed distance. -/

namespace Svr4

open BitVec (toInt_sub ofNat toInt_add)

abbrev Seq := BitVec 32

namespace Seq

/-- How far `a` is ahead of `b`. -/
def ahead (a b : Seq) : Int := (a - b).toInt

variable {a b : Seq}

theorem ahead_range (a b : Seq) : -2147483648 ≤ ahead a b ∧ ahead a b < 2147483648 :=
  ⟨BitVec.le_toInt _, BitVec.toInt_lt⟩

@[simp] theorem ahead_self (a : Seq) : ahead a a = 0 := by simp [ahead]

theorem ahead_eq_zero : ahead a b = 0 ↔ a = b := by
  constructor
  · intro none
    have same : a - b = 0 := BitVec.eq_of_toInt_eq none
    exact sub_eq_zero.mp same
  · rintro rfl
    exact ahead_self a

/-- Distances from a third number, when they are not too far apart. -/
theorem ahead_between {c : Seq} (low : -2147483648 ≤ ahead a c - ahead b c) (high : ahead a c - ahead b c < 2147483648) :
    ahead a b = ahead a c - ahead b c := by
  have apart : a - b = a - c - (b - c) := by ring
  rw [ahead, apart, toInt_sub]
  change (ahead a c - ahead b c).bmod (2 ^ 32) = ahead a c - ahead b c
  exact Int.bmod_eq_of_le (by omega) (by omega)

theorem ahead_add_nat (n : Nat) (high : ahead a b + n < 2147483648) : ahead (a + ofNat 32 n) b = ahead a b + n := by
  have least := (ahead_range a b).1
  have apart : a + ofNat 32 n - b = a - b + ofNat 32 n := by ring
  rw [ahead, apart, toInt_add, BitVec.toInt_ofNat', Int.add_bmod_bmod]
  change (ahead a b + n).bmod (2 ^ 32) = ahead a b + n
  exact Int.bmod_eq_of_le (by omega) (by omega)

/-- A distance that grows past the largest becomes a small one. -/
theorem ahead_add_le (n : Nat) : ahead (a + ofNat 32 n) b ≤ ahead a b + n := by
  have least := (ahead_range a b).1
  have apart : a + ofNat 32 n - b = a - b + ofNat 32 n := by ring
  rw [ahead, apart, toInt_add, BitVec.toInt_ofNat', Int.add_bmod_bmod]
  change (ahead a b + n).bmod (2 ^ 32) ≤ ahead a b + n
  have split := Int.bmod_def (ahead a b + n) (2 ^ 32)
  rw [split]
  split_ifs <;> omega

theorem ahead_pred (low : -2147483648 < ahead a b) : ahead (a - 1) b = ahead a b - 1 := by
  have most := (ahead_range a b).2
  have apart : a - 1 - b = a - b - 1 := by ring
  rw [ahead, apart, toInt_sub]
  change (ahead a b - (1 : BitVec 32).toInt).bmod (2 ^ 32) = ahead a b - 1
  rw [show (1 : BitVec 32).toInt = 1 by decide]
  exact Int.bmod_eq_of_le (by omega) (by omega)

end Seq

end Svr4
