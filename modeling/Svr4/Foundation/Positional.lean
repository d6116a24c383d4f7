import Mathlib.Tactic.LinearCombination
import Mathlib.Tactic.Linarith
import Mathlib.Tactic.Positivity
import Mathlib.Tactic.Ring

/-! Numbers written in a base, the lowest digit first. -/

namespace Svr4.Positional

variable {b : Int} {d : Int} {ds es : List Int}

def value (b : Int) : List Int → Int
  | [] => 0
  | d :: ds => d + b * value b ds

/-- Every digit is one of the base. -/
def Digits (b : Int) (ds : List Int) : Prop := ∀ d ∈ ds, 0 ≤ d ∧ d < b

@[simp] theorem value_nil : value b [] = 0 := rfl

@[simp] theorem value_cons : value b (d :: ds) = d + b * value b ds := rfl

theorem value_append : value b (ds ++ es) = value b ds + b ^ ds.length * value b es := by
  induction ds with
  | nil => simp
  | cons d ds ih =>
    rw [List.cons_append, value_cons, value_cons, ih, List.length_cons, pow_succ]
    ring

theorem Digits.nil : Digits b [] := nofun

theorem Digits.cons_iff : Digits b (d :: ds) ↔ (0 ≤ d ∧ d < b) ∧ Digits b ds := by
  simp [Digits]

theorem Digits.append_iff : Digits b (ds ++ es) ↔ Digits b ds ∧ Digits b es := by
  simp only [Digits, List.forall_mem_append]

theorem Digits.take {n : Nat} (digits : Digits b ds) : Digits b (ds.take n) :=
  fun d there => digits d (List.mem_of_mem_take there)

theorem Digits.nonneg (digits : Digits b ds) : 0 ≤ value b ds := by
  induction ds with
  | nil => exact le_rfl
  | cons d ds ih =>
    obtain ⟨⟨low, high⟩, rest⟩ := Digits.cons_iff.mp digits
    have more := mul_nonneg (low.trans high.le) (ih rest)
    rw [value_cons]
    omega

theorem Digits.lt (digits : Digits b ds) (base : 0 < b) : value b ds < b ^ ds.length := by
  induction ds with
  | nil => simp
  | cons d ds ih =>
    obtain ⟨⟨low, high⟩, rest⟩ := Digits.cons_iff.mp digits
    have step := mul_le_mul_of_nonneg_left (Int.add_one_le_of_lt (ih rest)) base.le
    rw [value_cons, List.length_cons, pow_succ, mul_comm (b ^ ds.length) b]
    linarith

/-- A number with a highest digit is not small. -/
theorem Digits.le (digits : Digits b (ds ++ [d])) (base : 0 < b) (top : d ≠ 0) : b ^ ds.length ≤ value b (ds ++ [d]) := by
  obtain ⟨low, high⟩ := Digits.append_iff.mp digits
  obtain ⟨⟨nonneg, -⟩, -⟩ := Digits.cons_iff.mp high
  have one : 1 ≤ d := by omega
  have more := mul_le_mul_of_nonneg_left one (pow_pos base ds.length).le
  have rest := low.nonneg
  rw [value_append, value_cons, value_nil]
  linarith

end Svr4.Positional
