import Svr4.Library.Mp.Product

/-! One place of a long division: the trial quotient is right or one too large, and the
subtraction tells which. -/

namespace Svr4.Mp

open Positional
open Option (bind_eq_bind bind_some)

section
variable {a ds rest : List Int} {v1 v2 u1 u2 u3 c1 d x : Int}

/-! ## Division by one digit -/

theorem sDivDigits_eq {n : Int} (positive : 0 < n) (small : n < 32768) (digits : Digits 32768 a) :
    ∃ q x, sDivDigits n a = some (q, x) ∧ Digits 32768 q ∧ q.length = a.length ∧ 0 ≤ x ∧ x < n ∧
      value 32768 a = n * value 32768 q + x := by
  induction a with
  | nil => exact ⟨[], 0, rfl, .nil, rfl, le_rfl, positive, by simp⟩
  | cons d a ih =>
    obtain ⟨own, rest⟩ := Digits.cons_iff.mp digits
    obtain ⟨q, x, result, more, length, low, high, total⟩ := ih rest
    have nonneg : 0 ≤ x * 32768 + d := by omega
    have below : (x * 32768 + d) / n < 32768 := Int.ediv_lt_of_lt_mul positive (by linarith)
    have above : 0 ≤ (x * 32768 + d) / n := Int.ediv_nonneg nonneg positive.le
    refine ⟨(x * 32768 + d) / n :: q, (x * 32768 + d) % n, ?_, Digits.cons_iff.mpr ⟨⟨above, below⟩, more⟩, by simp [length],
      Int.emod_nonneg _ positive.ne', Int.emod_lt_of_pos _ positive, ?_⟩
    · simp [sDivDigits, result, long_eq (n := x * 32768) (by omega) (by omega), long_eq (n := x * 32768 + d) (by omega) (by omega),
        Int.tdiv_eq_ediv_of_nonneg nonneg, Int.tmod_eq_emod_of_nonneg nonneg, short_eq (n := (x * 32768 + d) / n) (by omega) below]
    · have split := Int.mul_ediv_add_emod (x * 32768 + d) n
      rw [value_cons, value_cons, total]
      linear_combination -split

theorem sDiv_eq {n : Int} (positive : 0 < n) (small : n < 32768) (proper : Proper ds) {val : List Int} (words : val.take ds.length = ds)
    (within : ds.length ≤ val.length) :
    ∃ q, sDiv ⟨ds.length, val⟩ n = some (q, value 32768 ds % n) ∧ Is q (value 32768 ds / n) := by
  obtain ⟨q, x, result, more, length, low, high, total⟩ := sDivDigits_eq positive small proper.digits
  have quotient : value 32768 q = value 32768 ds / n := by
    rw [total, Int.mul_add_ediv_left _ _ positive.ne', Int.ediv_eq_zero_of_lt low high, add_zero]
  have rest : x = value 32768 ds % n := by
    rw [total, Int.mul_add_emod_self_left, Int.emod_eq_of_lt low high]
  have read : (⟨ds.length, val⟩ : Mint).words = some ds := by
    simp [Mint.words, words, within]
  have fits : xalloc (ds.length : Int) q = some q := if_pos (by omega)
  have known' : short x = some x := short_eq (by omega) (by omega)
  have dropped : ∃ len, (if (ds.length : Int) = 0 then some 0 else dropZero ds.length q) = some len ∧ Is ⟨len, q⟩ (value 32768 q) := by
    by_cases none : ds = []
    · subst none
      cases List.eq_nil_of_length_eq_zero length
      exact ⟨0, rfl, .zero⟩
    · have some' : q ≠ [] := by
        rintro rfl
        exact none (List.eq_nil_of_length_eq_zero length.symm)
      have count := List.length_pos_iff.mpr none
      obtain ⟨len, ends, is⟩ := dropZero_eq more some' fun two => by
        have large := proper.le none
        rw [length] at two ⊢
        rw [quotient, Int.le_ediv_iff_mul_le positive]
        refine le_trans ?_ large
        have step : (32768 : Int) ^ (ds.length - 1) = 32768 ^ (ds.length - 2) * 32768 := by
          rw [← pow_succ]
          congr 1
          omega
        rw [step]
        exact mul_le_mul_of_nonneg_left small.le (by positivity)
      rw [length] at ends
      exact ⟨len, by rw [if_neg (by omega), ends], is⟩
  obtain ⟨len, ends, is⟩ := dropped
  refine ⟨⟨len, q⟩, ?_, quotient ▸ is⟩
  rw [← rest]
  simp only [sDiv, known', read, result, fits, ends, bind_eq_bind, bind_some]

/-- `sdiv` of a number that is not negative. -/
theorem sdiv_eq {n : Int} (positive : 0 < n) (small : n < 32768) (proper : Proper ds) {val : List Int} (words : val.take ds.length = ds)
    (within : ds.length ≤ val.length) :
    ∃ q, sdiv ⟨ds.length, val⟩ n = some (q, value 32768 ds % n) ∧ Is q (value 32768 ds / n) := by
  obtain ⟨q, result, is⟩ := sDiv_eq positive small proper words within
  have plus : ¬ (ds.length : Int) < 0 := by omega
  have plus' : ¬ n < 0 := by omega
  refine ⟨q, ?_, is⟩
  simp only [sdiv, if_neg plus, if_neg plus', short_eq (n := n) (by omega) small, result, bind_eq_bind, bind_some]
  simp [plus, plus']

/-! ## The trial quotient -/

/-- The loop of `m_trq` goes down to the quotient of the upper digits, and no number in it overflows. -/
theorem trqLoop_eq (fuel : Nat) (upper : 0 < v1 ∧ v1 < 32768) (lower : 0 ≤ v2 ∧ v2 < 32768) (third : 0 ≤ u3 ∧ u3 < 32768)
    (range : 0 ≤ d ∧ d < 32768) (small : c1 < 1073741824) (rest : 0 ≤ c1 - v1 * d ∧ c1 - v1 * d ≤ 65534) (enough : d < fuel) :
    ∃ q, trqLoop v1 v2 c1 u3 fuel d = some q ∧ 0 ≤ q ∧ q ≤ d ∧ q * (v1 * 32768 + v2) ≤ c1 * 32768 + u3 ∧
      (q = d ∨ c1 * 32768 + u3 < (q + 1) * (v1 * 32768 + v2)) := by
  induction fuel generalizing d with
  | zero => omega
  | succ fuel ih =>
    have one := product_le ⟨upper.1.le, upper.2⟩ range
    have two := product_le lower range
    have first : long (v1 * d) = some (v1 * d) := long_eq (by omega) (by omega)
    have second : long (c1 - v1 * d) = some (c1 - v1 * d) := long_eq (by omega) (by omega)
    have third' : long ((c1 - v1 * d) * 32768) = some ((c1 - v1 * d) * 32768) := long_eq (by omega) (by omega)
    have fourth : long ((c1 - v1 * d) * 32768 + u3) = some ((c1 - v1 * d) * 32768 + u3) := long_eq (by omega) (by omega)
    have fifth : long (v2 * d) = some (v2 * d) := long_eq (by omega) (by omega)
    have sixth : long ((c1 - v1 * d) * 32768 + u3 - v2 * d) = some ((c1 - v1 * d) * 32768 + u3 - v2 * d) := long_eq (by omega) (by omega)
    have seventh : short (d - 1) = some (d - 1) := short_eq (by omega) (by omega)
    have whole : (c1 - v1 * d) * 32768 + u3 - v2 * d = c1 * 32768 + u3 - d * (v1 * 32768 + v2) := by ring
    simp only [trqLoop, bind_eq_bind, bind_some, first, second, third', fourth, fifth, sixth, seventh]
    by_cases negative : (c1 - v1 * d) * 32768 + u3 - v2 * d < 0
    · rw [if_pos negative]
      have some' : 1 ≤ d := by
        by_contra none
        have zero : d = 0 := by omega
        rw [zero] at negative rest
        omega
      have expand : v1 * (d - 1) = v1 * d - v1 := by ring
      obtain ⟨q, result, low, high, fits, next⟩ := ih (d := d - 1) (by omega) (by omega) (by omega)
      refine ⟨q, result, low, by omega, fits, .inr ?_⟩
      rcases next with rfl | next
      · rw [sub_add_cancel]
        linarith
      · exact next
    · rw [if_neg negative]
      exact ⟨d, by rw [sub_add_cancel], range.1, le_rfl, by linarith, .inl rfl⟩

theorem mTrq_eq (upper : 0 < v1 ∧ v1 < 32768) (lower : 0 ≤ v2 ∧ v2 < 32768) (first : 0 ≤ u1 ∧ u1 ≤ v1) (second : 0 ≤ u2 ∧ u2 < 32768)
    (third : 0 ≤ u3 ∧ u3 < 32768) :
    ∃ q, mTrq v1 v2 u1 u2 u3 = some q ∧ 0 ≤ q ∧ q < 32768 ∧ q * (v1 * 32768 + v2) ≤ (u1 * 32768 + u2) * 32768 + u3 ∧
      (q = 32767 ∨ (u1 * 32768 + u2) * 32768 + u3 < (q + 1) * (v1 * 32768 + v2)) := by
  have high : long (u1 * 32768) = some (u1 * 32768) := long_eq (by omega) (by omega)
  have both : long (u1 * 32768 + u2) = some (u1 * 32768 + u2) := long_eq (by omega) (by omega)
  have start : ∃ d, (if u1 = v1 then some 32767 else short (Int.tdiv (u1 * 32768 + u2) v1)) = some d ∧ 0 ≤ d ∧ d < 32768 ∧
      0 ≤ u1 * 32768 + u2 - v1 * d ∧ u1 * 32768 + u2 - v1 * d ≤ 65534 ∧
      (d = 32767 ∨ u1 * 32768 + u2 < (d + 1) * v1) := by
    by_cases equal : u1 = v1
    · refine ⟨32767, if_pos equal, by decide, by decide, ?_, ?_, .inl rfl⟩
      · rw [equal]
        omega
      · rw [equal]
        omega
    · have nonneg : 0 ≤ u1 * 32768 + u2 := by omega
      have below : (u1 * 32768 + u2) / v1 < 32768 := Int.ediv_lt_of_lt_mul upper.1 (by omega)
      have above : 0 ≤ (u1 * 32768 + u2) / v1 := Int.ediv_nonneg nonneg upper.1.le
      have split := Int.mul_ediv_add_emod (u1 * 32768 + u2) v1
      have rest := Int.emod_lt_of_pos (u1 * 32768 + u2) upper.1
      have rest' := Int.emod_nonneg (u1 * 32768 + u2) upper.1.ne'
      refine ⟨(u1 * 32768 + u2) / v1, ?_, above, below, by omega, by omega, .inr ?_⟩
      · rw [if_neg equal, Int.tdiv_eq_ediv_of_nonneg nonneg]
        exact short_eq (by omega) below
      · have expand : ((u1 * 32768 + u2) / v1 + 1) * v1 = v1 * ((u1 * 32768 + u2) / v1) + v1 := by ring
        omega
  obtain ⟨d, begins, low, small, rest, rest', largest⟩ := start
  obtain ⟨q, result, nonneg, most, fits, next⟩ := trqLoop_eq 65536 upper lower third ⟨low, small⟩ (by omega) ⟨rest, rest'⟩ (by omega)
  refine ⟨q, ?_, nonneg, by omega, fits, ?_⟩
  · simp only [mTrq, bind_eq_bind, bind_some, high, both]
    rw [begins]
    exact result
  · rcases next with rfl | next
    · refine largest.imp_right fun above => ?_
      nlinarith
    · exact .inr next

theorem trial_eq {p w v q : Int} (power : 0 < p) (tail : 0 ≤ w ∧ w < p) (upper : 0 < v1 ∧ v1 < 32768) (lower : 0 ≤ v2 ∧ v2 < 32768)
    (divisor : (v1 * 32768 + v2) * p ≤ v ∧ v < (v1 * 32768 + v2 + 1) * p) (below : x * p + w < 32768 * v) (nonneg : 0 ≤ q) (small : q < 32768)
    (fits : q * (v1 * 32768 + v2) ≤ x) (next : q = 32767 ∨ x < (q + 1) * (v1 * 32768 + v2)) :
    x * p + w < (q + 1) * v ∧ (q - 1) * v ≤ x * p + w := by
  constructor
  · rcases next with rfl | next
    · linarith
    · have step := mul_le_mul_of_nonneg_right (Int.add_one_le_of_lt next) power.le
      nlinarith
  · have large : q ≤ v1 * 32768 + v2 := by omega
    nlinarith

end

end Svr4.Mp
