import Mathlib.Data.Int.ModEq
import Svr4.Library.Mp.Division

/-! The routines of `libmp` do exact arithmetic on the variables of a client, also when the
result is one of the operands. -/

namespace Svr4.Mp

open Positional Function
open Option (bind_eq_bind bind_some map_some)

section
variable {ds es : List Int} {m m' : Mint} {n n' : Int}

/-! ## `mdiv` -/

theorem mDiv_digit {d : Int} (proper : Proper ds) (own : 0 < d ∧ d < 32768) :
    ∃ q r, mDiv ⟨ds.length, ds⟩ ⟨1, [d]⟩ = some (q, r) ∧ Is q (value 32768 ds / d) ∧ Is r (value 32768 ds % d) := by
  obtain ⟨q, result, is⟩ := sdiv_eq own.1 own.2 proper (List.take_length) le_rfl
  have low := Int.emod_nonneg (value 32768 ds) own.1.ne'
  have high := Int.emod_lt_of_pos (value 32768 ds) own.1
  have words : (⟨1, [d]⟩ : Mint).words = some [d] := words_eq [d]
  refine ⟨q, if value 32768 ds % d = 0 then ⟨0, []⟩ else ⟨1, [value 32768 ds % d]⟩, ?_, is, ?_⟩
  · simp only [mDiv, words, bind_eq_bind, bind_some, if_neg (show ¬ (1 : Int) = 0 by decide), if_true,
      List.getElem?_cons_zero, result]
  · split
    · rename_i zero
      rw [zero]
      exact .zero
    · rename_i some'
      exact .digit ⟨by omega, by omega⟩

theorem mDiv_short (proper : Proper ds) (proper' : Proper es) (two : 2 ≤ es.length) (length : ds.length < es.length) :
    mDiv ⟨ds.length, ds⟩ ⟨es.length, es⟩ = some (⟨0, []⟩, ⟨ds.length, ds⟩) ∧ Is ⟨ds.length, ds⟩ (value 32768 ds) ∧
      value 32768 ds < value 32768 es := by
  have fits : xalloc ds.length ds = some ds := if_pos le_rfl
  have zero : ¬ (es.length : Int) = 0 := by omega
  have one : ¬ (es.length : Int) = 1 := by omega
  have shorter : (ds.length : Int) < es.length := by omega
  refine ⟨?_, ?_, ?_⟩
  · simp only [mDiv, words_eq, bind_eq_bind, bind_some, if_neg zero, if_neg one, if_pos shorter, fits]
  · have form : Is ⟨ds.length, ds⟩ (value 32768 (ds.take ds.length)) := .of_nonneg le_rfl (by rwa [List.take_length])
    rwa [List.take_length] at form
  · have some' : es ≠ [] := by
      rintro rfl
      simp at two
    have powers : (32768 : Int) ^ ds.length ≤ 32768 ^ (es.length - 1) := pow_le_pow_right₀ (by decide) (by omega)
    exact proper.lt.trans_le (powers.trans (proper'.le some'))

theorem mDiv_eq (proper : Proper ds) (proper' : Proper es) (some' : es ≠ []) :
    ∃ q r, mDiv ⟨ds.length, ds⟩ ⟨es.length, es⟩ = some (q, r) ∧ ∃ x y, Is q x ∧ Is r y ∧
      value 32768 ds = x * value 32768 es + y ∧ 0 ≤ y ∧ y < value 32768 es := by
  have count := List.length_pos_iff.mpr some'
  rcases Nat.lt_or_ge es.length 2 with one | two
  · obtain ⟨d, rfl⟩ := List.length_eq_one_iff.mp (show es.length = 1 by omega)
    have digit := (Digits.cons_iff.mp proper'.digits).1
    have nonzero := proper'.top d rfl
    have positive : 0 < d := by omega
    obtain ⟨q, r, result, is, is'⟩ := mDiv_digit proper ⟨positive, digit.2⟩
    have number : value 32768 [d] = d := by simp
    rw [number]
    refine ⟨q, r, result, _, _, is, is', ?_, Int.emod_nonneg _ positive.ne', Int.emod_lt_of_pos _ positive⟩
    have split := Int.mul_ediv_add_emod (value 32768 ds) d
    linear_combination -split
  · rcases Nat.lt_or_ge ds.length es.length with shorter | longer
    · obtain ⟨result, is, below⟩ := mDiv_short proper proper' two shorter
      exact ⟨_, _, result, 0, _, .zero, is, by ring, proper.digits.nonneg, below⟩
    · exact mDiv_long proper proper' two longer

/-! ## Comparing -/

theorem Is.len_lt (is : Is m n) (is' : Is m' n') (less : m.len < m'.len) : n < n' := by
  obtain ⟨ds, proper, ⟨-, len, rfl⟩ | ⟨-, len, below, rfl⟩⟩ := is.cases
  all_goals obtain ⟨es, proper', ⟨-, len', rfl⟩ | ⟨-, len', below', rfl⟩⟩ := is'.cases
  · have some' : es ≠ [] := by
      rintro rfl
      simp at len'
      omega
    have powers : (32768 : Int) ^ ds.length ≤ 32768 ^ (es.length - 1) := pow_le_pow_right₀ (by decide) (by omega)
    exact proper.lt.trans_le (powers.trans (proper'.le some'))
  · omega
  · have some' : ds ≠ [] := by
      rintro rfl
      simp at len
      omega
    have large := proper.le some'
    have power : (0 : Int) < 32768 ^ (ds.length - 1) := by positivity
    have more := proper'.digits.nonneg
    linarith
  · have some' : ds ≠ [] := by
      rintro rfl
      simp at len
      omega
    have powers : (32768 : Int) ^ es.length ≤ 32768 ^ (ds.length - 1) := pow_le_pow_right₀ (by decide) (by omega)
    have large := proper.le some'
    have small := proper'.lt
    linarith

theorem Is.sign (is : Is m n) : m.len.sign = n.sign := by
  have zero : Is ⟨0, []⟩ 0 := .zero
  rcases lt_trichotomy m.len 0 with below | none | above
  · have less := is.len_lt zero below
    rw [Int.sign_eq_neg_one_of_neg below, Int.sign_eq_neg_one_of_neg less]
  · rw [none, is.of_len none]
  · have more := zero.len_lt is above
    rw [Int.sign_eq_one_of_pos above, Int.sign_eq_one_of_pos more]

theorem Is.below (is : Is m n) : m.len < 0 ↔ n < 0 := by
  rw [← Int.sign_eq_neg_one_iff_neg, is.sign, Int.sign_eq_neg_one_iff_neg]

theorem abs_ite {flips : Prop} [Decidable flips] {v : Int} (low : 0 ≤ v) : |if flips then -v else v| = v := by
  split
  · rw [abs_neg, abs_of_nonneg low]
  · exact abs_of_nonneg low

theorem Is.abs (is : Is m n) : |n| = value 32768 (m.val.take m.len.natAbs) := by
  rw [is.number, abs_ite is.proper.digits.nonneg]

theorem mdivOf_abs (is : Is m n) (is' : Is m' n') (some' : n' ≠ 0) :
    ∃ q r u v, mdivOf m m' = some (if (n < 0) ≠ (n' < 0) then q.neg else q, if (n < 0) ≠ (n' < 0) then r.neg else r) ∧
      Is q u ∧ Is r v ∧ |n| = u * |n'| + v ∧ 0 ≤ v ∧ v < |n'| := by
  obtain ⟨ds, x, moved, plain, proper, -, number⟩ := is.absolute
  obtain ⟨es, y, moved', plain', proper', -, number'⟩ := is'.absolute
  have nonempty : es ≠ [] := by
    rintro rfl
    refine some' (number'.trans ?_)
    simp
  obtain ⟨q, r, result, u, v, isq, isr, total, low, high⟩ := mDiv_eq proper proper' nonempty
  refine ⟨q, r, u, v, ?_, isq, isr, ?_⟩
  · simp only [is.below] at plain
    simp only [is'.below] at plain'
    simp only [mdivOf, is.below, is'.below, moved, moved', bind_eq_bind, bind_some, plain, plain', result]
    split
    · rfl
    · rfl
  · rw [number, number', abs_ite proper.digits.nonneg, abs_ite proper'.digits.nonneg]
    exact ⟨total, low, high⟩

theorem mdivOf_eq (is : Is m n) (is' : Is m' n') (nonneg : 0 ≤ n) (positive : 0 < n') :
    ∃ q r, mdivOf m m' = some (q, r) ∧ ∃ x y, Is q x ∧ Is r y ∧ n = x * n' + y ∧ 0 ≤ y ∧ y < n' := by
  obtain ⟨q, r, u, v, result, isq, isr, divided⟩ := mdivOf_abs is is' positive.ne'
  rw [abs_of_nonneg nonneg, abs_of_pos positive] at divided
  exact ⟨q, r, by simpa [not_lt.mpr nonneg, not_lt.mpr positive.le] using result, u, v, isq, isr, divided⟩

end

section
variable {κ : Type} [DecidableEq κ] {s : κ → Mint} {a b : κ} {n n' : Int}

theorem canVar_eq {a : κ} {n : Int} (is : Is (s a) n) : canVar s a = some s := by
  rw [canVar, mcan_eq is, map_some, update_eq_self]

theorem mcmp_eq (is : Is (s a) n) (is' : Is (s b) n') : ∃ order, mcmp s a b = some (order, s) ∧ order.sign = (n - n').sign := by
  simp only [mcmp, canVar_eq is, canVar_eq is', bind_eq_bind, bind_some]
  split
  · rename_i differ
    refine ⟨_, rfl, ?_⟩
    rcases lt_or_gt_of_ne differ with less | more
    · have below := is.len_lt is' less
      rw [Int.sign_eq_neg_one_of_neg (by omega), Int.sign_eq_neg_one_of_neg (by omega)]
    · have above := is'.len_lt is more
      rw [Int.sign_eq_one_of_pos (by omega), Int.sign_eq_one_of_pos (by omega)]
  · obtain ⟨c, result, difference⟩ := msub_eq is is'
    exact ⟨c.len, by rw [result]; rfl, difference.sign⟩

/-- Sums, differences, products, quotients and comparisons are those of the integers, and only the
result changes; it may be an operand. -/
theorem arithmetic_exact {s : κ → Mint} {a b : κ} {n n' : Int} (is : Is (s a) n) (is' : Is (s b) n') :
    (∀ c, ∃ m, madd s a b c = some (update s c m) ∧ Is m (n + n')) ∧
    (∀ c, ∃ m, msub s a b c = some (update s c m) ∧ Is m (n - n')) ∧
    (∀ c, ∃ m, mult s a b c = some (update s c m) ∧ Is m (n * n')) ∧
    (∃ order, mcmp s a b = some (order, s) ∧ order.sign = (n - n').sign) ∧
    (0 ≤ n → 0 < n' → ∀ q r, ∃ m m' x y, mdiv s a b q r = some (update (update s q m) r m') ∧
      Is m x ∧ Is m' y ∧ n = x * n' + y ∧ 0 ≤ y ∧ y < n') := by
  refine ⟨fun c => ?_, fun c => ?_, fun c => ?_, mcmp_eq is is', fun nonneg positive q r => ?_⟩
  · obtain ⟨m, result, sum⟩ := madd_eq is is'
    exact ⟨m, by rw [madd, result, map_some], sum⟩
  · obtain ⟨m, result, difference⟩ := msub_eq is is'
    exact ⟨m, by rw [msub, result, map_some], difference⟩
  · obtain ⟨m, result, product⟩ := multOf_eq is is'
    refine ⟨m, ?_, product⟩
    simp [mult, canVar_eq is, canVar_eq is', result]
  · obtain ⟨m, m', result, x, y, isq, isr, total, low, high⟩ := mdivOf_eq is is' nonneg positive
    exact ⟨m, m', x, y, by rw [mdiv, result, map_some], isq, isr, total, low, high⟩

/-- 98305 divided by itself, with the quotient and the remainder in the operands. -/
theorem arithmetic_exact_alias : ∃ m m' x y, mdiv (fun _ : Bool => (⟨2, [1, 3]⟩ : Mint)) true false true false =
      some (update (update (fun _ => ⟨2, [1, 3]⟩) true m) false m') ∧
    Is m x ∧ Is m' y ∧ 98305 = x * 98305 + y ∧ 0 ≤ y ∧ y < 98305 := by
  have is : Is ((fun _ : Bool => (⟨2, [1, 3]⟩ : Mint)) true) 98305 :=
    ⟨by decide, ⟨by unfold Digits; decide, fun d last => by cases last; decide⟩, by decide⟩
  have is' : Is ((fun _ : Bool => (⟨2, [1, 3]⟩ : Mint)) false) 98305 := is
  exact (arithmetic_exact (κ := Bool) (s := fun _ => ⟨2, [1, 3]⟩) is is').2.2.2.2 (by decide) (by decide) true false

end

/-! ## `pow` -/

section
variable {ds : List Int} {m : Mint} {n : Int}

theorem Is.copy (is : Is m n) : ∃ c, move m = some c ∧ c.len = m.len ∧ c.val.length = m.len.natAbs ∧ Is c n := by
  obtain ⟨ds, moved, length, proper, number⟩ := is.moved
  have whole : ds.take m.len.natAbs = ds := List.take_of_length_le length.le
  exact ⟨_, moved, rfl, length, length.ge, by rwa [whole], by rw [number, whole]⟩

theorem multMod_eq {a b c : Mint} {x y z : Int} (is : Is a x) (is' : Is b y) (mod : Is c z) (nonneg : 0 ≤ x * y)
    (positive : 0 < z) : ∃ d, multMod a b c = some d ∧ Is d (x * y % z) := by
  obtain ⟨p, product, isp⟩ := multOf_eq is is'
  obtain ⟨q, d, divided, u, v, -, isd, total, low, high⟩ := mdivOf_eq isp mod nonneg positive
  refine ⟨d, by simp [multMod, product, divided], ?_⟩
  rwa [total, add_comm, Int.add_mul_emod_self_right, Int.emod_eq_of_lt low high]

section
variable {a c d : Mint} {x z u : Int} (base : Is a x) (nonneg : 0 ≤ x) (mod : Is c z) (large : 1 < z)
include base nonneg mod large

theorem powBits_eq {i k : Nat} (is : Is d u) (own : 0 ≤ u ∧ u < z) (small : k * 2 ^ i < 1073741824) :
    ∃ r w, powBits a c i k d = some r ∧ Is r w ∧ (0 ≤ w ∧ w < z) ∧
      w ≡ u ^ 2 ^ i * x ^ (k * 2 ^ i / 32768 % 2 ^ i) [ZMOD z] := by
  induction i generalizing k d u with
  | zero => exact ⟨d, u, rfl, is, own, by rw [pow_zero, pow_one, Nat.mod_one, pow_zero, mul_one]⟩
  | succ i ih =>
    have positive : 0 < z := by omega
    have reduced (v : Int) : 0 ≤ v % z ∧ v % z < z := ⟨Int.emod_nonneg v positive.ne', Int.emod_lt_of_pos v positive⟩
    obtain ⟨s, squared, iss⟩ := multMod_eq is is mod (mul_self_nonneg u) positive
    have next : k * 2 ^ (i + 1) = k * 2 * 2 ^ i := by rw [pow_succ]; ring
    have fits : k * 2 < 1073741824 := by nlinarith [Nat.one_le_two_pow (n := i)]
    have place : k * 2 * 2 ^ i / 32768 / 2 ^ i = k * 2 / 32768 := by
      rw [Nat.div_div_eq_div_mul, Nat.mul_div_mul_right _ _ (by positivity)]
    have split : k * 2 * 2 ^ i / 32768 % 2 ^ (i + 1) = k * 2 * 2 ^ i / 32768 % 2 ^ i + 2 ^ i * (k * 2 / 32768 % 2) := by
      rw [pow_succ, Nat.mod_mul, place]
    have shifted : long ((k : Int) * 2) = some ((k * 2 : Nat) : Int) := by
      rw [long_eq (by omega) (by omega)]
      push_cast
      rfl
    have square : u * u % z ≡ u ^ 2 [ZMOD z] := by
      rw [sq]
      exact Int.mod_modEq _ _
    rw [next, split]
    by_cases bit : bit15 ((k * 2 : Nat) : Int)
    · obtain ⟨t, times, ist⟩ := multMod_eq base iss mod (mul_nonneg nonneg (reduced _).1) positive
      obtain ⟨r, w, result, isr, bounds, same⟩ := ih ist (reduced _) (next ▸ small)
      refine ⟨r, w, ?_, isr, bounds, same.trans ?_⟩
      · simp only [powBits, squared, shifted, bind_eq_bind, bind_some, bit, if_true, times, result]
      · have one : k * 2 / 32768 % 2 = 1 := by
          have := of_decide_eq_true bit
          omega
        have step : (x * (u * u % z) % z) ^ 2 ^ i ≡ (x * u ^ 2) ^ 2 ^ i [ZMOD z] :=
          ((Int.mod_modEq _ _).trans (square.mul_left x)).pow _
        exact (step.mul_right _).trans (congrArg (· % z) (by rw [one]; ring))
    · obtain ⟨r, w, result, isr, bounds, same⟩ := ih iss (reduced _) (next ▸ small)
      refine ⟨r, w, ?_, isr, bounds, same.trans ?_⟩
      · simp only [powBits, squared, shifted, bind_eq_bind, bind_some, bit, Bool.false_eq_true, if_false, result]
      · have none : k * 2 / 32768 % 2 = 0 := by
          have := of_decide_eq_false (Bool.eq_false_iff.mpr bit)
          omega
        exact ((square.pow _).mul_right _).trans (congrArg (· % z) (by rw [none]; ring))

theorem powLoop_eq (digits : Digits 32768 ds) :
    ∃ r w, ds.foldrM (powBits a c 15) ⟨1, [1]⟩ = some r ∧ Is r w ∧ (0 ≤ w ∧ w < z) ∧
      w ≡ x ^ (value 32768 ds).toNat [ZMOD z] := by
  induction ds with
  | nil => exact ⟨_, 1, rfl, .digit ⟨by decide, by decide⟩, ⟨by decide, large⟩, by simp⟩
  | cons d ds ih =>
    obtain ⟨own, rest⟩ := Digits.cons_iff.mp digits
    obtain ⟨r, w, result, isr, bounds, same⟩ := ih rest
    obtain ⟨k, rfl⟩ := Int.eq_ofNat_of_zero_le own.1
    have whole : k * 2 ^ 15 / 32768 % 2 ^ 15 = k := by
      rw [show (32768 : Nat) = 2 ^ 15 by norm_num, Nat.mul_div_cancel k (by positivity), Nat.mod_eq_of_lt (by omega)]
    obtain ⟨r', w', result', isr', bounds', same'⟩ := powBits_eq base nonneg mod large isr bounds (i := 15) (k := k) (by omega)
    have low := rest.nonneg
    have total : (value 32768 (↑k :: ds)).toNat = (value 32768 ds).toNat * 2 ^ 15 + k := by
      rw [value_cons]
      omega
    have step (e : Nat) : w ^ e * x ^ k ≡ x ^ ((value 32768 ds).toNat * e + k) [ZMOD z] := by
      rw [pow_add, pow_mul]
      exact (same.pow e).mul_right _
    refine ⟨r', w', by rw [List.foldrM_cons, result, bind_eq_bind, bind_some, result'], isr', bounds', ?_⟩
    rw [whole] at same'
    rw [total]
    exact same'.trans (step _)

end

theorem powOf_eq {a b c : Mint} {x y z : Int} (base : Is a x) (nonneg : 0 ≤ x) (is : Is b y) (mod : Is c z) (large : 1 < z) :
    ∃ r, powOf a b c = some r ∧ Is r (x ^ y.toNat % z) := by
  obtain ⟨a', moved, -, -, base'⟩ := base.copy
  obtain ⟨b', moved', len, length, is'⟩ := is.copy
  obtain ⟨c', moved'', -, -, mod'⟩ := mod.copy
  obtain ⟨ds, digits, exponent, form⟩ : ∃ ds, Digits 32768 ds ∧ (value 32768 ds).toNat = y.toNat ∧
      (if 0 < b'.len then b'.val else []) = ds := by
    by_cases positive : 0 < b'.len
    · have whole : b'.val.take b'.len.natAbs = b'.val := List.take_of_length_le (by rw [length, len])
      refine ⟨b'.val, whole ▸ is'.proper.digits, ?_, if_pos positive⟩
      rw [is'.number, whole, if_neg (not_lt.mpr positive.le)]
    · refine ⟨[], .nil, ?_, if_neg positive⟩
      have below : y ≤ 0 := by
        rw [← Int.sign_nonpos_iff, ← is'.sign, Int.sign_nonpos_iff]
        exact not_lt.mp positive
      rw [value_nil, Int.toNat_of_nonpos below]
      rfl
  obtain ⟨r, w, result, isr, bounds, same⟩ := powLoop_eq base' nonneg mod' large digits
  refine ⟨r, ?_, ?_⟩
  · simp only [powOf, moved, moved', moved'', bind_eq_bind, bind_some, form, result]
  · rwa [← exponent, ← same.eq, Int.emod_eq_of_lt bounds.1 bounds.2]

end

end Svr4.Mp
