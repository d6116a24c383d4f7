import Svr4.Library.Mp.Quotient

/-! Long division. The words above the current place hold the remainder so far; what `m_dsb`
leaves above them is never read again. -/

namespace Svr4.Mp

open Positional
open Option (bind_eq_bind bind_some)
open List (length_cons length_append length_singleton length_take)

section
variable {a ds es lo rest vs ws front mid qval : List Int} {v1 v2 u1 u2 u3 qx top q : Int} {borrow d : Int}

theorem dsbTake_eq (rest : List Int) (own : 0 ≤ qx ∧ qx < 32768) (digits : Digits 32768 a) (cells : Digits 32768 (lo ++ [top]))
    (length : lo.length = a.length) (range : -32767 ≤ borrow ∧ borrow ≤ 0) :
    ∃ out last, dsbTake qx borrow a (lo ++ top :: rest) = some (out ++ rest, last) ∧ Digits 32768 out ∧ out.length = lo.length + 1 ∧
      value 32768 out + 32768 ^ (lo.length + 1) * last = borrow + value 32768 (lo ++ [top]) - qx * value 32768 a := by
  induction a generalizing lo borrow with
  | nil =>
    cases List.eq_nil_of_length_eq_zero length
    obtain ⟨here, -⟩ := Digits.cons_iff.mp cells
    have sum : long (borrow + top) = some (borrow + top) := long_eq (by omega) (by omega)
    refine ⟨[low15 (borrow + top)], shift15 (borrow + top), ?_, Digits.cons_iff.mpr ⟨low15_digit _, .nil⟩, rfl, ?_⟩
    · simp [dsbTake, sum]
    · have split := low15_shift (borrow + top)
      rw [shift15_eq]
      simp
      linarith
  | cons x a ih =>
    cases lo with
    | nil => cases length
    | cons y lo =>
      obtain ⟨digit, more⟩ := Digits.cons_iff.mp digits
      obtain ⟨here, cells⟩ := Digits.cons_iff.mp cells
      have product := product_le digit own
      have first : long (x * qx) = some (x * qx) := long_eq (by omega) (by omega)
      have second : long (x * qx - y) = some (x * qx - y) := long_eq (by omega) (by omega)
      have third : long (borrow - (x * qx - y)) = some (borrow - (x * qx - y)) := long_eq (by omega) (by omega)
      obtain ⟨out, last, result, out', same, total⟩ := ih more cells (Nat.succ.inj length)
        (show -32767 ≤ (borrow - (x * qx - y)) / 32768 ∧ (borrow - (x * qx - y)) / 32768 ≤ 0 by omega)
      refine ⟨low15 (borrow - (x * qx - y)) :: out, last, ?_, Digits.cons_iff.mpr ⟨low15_digit _, out'⟩, by simp [same], ?_⟩
      · simp [dsbTake, first, second, third, shift15_eq, result]
      · have split := low15_shift (borrow - (x * qx - y))
        rw [value_cons, List.cons_append, value_cons, value_cons, length_cons, pow_succ]
        linear_combination 32768 * total + split

theorem dsbGive_eq (rest : List Int) (digits : Digits 32768 a) (cells : Digits 32768 lo) (length : lo.length = a.length)
    (range : 0 ≤ borrow ∧ borrow ≤ 1) :
    ∃ out carry, dsbGive borrow a (lo ++ rest) = some (out ++ rest) ∧ Digits 32768 out ∧ out.length = lo.length ∧
      value 32768 out + 32768 ^ lo.length * carry = borrow + value 32768 lo + value 32768 a := by
  induction a generalizing lo borrow with
  | nil =>
    cases List.eq_nil_of_length_eq_zero length
    exact ⟨[], borrow, rfl, .nil, rfl, by simp⟩
  | cons x a ih =>
    cases lo with
    | nil => cases length
    | cons y lo =>
      obtain ⟨digit, more⟩ := Digits.cons_iff.mp digits
      obtain ⟨here, cells⟩ := Digits.cons_iff.mp cells
      have sum : long (borrow + (x + y)) = some (borrow + (x + y)) := long_eq (by omega) (by omega)
      obtain ⟨out, carry, result, out', same, total⟩ := ih more cells (Nat.succ.inj length)
        (show 0 ≤ (borrow + (x + y)) / 32768 ∧ (borrow + (x + y)) / 32768 ≤ 1 by omega)
      refine ⟨low15 (borrow + (x + y)) :: out, carry, ?_, Digits.cons_iff.mpr ⟨low15_digit _, out'⟩, by simp [same], ?_⟩
      · simp [dsbGive, sum, shift15_eq, result]
      · have split := low15_shift (borrow + (x + y))
        rw [value_cons, value_cons, value_cons, length_cons, pow_succ]
        linear_combination 32768 * total + split

/-- Numbers of `n` words that differ by a multiple of what `n` words can hold are the same. -/
theorem same_words {p x y k : Int} (total : x = y + p * k) (left : 0 ≤ x ∧ x < p) (right : 0 ≤ y ∧ y < p) : x = y := by
  have positive : 0 < p := by omega
  have none : k = 0 := by
    rcases lt_trichotomy k 0 with below | zero | above
    · have := mul_le_mul_of_nonneg_left (show k ≤ -1 by omega) positive.le
      linarith
    · exact zero
    · have := mul_le_mul_of_nonneg_left (show 1 ≤ k by omega) positive.le
      linarith
  rw [total, none, mul_zero, add_zero]

/-- `m_dsb` leaves the remainder, and says whether the quotient was one too large. -/
theorem mDsb_eq (rest : List Int) (own : 0 ≤ qx ∧ qx < 32768) (digits : Digits 32768 a) (cells : Digits 32768 (lo ++ [top])) (length : lo.length = a.length)
    (above : value 32768 (lo ++ [top]) < (qx + 1) * value 32768 a) (below : (qx - 1) * value 32768 a ≤ value 32768 (lo ++ [top])) :
    ∃ low high less, mDsb qx a (lo ++ top :: rest) = some (low ++ high :: rest, less) ∧ Digits 32768 low ∧ low.length = lo.length ∧
      0 ≤ (if less then qx - 1 else qx) ∧ value 32768 low < value 32768 a ∧
      value 32768 low = value 32768 (lo ++ [top]) - (if less then qx - 1 else qx) * value 32768 a := by
  obtain ⟨out, last, result, digits', same, total⟩ := dsbTake_eq rest own digits cells length
    (show -32767 ≤ (0 : Int) ∧ (0 : Int) ≤ 0 by decide)
  obtain ⟨low, high, rfl⟩ : ∃ low high, out = low ++ [high] := by
    rcases List.eq_nil_or_concat out with rfl | ⟨low, high, rfl⟩
    · cases same
    · exact ⟨low, high, List.concat_eq_append⟩
  have shorter : low.length = lo.length := by simpa using same
  have ⟨lowDigits, highDigit⟩ := Digits.append_iff.mp digits'
  have whole := digits'.lt (by decide)
  have window := cells.nonneg
  have divisor := digits.lt (by decide)
  have positive : 0 < value 32768 a := by
    by_contra none
    have zero := le_antisymm (not_lt.mp none) digits.nonneg
    rw [zero] at above
    linarith
  have lowBounds : 0 ≤ value 32768 low ∧ value 32768 low < 32768 ^ low.length := ⟨lowDigits.nonneg, lowDigits.lt (by decide)⟩
  rw [← length, ← shorter] at divisor
  have parts : value 32768 (low ++ [high]) = value 32768 low + 32768 ^ low.length * high := by
    rw [value_append, value_cons, value_nil, mul_zero, add_zero]
  rw [length_append, length_singleton] at whole
  rw [← shorter] at total
  have power : (32768 : Int) ^ (low.length + 1) = 32768 ^ low.length * 32768 := pow_succ _ _
  by_cases fits : last = 0
  · subst fits
    have rest' : value 32768 low = value 32768 (lo ++ [top]) - qx * value 32768 a := by
      refine same_words (p := 32768 ^ low.length) (k := -high) ?_ lowBounds ⟨?_, ?_⟩
      · linarith
      · have nonneg := digits'.nonneg
        linarith
      · linarith
    refine ⟨low, high, false, ?_, lowDigits, shorter, own.1, ?_, rest'⟩
    · simp [mDsb, result]
    · rw [rest']
      linarith
  · have borrowed : value 32768 (lo ++ [top]) < qx * value 32768 a := by
      by_contra enough
      have small := cells.lt (by decide)
      rw [length_append, length_singleton, ← shorter] at small
      have product := mul_nonneg own.1 digits.nonneg
      have bounds := digits'.nonneg
      refine fits ?_
      have both := same_words (p := 32768 ^ (low.length + 1)) (k := -last)
        (x := value 32768 (low ++ [high])) (y := value 32768 (lo ++ [top]) - qx * value 32768 a) (by linarith) ⟨bounds, whole⟩
        ⟨by linarith, by linarith⟩
      rw [both] at total
      have zero : (32768 : Int) ^ (low.length + 1) * last = 0 := by linarith
      exact (mul_eq_zero.mp zero).resolve_left (by positivity)
    obtain ⟨given, carry, result', digits'', same', total'⟩ := dsbGive_eq (high :: rest) digits lowDigits (shorter.trans length)
      (show 0 ≤ (0 : Int) ∧ (0 : Int) ≤ 1 by decide)
    have rest' : value 32768 given = value 32768 (lo ++ [top]) - (qx - 1) * value 32768 a := by
      refine same_words (p := 32768 ^ low.length) (k := -(high + 32768 * last + carry)) ?_ ⟨digits''.nonneg, ?_⟩ ⟨by linarith, by linarith⟩
      · rw [power] at total
        linear_combination total' - parts + total
      · rw [← same']
        exact digits''.lt (by decide)
    refine ⟨given, high, true, ?_, digits'', same'.trans shorter, ?_, ?_, rest'⟩
    · rw [List.append_assoc, List.singleton_append] at result
      simp [mDsb, result, fits, result']
    · rw [if_pos rfl]
      by_contra none
      have zero : qx = 0 := by omega
      rw [zero, zero_mul] at borrowed
      linarith
    · rw [rest']
      linarith

theorem divStep (front rest : List Int) (upper : 0 < v1) (divisor : Digits 32768 (vs ++ [v2, v1])) (cells : Digits 32768 (ws ++ [u3, u2, u1]))
    (length : ws.length = vs.length)
    (below : value 32768 (ws ++ [u3, u2, u1]) < 32768 * value 32768 (vs ++ [v2, v1])) :
    ∃ low high q, 0 ≤ q ∧ q < 32768 ∧
      divLoop (vs ++ [v2, v1]) v1 v2 (front.length + 1) (front ++ (ws ++ [u3, u2, u1] ++ rest)) qval =
        divLoop (vs ++ [v2, v1]) v1 v2 front.length (front ++ (low ++ high :: rest)) (q :: qval) ∧
      Digits 32768 low ∧ low.length = vs.length + 2 ∧ value 32768 low < value 32768 (vs ++ [v2, v1]) ∧
      value 32768 low + q * value 32768 (vs ++ [v2, v1]) = value 32768 (ws ++ [u3, u2, u1]) := by
  obtain ⟨tailDigits, tops⟩ := Digits.append_iff.mp cells
  obtain ⟨third, tops⟩ := Digits.cons_iff.mp tops
  obtain ⟨second, tops⟩ := Digits.cons_iff.mp tops
  obtain ⟨first, -⟩ := Digits.cons_iff.mp tops
  obtain ⟨lowDigits, heads⟩ := Digits.append_iff.mp divisor
  obtain ⟨lower, heads⟩ := Digits.cons_iff.mp heads
  obtain ⟨head, -⟩ := Digits.cons_iff.mp heads
  have power : (0 : Int) < 32768 ^ vs.length := by positivity
  have window : value 32768 (ws ++ [u3, u2, u1]) = ((u1 * 32768 + u2) * 32768 + u3) * 32768 ^ vs.length + value 32768 ws := by
    rw [value_append, length]
    simp
    ring
  have number : value 32768 (vs ++ [v2, v1]) = (v1 * 32768 + v2) * 32768 ^ vs.length + value 32768 vs := by
    rw [value_append]
    simp
    ring
  have tail : 0 ≤ value 32768 ws ∧ value 32768 ws < 32768 ^ vs.length := ⟨tailDigits.nonneg, length ▸ tailDigits.lt (by decide)⟩
  have tail' : 0 ≤ value 32768 vs ∧ value 32768 vs < 32768 ^ vs.length := ⟨lowDigits.nonneg, lowDigits.lt (by decide)⟩
  have most : u1 ≤ v1 := by
    by_contra more
    have step : ((v1 + 1) * 32768) * 32768 * 32768 ^ vs.length ≤ ((u1 * 32768 + u2) * 32768 + u3) * 32768 ^ vs.length :=
      mul_le_mul_of_nonneg_right (by omega) power.le
    have room : (v1 * 32768 + v2 + 1) * 32768 ^ vs.length ≤ (v1 + 1) * 32768 * 32768 ^ vs.length :=
      mul_le_mul_of_nonneg_right (by omega) power.le
    linarith
  obtain ⟨q, trial, nonneg, small, fits, next⟩ := mTrq_eq ⟨upper, head.2⟩ lower ⟨first.1, most⟩ second third
  have ⟨above, under⟩ := trial_eq power tail ⟨upper, head.2⟩ lower (v := value 32768 (vs ++ [v2, v1]))
    ⟨by linarith, by linarith⟩ (by rw [← window]; exact below) nonneg small fits next
  rw [← window] at above under
  have arranged : ws ++ [u3, u2, u1] = (ws ++ [u3, u2]) ++ [u1] := by simp
  have size : (ws ++ [u3, u2]).length = (vs ++ [v2, v1]).length := by simp [length]
  rw [arranged] at above under cells
  obtain ⟨low, high, less, result, low', same, positive, within, total⟩ := mDsb_eq rest ⟨nonneg, small⟩ divisor cells size above under
  refine ⟨low, high, if less then q - 1 else q, positive, ?_, ?_, low', by simpa [length] using same, within, ?_⟩
  · split <;> omega
  · have count : (vs ++ [v2, v1]).length = ws.length + 2 := by simp [length]
    have one : (front ++ (ws ++ [u3, u2, u1] ++ rest))[front.length + (vs ++ [v2, v1]).length]? = some u1 := by
      rw [count]
      simp
    have two : (front ++ (ws ++ [u3, u2, u1] ++ rest))[front.length + (vs ++ [v2, v1]).length - 1]? = some u2 := by
      rw [show front.length + (vs ++ [v2, v1]).length - 1 = front.length + (ws.length + 1) by omega]
      simp
    have three : (front ++ (ws ++ [u3, u2, u1] ++ rest))[front.length + (vs ++ [v2, v1]).length - 2]? = some u3 := by
      rw [show front.length + (vs ++ [v2, v1]).length - 2 = front.length + ws.length by omega]
      simp
    have shape : ws ++ [u3, u2, u1] ++ rest = (ws ++ [u3, u2]) ++ u1 :: rest := by simp
    have known : short (if less then q - 1 else q) = some (if less then q - 1 else q) :=
      short_eq (by omega) (by split <;> omega)
    simp only [divLoop, bind_eq_bind, bind_some, one, two, three, trial]
    rw [List.drop_left, List.take_left, shape, result]
    simp [known]
  · rw [total, arranged]
    ring

/-- The loop of `m_div`, from the place behind `front` down. -/
theorem divLoop_eq (upper : 0 < v1) (divisor : Digits 32768 (vs ++ [v2, v1])) (front : List Int) :
    ∀ mid rest qval, mid.length = vs.length + 2 → Digits 32768 (front ++ mid) → Digits 32768 qval →
      value 32768 mid < value 32768 (vs ++ [v2, v1]) →
      ∃ mid' rest' q, divLoop (vs ++ [v2, v1]) v1 v2 front.length (front ++ (mid ++ rest)) qval = some (mid' ++ rest', q) ∧
        mid'.length = vs.length + 2 ∧ Digits 32768 mid' ∧ Digits 32768 q ∧ q.length = front.length + qval.length ∧
        value 32768 mid' < value 32768 (vs ++ [v2, v1]) ∧
        value 32768 mid' + value 32768 (vs ++ [v2, v1]) * value 32768 q =
          value 32768 front + 32768 ^ front.length * (value 32768 mid + value 32768 (vs ++ [v2, v1]) * value 32768 qval) := by
  induction front using List.reverseRecOn with
  | nil =>
    intro mid rest qval length digits digits' below
    exact ⟨mid, rest, qval, rfl, length, digits, digits', by simp, below, by simp⟩
  | append_singleton front cell ih =>
    intro mid rest qval length digits digits' below
    obtain ⟨frontDigits, middle⟩ := Digits.append_iff.mp digits
    obtain ⟨frontDigits, own⟩ := Digits.append_iff.mp frontDigits
    obtain ⟨own, -⟩ := Digits.cons_iff.mp own
    obtain ⟨ws, u3, u2, u1, form, short⟩ : ∃ ws u3 u2 u1, cell :: mid = ws ++ [u3, u2, u1] ∧ ws.length = vs.length := by
      have cut := List.take_append_drop vs.length (cell :: mid)
      have three : ((cell :: mid).drop vs.length).length = 3 := by
        rw [List.length_drop, length_cons, length]
        omega
      obtain ⟨u3, u2, u1, form⟩ := List.length_eq_three.mp three
      rw [form] at cut
      refine ⟨_, u3, u2, u1, cut.symm, ?_⟩
      rw [length_take, length_cons, length]
      omega
    have cells : Digits 32768 (cell :: mid) := Digits.cons_iff.mpr ⟨own, middle⟩
    have window : value 32768 (cell :: mid) < 32768 * value 32768 (vs ++ [v2, v1]) := by
      rw [value_cons]
      linarith
    have amount : value 32768 (cell :: mid) = cell + 32768 * value 32768 mid := value_cons
    rw [form] at cells window amount
    obtain ⟨low, high, q, nonneg, small, step, low', same, within, total⟩ := divStep front rest upper divisor cells short window
    obtain ⟨mid', rest', q', result, length', mid'', q'', count, final, sum⟩ := ih low (high :: rest) (q :: qval) same
      (Digits.append_iff.mpr ⟨frontDigits, low'⟩) (Digits.cons_iff.mpr ⟨⟨nonneg, small⟩, digits'⟩) within
    refine ⟨mid', rest', q', ?_, length', mid'', q'', ?_, final, ?_⟩
    · have shape : front ++ [cell] ++ (mid ++ rest) = front ++ (ws ++ [u3, u2, u1] ++ rest) := by
        rw [← form]
        simp
      rw [shape, length_append, length_singleton, step, result]
    · rw [count, length_append, length_singleton, length_cons]
      omega
    · have last : value 32768 (front ++ [cell]) = value 32768 front + 32768 ^ front.length * cell := by
        rw [value_append, value_cons, value_nil, mul_zero, add_zero]
      rw [sum, last, length_append, length_singleton, pow_succ, value_cons]
      linear_combination 32768 ^ front.length * (total + amount)

/-! ## `m_div` and `mdiv` -/

theorem Proper.length_eq {n : Nat} (proper : Proper ds) (low : 32768 ^ (n - 1) ≤ value 32768 ds) (high : value 32768 ds < 32768 ^ n)
    (positive : 0 < n) : ds.length = n := by
  have above := proper.lt
  have some' : ds ≠ [] := by
    rintro rfl
    have power : (0 : Int) < 32768 ^ (n - 1) := by positivity
    rw [value_nil] at low
    linarith
  have below := proper.le some'
  have count := List.length_pos_iff.mpr some'
  rcases lt_trichotomy ds.length n with less | same | more
  · have step : (32768 : Int) ^ ds.length ≤ 32768 ^ (n - 1) := pow_le_pow_right₀ (by decide) (by omega)
    linarith
  · exact same
  · have step : (32768 : Int) ^ n ≤ 32768 ^ (ds.length - 1) := pow_le_pow_right₀ (by decide) (by omega)
    linarith

/-- The product by one digit, with all the words that `m_mult` wrote. -/
theorem multOf_digit (proper : Proper ds) (some' : ds ≠ []) (own : 0 < d ∧ d < 32768) :
    ∃ c, multOf ⟨ds.length, ds⟩ ⟨1, [d]⟩ = some c ∧ Is c (value 32768 ds * d) ∧ c.val.length = ds.length + 1 ∧
      Digits 32768 c.val ∧ value 32768 c.val = value 32768 ds * d := by
  have one : Proper [d] := by
    refine ⟨Digits.cons_iff.mpr ⟨⟨own.1.le, own.2⟩, .nil⟩, fun e last => ?_⟩
    cases last
    exact own.1.ne'
  have count := List.length_pos_iff.mpr some'
  have left : Is ⟨ds.length, ds⟩ (value 32768 (ds.take ds.length)) := .of_nonneg le_rfl (by rwa [List.take_length])
  have right : Is ⟨(1 : Nat), [d]⟩ (value 32768 ([d].take 1)) := .of_nonneg le_rfl one
  have nonzero : ¬ ((ds.length : Int) = 0 ∨ (1 : Int) = 0) := by omega
  have plus : ¬ (ds.length : Int) < 0 := by omega
  have moved : move ⟨1, [d]⟩ = some ⟨1, [d]⟩ := move_eq [d]
  obtain ⟨c, result, is, length, digits, total⟩ := mult_words proper one some' (List.cons_ne_nil d [])
  change (if (ds.length : Int) < 1 then mMult ⟨ds.length, ds⟩ ⟨1, [d]⟩ else mMult ⟨1, [d]⟩ ⟨ds.length, ds⟩) = some c at result
  have number : value 32768 [d] = d := by simp
  rw [number] at is total
  refine ⟨c, ?_, is, length, digits, total⟩
  have left' : mcan ⟨ds.length, ds⟩ = some ⟨ds.length, ds⟩ := mcan_eq left
  have right' : mcan ⟨1, [d]⟩ = some ⟨1, [d]⟩ := mcan_eq right
  simp only [multOf, left', right', bind_eq_bind, bind_some, if_neg nonzero, move_eq, moved, if_neg plus,
    if_neg (show ¬ (1 : Int) < 0 by decide), result]
  simp [plus]

theorem unscale (rest : List Int) (positive : 0 < d) (small : d < 32768) (digits : Digits 32768 mid) (some' : 0 < mid.length) :
    ∃ x w r, mcan ⟨mid.length, mid ++ rest⟩ = some x ∧ sdiv x d = some (w, r) ∧ Is w (value 32768 mid / d) := by
  obtain ⟨same, proper⟩ := highest_eq digits
  have below := highest_le mid
  have front : (mid ++ rest).take (mid.take (highest mid)).length = mid.take (highest mid) := by
    rw [length_take, min_eq_left below, List.take_append_of_le_length below]
  obtain ⟨w, result, is⟩ := sdiv_eq positive small proper front (by rw [length_take, length_append]; omega)
  rw [same] at is
  refine ⟨⟨highest mid, mid ++ rest⟩, w, _, ?_, by rw [length_take, min_eq_left below] at result; exact result, is⟩
  have words : (⟨mid.length, mid ++ rest⟩ : Mint).words = some mid := by
    simp [Mint.words]
  have plus : ¬ (mid.length : Int) = 0 := by omega
  simp only [mcan, if_neg plus, words, bind_eq_bind, bind_some]
  rw [if_pos (by omega)]

theorem mDiv_long (proper : Proper ds) (proper' : Proper es) (two : 2 ≤ es.length) (length : es.length ≤ ds.length) :
    ∃ q r, mDiv ⟨ds.length, ds⟩ ⟨es.length, es⟩ = some (q, r) ∧ ∃ x y, Is q x ∧ Is r y ∧
      value 32768 ds = x * value 32768 es + y ∧ 0 ≤ y ∧ y < value 32768 es := by
  have some' : ds ≠ [] := by
    rintro rfl
    rw [List.length_nil] at length
    omega
  have some'' : es ≠ [] := by
    rintro rfl
    simp at two
  obtain ⟨top, atEnd⟩ := Option.ne_none_iff_exists'.mp (show es.getLast? ≠ none by simpa using some'')
  have nonzero := proper'.top top atEnd
  obtain ⟨es', form⟩ := List.getLast?_eq_some_iff.mp atEnd
  have parts := proper'.digits
  rw [form] at parts
  obtain ⟨lowDigits, own⟩ := Digits.append_iff.mp parts
  obtain ⟨own, -⟩ := Digits.cons_iff.mp own
  have count : es.length = es'.length + 1 := by rw [form, length_append, length_singleton]
  have lookup : es[es.length - 1]? = some top := by rw [← List.getLast?_eq_getElem?, atEnd]
  have scale : 0 < 32768 / (top + 1) ∧ 32768 / (top + 1) < 32768 ∧ 32768 / (top + 1) * (top + 1) ≤ 32768 := by
    have one : 1 ≤ 32768 / (top + 1) := (Int.le_ediv_iff_mul_le (by omega)).mpr (by omega)
    have less : 32768 / (top + 1) < 32768 := Int.ediv_lt_of_lt_mul (by omega) (by omega)
    exact ⟨one, less, Int.ediv_mul_le _ (by omega)⟩
  have known : short (32768 / (top + 1)) = some (32768 / (top + 1)) := short_eq (by omega) scale.2.1
  generalize quotient : 32768 / (top + 1) = d at scale known
  obtain ⟨positive, small, room⟩ := scale
  obtain ⟨u, scaled, -, uLength, uDigits, uTotal⟩ := multOf_digit proper some' ⟨positive, small⟩
  obtain ⟨v, scaled', vIs, -, -, -⟩ := multOf_digit proper' some'' ⟨positive, small⟩
  -- The scaled divisor has as many digits as the divisor.
  have bNonneg := proper'.digits.nonneg
  have bLow := proper'.le some''
  have bHigh : value 32768 es < (top + 1) * 32768 ^ es'.length := by
    have less := lowDigits.lt (by decide)
    rw [form, value_append, value_cons, value_nil]
    linarith
  have power : (0 : Int) < 32768 ^ es'.length := by positivity
  have vHigh : value 32768 es * d < 32768 ^ es.length := by
    have one := mul_lt_mul_of_pos_right bHigh positive
    have two := mul_le_mul_of_nonneg_right room power.le
    rw [count, pow_succ]
    linarith
  have vLow : 32768 ^ (es.length - 1) ≤ value 32768 es * d :=
    bLow.trans (le_mul_of_one_le_right bNonneg positive)
  obtain ⟨len, words, vProper, vNumber⟩ : ∃ len, v.words = some (v.val.take v.len.natAbs) ∧ Proper (v.val.take v.len.natAbs) ∧
      len = v.len.natAbs := ⟨_, if_pos vIs.within, vIs.proper, rfl⟩
  have vValue : value 32768 (v.val.take v.len.natAbs) = value 32768 es * d := by
    have number := vIs.number
    have plus := vIs.proper.digits.nonneg
    split at number
    · have more : 0 < value 32768 es * d := (show (0 : Int) < 32768 ^ (es.length - 1) by positivity).trans_le vLow
      linarith
    · exact number.symm
  generalize v.val.take v.len.natAbs = vval at words vProper vValue
  have vLength : vval.length = es.length := vProper.length_eq (by rw [vValue]; exact vLow) (by rw [vValue]; exact vHigh) (by omega)
  obtain ⟨vs, v2, v1, rfl⟩ : ∃ vs v2 v1, vval = vs ++ [v2, v1] := by
    have cut := List.take_append_drop (vval.length - 2) vval
    have pair : (vval.drop (vval.length - 2)).length = 2 := by
      rw [List.length_drop]
      omega
    obtain ⟨v2, v1, last⟩ := List.length_eq_two.mp pair
    rw [last] at cut
    exact ⟨_, v2, v1, cut.symm⟩
  have vCount : vs.length + 2 = es.length := by simpa using vLength
  have first : (vs ++ [v2, v1])[es.length - 1]? = some v1 := by
    rw [show es.length - 1 = vs.length + 1 by omega]
    simp
  have second : (vs ++ [v2, v1])[es.length - 2]? = some v2 := by
    rw [show es.length - 2 = vs.length by omega]
    simp
  have upper : 0 < v1 := by
    have nonneg := (Digits.append_iff.mp vProper.digits).2 v1 (by simp)
    have some'' := vProper.top v1 (by simp)
    omega
  -- The words of the scaled dividend, of which the upper ones are less than the divisor.
  have cut := List.take_append_drop (ds.length - es.length + 1) u.val
  have midLength : (u.val.drop (ds.length - es.length + 1)).length = vs.length + 2 := by
    rw [List.length_drop]
    omega
  have frontLength : (u.val.take (ds.length - es.length + 1)).length = ds.length - es.length + 1 := by
    rw [length_take]
    omega
  generalize u.val.take (ds.length - es.length + 1) = front at cut frontLength
  generalize u.val.drop (ds.length - es.length + 1) = mid at cut midLength
  rw [← cut] at uDigits uTotal
  have uParts : value 32768 front + 32768 ^ front.length * value 32768 mid = value 32768 ds * d := by
    rw [← uTotal, value_append]
  have aHigh := proper.lt
  have midBelow : value 32768 mid < value 32768 (vs ++ [v2, v1]) := by
    have nonneg := (Digits.append_iff.mp uDigits).1.nonneg
    have powers : (32768 : Int) ^ ds.length = 32768 ^ front.length * 32768 ^ (es.length - 1) := by
      rw [← pow_add]
      congr 1
      omega
    have enough : value 32768 ds < 32768 ^ front.length * value 32768 es :=
      aHigh.trans_le (powers ▸ mul_le_mul_of_nonneg_left bLow (by positivity))
    have times := mul_lt_mul_of_pos_right enough positive
    rw [vValue]
    have positive' : (0 : Int) < 32768 ^ front.length := by positivity
    refine lt_of_mul_lt_mul_left ?_ positive'.le
    linarith
  obtain ⟨mid', rest', q, result, midLength', mid'', q'', qLength, final, sum⟩ :=
    divLoop_eq upper vProper.digits front mid [] [] midLength uDigits .nil midBelow
  rw [List.append_nil, cut] at result
  rw [value_nil, mul_zero, add_zero, uParts, vValue] at sum
  rw [vValue] at final
  have scaledRest : value 32768 mid' = d * (value 32768 ds - value 32768 es * value 32768 q) := by linarith
  obtain ⟨x, w, r, trimmed, unscaled, wIs⟩ := unscale rest' positive small mid'' (by omega)
  rw [scaledRest, Int.mul_ediv_cancel_left _ positive.ne'] at wIs
  have restNonneg : 0 ≤ value 32768 ds - value 32768 es * value 32768 q := by
    have nonneg := mid''.nonneg
    rw [scaledRest] at nonneg
    exact nonneg_of_mul_nonneg_right nonneg positive
  have restBelow : value 32768 ds - value 32768 es * value 32768 q < value 32768 es := by
    rw [scaledRest, mul_comm] at final
    exact lt_of_mul_lt_mul_right final positive.le
  rw [List.length_nil, Nat.add_zero, frontLength] at qLength
  obtain ⟨qlen, dropped, qIs⟩ := dropZero_eq q'' (by rintro rfl; simp at qLength) fun more => by
    have aLow := proper.le some'
    by_contra less
    have next : value 32768 q + 1 ≤ 32768 ^ (q.length - 2) := by omega
    have bound := mul_le_mul_of_nonneg_left next bNonneg
    have larger : value 32768 es * 32768 ^ (q.length - 2) ≤ 32768 ^ es.length * 32768 ^ (q.length - 2) :=
      mul_le_mul_of_nonneg_right proper'.lt.le (by positivity)
    have powers : (32768 : Int) ^ es.length * 32768 ^ (q.length - 2) = 32768 ^ (ds.length - 1) := by
      rw [← pow_add]
      congr 1
      omega
    linarith
  have qSize : (q.length : Int) = (ds.length : Int) - es.length + 1 := by omega
  rw [qSize] at dropped
  have fits : xalloc ((ds.length : Int) - es.length + 1) q = some q := if_pos (by omega)
  have turns : ((ds.length : Int) - es.length + 1).toNat = front.length := by omega
  have size : (mid'.length : Int) = es.length := by omega
  rw [size] at trimmed
  refine ⟨⟨qlen, q⟩, w, ?_, _, _, qIs, wIs, by ring, restNonneg, restBelow⟩
  have zero : ¬ (es.length : Int) = 0 := by omega
  have one : ¬ (es.length : Int) = 1 := by omega
  have longer : ¬ (ds.length : Int) < es.length := by omega
  simp only [mDiv, words_eq, bind_eq_bind, bind_some, if_neg zero, if_neg one, if_neg longer, Int.toNat_natCast, lookup,
    quotient, known, scaled, scaled', words, first, second, turns, result, fits, trimmed, unscaled, dropped]

end

end Svr4.Mp
