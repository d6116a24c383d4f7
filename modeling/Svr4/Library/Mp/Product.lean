import Svr4.Library.Mp.Addition

/-! Products are exact, and comparing two numbers gives the sign of their difference. -/

namespace Svr4.Mp

open Positional

section
variable {a b c ds es : List Int} {m m' : Mint} {n n' x y : Int}

/-! ## Rows -/

theorem shift15_eq (x : Int) : shift15 x = x / 32768 := by
  unfold shift15
  split <;> omega

theorem low15_digit (x : Int) : 0 ≤ low15 x ∧ low15 x < 32768 := by
  unfold low15
  omega

theorem low15_shift (x : Int) : low15 x + 32768 * (x / 32768) = x := by
  unfold low15
  omega

theorem product_le (own : 0 ≤ x ∧ x < 32768) (other : 0 ≤ y ∧ y < 32768) : 0 ≤ x * y ∧ x * y ≤ 1073676289 := by
  refine ⟨mul_nonneg own.1 other.1, ?_⟩
  have most : x * y ≤ 32767 * 32767 := mul_le_mul (by omega) (by omega) other.1 (by decide)
  omega

theorem firstRow_eq {digit sum : Int} (own : 0 ≤ digit ∧ digit < 32768) (digits : Digits 32768 a) (range : 0 ≤ sum ∧ sum < 32768) :
    ∃ out, firstRow digit sum a = some out ∧ Digits 32768 out ∧ out.length = a.length + 1 ∧
      value 32768 out = sum + digit * value 32768 a := by
  induction a generalizing sum with
  | nil =>
    refine ⟨[sum], ?_, Digits.cons_iff.mpr ⟨range, .nil⟩, rfl, by simp⟩
    rw [firstRow, short_eq (by omega) range.2]
    rfl
  | cons x a ih =>
    obtain ⟨here, rest⟩ := Digits.cons_iff.mp digits
    have bounds := product_le here own
    have shift := shift15_eq (sum + x * digit)
    obtain ⟨out, result, more, length, total⟩ := ih rest (show 0 ≤ (sum + x * digit) / 32768 ∧ (sum + x * digit) / 32768 < 32768 by omega)
    refine ⟨low15 (sum + x * digit) :: out, ?_, Digits.cons_iff.mpr ⟨low15_digit _, more⟩, by simp [length], ?_⟩
    · simp [firstRow, long_eq (n := x * digit) (by omega) (by omega), long_eq (n := sum + x * digit) (by omega) (by omega), shift, result]
    · have split := low15_shift (sum + x * digit)
      rw [value_cons, value_cons, total]
      linear_combination split

theorem row_eq {digit sum : Int} (own : 0 ≤ digit ∧ digit < 32768) (digits : Digits 32768 a) (digits' : Digits 32768 c)
    (length : c.length = a.length) (range : 0 ≤ sum ∧ sum < 32768) :
    ∃ out, row digit sum a c = some out ∧ Digits 32768 out ∧ out.length = a.length + 1 ∧
      value 32768 out = sum + digit * value 32768 a + value 32768 c := by
  induction a generalizing sum c with
  | nil =>
    cases List.eq_nil_of_length_eq_zero length
    refine ⟨[sum], ?_, Digits.cons_iff.mpr ⟨range, .nil⟩, rfl, by simp⟩
    rw [row, short_eq (by omega) range.2]
    rfl
  | cons x a ih =>
    cases c with
    | nil => cases length
    | cons y c =>
      obtain ⟨here, rest⟩ := Digits.cons_iff.mp digits
      obtain ⟨here', rest'⟩ := Digits.cons_iff.mp digits'
      have bounds := product_le here own
      have shift := shift15_eq (sum + (x * digit + y))
      obtain ⟨out, result, more, same, total⟩ := ih rest rest' (Nat.succ.inj length)
        (show 0 ≤ (sum + (x * digit + y)) / 32768 ∧ (sum + (x * digit + y)) / 32768 < 32768 by omega)
      refine ⟨low15 (sum + (x * digit + y)) :: out, ?_, Digits.cons_iff.mpr ⟨low15_digit _, more⟩, by simp [same], ?_⟩
      · simp [row, long_eq (n := x * digit) (by omega) (by omega), long_eq (n := x * digit + y) (by omega) (by omega),
          long_eq (n := sum + (x * digit + y)) (by omega) (by omega), shift, result]
      · have split := low15_shift (sum + (x * digit + y))
        rw [value_cons, value_cons, value_cons, total]
        linear_combination split

/-- The rows add up to the product; `y` is the lowest word that is done. -/
theorem rows_eq (digits : Digits 32768 a) (digits' : Digits 32768 b) (cells : Digits 32768 (y :: c)) (length : c.length = a.length) :
    ∃ out, rows a b (y :: c) = some out ∧ Digits 32768 out ∧ out.length = a.length + 1 + b.length ∧
      value 32768 out = value 32768 (y :: c) + 32768 * (value 32768 a * value 32768 b) := by
  induction b generalizing y c with
  | nil => exact ⟨y :: c, rfl, cells, by simp [length], by simp⟩
  | cons digit b ih =>
    obtain ⟨own, rest⟩ := Digits.cons_iff.mp digits'
    obtain ⟨done, above⟩ := Digits.cons_iff.mp cells
    obtain ⟨next, result, more, same, total⟩ := row_eq own digits above length (show 0 ≤ (0 : Int) ∧ (0 : Int) < 32768 by decide)
    obtain ⟨z, next, rfl⟩ := List.exists_cons_of_length_eq_add_one same
    obtain ⟨out, result', more', same', total'⟩ := ih rest more (Nat.succ.inj same)
    refine ⟨y :: out, ?_, Digits.cons_iff.mpr ⟨done, more'⟩, by simp [same']; omega, ?_⟩
    · simp [rows, result, result']
    · rw [value_cons, total', total, value_cons, value_cons]
      ring

theorem dropZero_eq (digits : Digits 32768 ds) (some' : ds ≠ []) (large : 2 ≤ ds.length → 32768 ^ (ds.length - 2) ≤ value 32768 ds) :
    ∃ len, dropZero ds.length ds = some len ∧ Is ⟨len, ds⟩ (value 32768 ds) := by
  obtain ⟨last, atEnd⟩ := Option.ne_none_iff_exists'.mp (show ds.getLast? ≠ none by simpa using some')
  obtain ⟨front, rfl⟩ := List.getLast?_eq_some_iff.mp atEnd
  have place : (front ++ [last])[(((front ++ [last]).length : Int) - 1).toNat]? = some last := by
    simp
  have whole : (front ++ [last]).take (front.length + 1) = front ++ [last] := List.take_of_length_le (by simp)
  have without : (front ++ [last]).take front.length = front := List.take_left
  by_cases zero : last = 0
  · subst zero
    have same : value 32768 (front ++ [0]) = value 32768 front := by
      rw [value_append, value_cons, value_nil]
      ring
    refine ⟨front.length, ?_, ?_⟩
    · rw [dropZero, place]
      simp
    · have form : Is ⟨front.length, front ++ [0]⟩ (value 32768 ((front ++ [0]).take front.length)) := by
        refine .of_nonneg (by simp) ?_
        rw [without]
        refine .of_le (Digits.append_iff.mp digits).1 fun more => ?_
        have positive := List.length_pos_iff.mpr more
        have low := large (by rw [List.length_append, List.length_singleton]; omega)
        rw [same, List.length_append, List.length_singleton] at low
        exact low
      rwa [without, ← same] at form
  · refine ⟨(front.length + 1 : Nat), ?_, ?_⟩
    · rw [dropZero, place]
      simp [zero]
    · have form : Is ⟨(front.length + 1 : Nat), front ++ [last]⟩ (value 32768 ((front ++ [last]).take (front.length + 1))) := by
        refine .of_nonneg (by simp) ?_
        rw [whole]
        refine ⟨digits, fun d top => ?_⟩
        rw [List.getLast?_concat] at top
        cases top
        exact zero
      rwa [whole] at form

theorem mMult_eq (proper : Proper ds) (proper' : Proper es) (some' : ds ≠ []) (some'' : es ≠ []) :
    ∃ c, mMult ⟨ds.length, ds⟩ ⟨es.length, es⟩ = some c ∧ Is c (value 32768 ds * value 32768 es) ∧
      c.val.length = ds.length + es.length ∧ Digits 32768 c.val ∧ value 32768 c.val = value 32768 ds * value 32768 es := by
  obtain ⟨digit, es', rfl⟩ := List.exists_cons_of_ne_nil some''
  obtain ⟨own, rest⟩ := Digits.cons_iff.mp proper'.digits
  obtain ⟨first, result, more, same, total⟩ := firstRow_eq own proper.digits (show 0 ≤ (0 : Int) ∧ (0 : Int) < 32768 by decide)
  obtain ⟨y, first, rfl⟩ := List.exists_cons_of_length_eq_add_one same
  obtain ⟨out, result', more', same', total'⟩ := rows_eq proper.digits rest more (Nat.succ.inj same)
  have product : value 32768 out = value 32768 ds * value 32768 (digit :: es') := by
    rw [total', total, value_cons]
    ring
  have length : out.length = ds.length + (digit :: es').length := by
    rw [same', List.length_cons]
    omega
  have one := List.length_pos_iff.mpr some'
  obtain ⟨len, result'', is⟩ := dropZero_eq more' (by rintro rfl; simp at length) fun _ => by
    have low := mul_le_mul (proper.le some') (proper'.le some'') (by positivity) proper.digits.nonneg
    rw [← pow_add] at low
    rw [product, length]
    exact (pow_le_pow_right₀ (by decide) (by omega)).trans low
  refine ⟨⟨len, out⟩, ?_, product ▸ is, length, more', product⟩
  have fits : xalloc ((ds.length : Int) + ((digit :: es').length : Int)) out = some out := if_pos (by rw [length]; omega)
  have length' : ((out.length : Nat) : Int) = (ds.length : Int) + ((digit :: es').length : Int) := by
    rw [length]
    omega
  rw [length'] at result''
  rw [mMult, words_eq, words_eq]
  simp only [Option.bind_eq_bind, Option.bind_some, result, result', fits, result'']

/-! ## `mult` and `mcmp` -/

theorem highest_proper (proper : Proper ds) : highest ds = ds.length := by
  obtain ⟨same, form⟩ := highest_eq proper.digits
  have below := highest_le ds
  by_contra short
  have some' : ds ≠ [] := by
    rintro rfl
    exact short rfl
  have low := proper.le some'
  have high := form.lt
  rw [same, List.length_take, min_eq_left below] at high
  have more : (32768 : Int) ^ highest ds ≤ 32768 ^ (ds.length - 1) := pow_le_pow_right₀ (by decide) (by omega)
  linarith

/-- `_mp_mcan` leaves a canonical number as it is. -/
theorem mcan_eq (is : Is m n) : mcan m = some m := by
  unfold mcan
  split
  · rfl
  · rename_i zero
    have words : m.words = some (m.val.take m.len.natAbs) := if_pos is.within
    have top := highest_proper is.proper
    rw [List.length_take, min_eq_left is.within] at top
    simp only [Option.bind_eq_bind, words, Option.bind_some, top]
    have len : (if 0 < m.len then (m.len.natAbs : Int) else -(m.len.natAbs : Int)) = m.len := by
      split <;> omega
    rw [len]

theorem Is.zero {val : List Int} : Is ⟨0, val⟩ 0 := ⟨Nat.zero_le _, .nil, rfl⟩

theorem Is.digit {d : Int} (own : 0 < d ∧ d < 32768) : Is ⟨1, [d]⟩ d := by
  refine ⟨le_rfl, ⟨Digits.cons_iff.mpr ⟨⟨own.1.le, own.2⟩, .nil⟩, fun e last => ?_⟩, by simp⟩
  cases last
  exact own.1.ne'

theorem Is.of_len (is : Is m n) (none : m.len = 0) : n = 0 := by
  have number := is.number
  rw [none] at number
  simpa using number

theorem mult_words (proper : Proper ds) (proper' : Proper es) (some' : ds ≠ []) (some'' : es ≠ []) :
    ∃ c, (if (ds.length : Int) < es.length then mMult ⟨ds.length, ds⟩ ⟨es.length, es⟩ else mMult ⟨es.length, es⟩ ⟨ds.length, ds⟩) = some c ∧
      Is c (value 32768 ds * value 32768 es) ∧ c.val.length = ds.length + es.length ∧ Digits 32768 c.val ∧
      value 32768 c.val = value 32768 ds * value 32768 es := by
  split
  · exact mMult_eq proper proper' some' some''
  · rw [mul_comm, add_comm]
    exact mMult_eq proper' proper some'' some'

theorem Is.absolute (is : Is m n) : ∃ ds x, move m = some x ∧ (if m.len < 0 then x.neg else x) = ⟨ds.length, ds⟩ ∧ Proper ds ∧
    (ds = [] → m.len = 0) ∧ n = if m.len < 0 then -value 32768 ds else value 32768 ds := by
  obtain ⟨ds, proper, ⟨moved, len, rfl⟩ | ⟨moved, len, below, rfl⟩⟩ := is.cases
  · have above : ¬ m.len < 0 := by omega
    refine ⟨ds, _, moved, if_neg above, proper, ?_, (if_neg above).symm⟩
    rintro rfl
    exact len
  · refine ⟨ds, _, moved, (if_pos below).trans (neg_form ds), proper, ?_, (if_pos below).symm⟩
    rintro rfl
    exact len

theorem multOf_eq (is : Is m n) (is' : Is m' n') : ∃ c, multOf m m' = some c ∧ Is c (n * n') := by
  rw [multOf, mcan_eq is, mcan_eq is']
  simp only [Option.bind_eq_bind, Option.bind_some]
  by_cases zero : m.len = 0 ∨ m'.len = 0
  · rw [if_pos zero]
    refine ⟨⟨0, []⟩, rfl, ?_⟩
    have product : n * n' = 0 := by
      rcases zero with zero | zero
      · rw [is.of_len zero, zero_mul]
      · rw [is'.of_len zero, mul_zero]
    rw [product]
    exact .zero
  rw [if_neg zero]
  have ⟨left, right⟩ := not_or.mp zero
  obtain ⟨ds, x, moved, plain, proper, empty, number⟩ := is.absolute
  obtain ⟨es, y, moved', plain', proper', empty', number'⟩ := is'.absolute
  obtain ⟨c, result, product, -⟩ := mult_words proper proper' (fun none => left (empty none)) fun none => right (empty' none)
  simp only [moved, moved', Option.bind_some, plain, plain', result]
  by_cases below : m.len < 0
  all_goals by_cases below' : m'.len < 0
  all_goals simp only [below, below', if_true, if_false] at number number' ⊢
  · exact ⟨c, rfl, by rw [number, number', neg_mul_neg]; exact product⟩
  · exact ⟨c.neg, by simp, by rw [number, number', neg_mul]; exact product.neg⟩
  · exact ⟨c.neg, by simp, by rw [number, number', mul_neg]; exact product.neg⟩
  · exact ⟨c, rfl, by rw [number, number']; exact product⟩

end

end Svr4.Mp
