import Svr4.Library.Mp

/-! Sums and differences are exact, whatever the signs of the operands. -/

namespace Svr4.Mp

open Positional
open List (length_cons take_zero)
open Option (bind_eq_bind bind_some)

/-- The digits of a number, with no zero on top. -/
structure Proper (ds : List Int) : Prop where
  digits : Digits 32768 ds
  top : ∀ d, ds.getLast? = some d → d ≠ 0

/-- `m` is the canonical form of the integer `n`. -/
structure Is (m : Mint) (n : Int) : Prop where
  within : m.len.natAbs ≤ m.val.length
  proper : Proper (m.val.take m.len.natAbs)
  number : n = if m.len < 0 then -value 32768 (m.val.take m.len.natAbs) else value 32768 (m.val.take m.len.natAbs)

section
variable {a b c ds es : List Int} {m : Mint} {n x : Int} {carry n' : Int} {m' : Mint}

theorem long_eq (low : -2147483648 ≤ n) (high : n < 2147483648) : long n = some n := if_pos ⟨low, high⟩

theorem short_eq (low : -32768 ≤ n) (high : n < 32768) : short n = some n := if_pos ⟨low, high⟩

/-! ## Forms of a number -/

theorem Proper.nil : Proper [] := ⟨.nil, fun _ absent => by cases absent⟩

theorem Proper.of_le (digits : Digits 32768 ds) (large : ds ≠ [] → 32768 ^ (ds.length - 1) ≤ value 32768 ds) : Proper ds := by
  refine ⟨digits, fun d last zero => ?_⟩
  obtain ⟨front, rfl⟩ := List.getLast?_eq_some_iff.mp last
  have low := large (by simp)
  have high := (Digits.append_iff.mp digits).1.lt (by decide)
  rw [value_append, value_cons, value_nil, zero, List.length_append, List.length_singleton, Nat.add_sub_cancel] at low
  linarith

theorem Proper.le (proper : Proper ds) (some' : ds ≠ []) : 32768 ^ (ds.length - 1) ≤ value 32768 ds := by
  obtain ⟨last, atEnd⟩ := Option.ne_none_iff_exists'.mp (show ds.getLast? ≠ none by simpa using some')
  have top := proper.top last atEnd
  obtain ⟨front, rfl⟩ := List.getLast?_eq_some_iff.mp atEnd
  rw [List.length_append, List.length_singleton, Nat.add_sub_cancel]
  exact proper.digits.le (by decide) top

theorem Proper.lt (proper : Proper ds) : value 32768 ds < 32768 ^ ds.length := proper.digits.lt (by decide)

/-- What `_mp_move` gives. -/
theorem Is.moved (is : Is m n) : ∃ ds, move m = some ⟨m.len, ds⟩ ∧ ds.length = m.len.natAbs ∧ Proper ds ∧
    n = if m.len < 0 then -value 32768 ds else value 32768 ds := by
  refine ⟨m.val.take m.len.natAbs, ?_, by rw [List.length_take, min_eq_left is.within], is.proper, is.number⟩
  simp [move, Mint.words, is.within, xalloc]

theorem words_eq (ds : List Int) : (⟨ds.length, ds⟩ : Mint).words = some ds := by
  simp [Mint.words]

theorem move_eq (ds : List Int) : move ⟨ds.length, ds⟩ = some ⟨ds.length, ds⟩ := by
  simp [move, words_eq, xalloc]

theorem Is.of_nonneg {len : Nat} {val : List Int} (within : len ≤ val.length) (proper : Proper (val.take len)) :
    Is ⟨len, val⟩ (value 32768 (val.take len)) := by
  refine ⟨within, proper, ?_⟩
  rw [if_neg (by dsimp only; omega)]
  rfl

theorem Is.neg (is : Is m n) : Is m.neg (-n) := by
  have same : m.neg.len.natAbs = m.len.natAbs := Int.natAbs_neg _
  refine ⟨same.trans_le is.within, ?_, ?_⟩
  · rw [same]
    exact is.proper
  · rw [same, is.number]
    change _ = if -m.len < 0 then _ else _
    rcases lt_trichotomy m.len 0 with below | zero | above
    · rw [if_pos below, if_neg (by omega), neg_neg]
      rfl
    · rw [zero]
      rfl
    · rw [if_neg (by omega), if_pos (by omega)]
      rfl

/-! ## The loops -/

theorem carryOn_eq (digits : Digits 32768 a) (range : -1 ≤ carry ∧ carry ≤ 1) :
    ∃ last ds, carryOn carry a = some (last, ds) ∧ Digits 32768 ds ∧ ds.length = a.length ∧ (last = 0 ∨ last = carry) ∧
      value 32768 ds + 32768 ^ a.length * last = carry + value 32768 a := by
  induction a generalizing carry with
  | nil => exact ⟨carry, [], rfl, .nil, rfl, .inr rfl, by simp⟩
  | cons x a ih =>
    obtain ⟨own, rest⟩ := Digits.cons_iff.mp digits
    have sum := long_eq (n := carry + x) (by omega) (by omega)
    by_cases exceeds : bit15 (carry + x) = true
    · have edge : low15 (carry + x) = carry + x - 32768 * carry ∧ 0 ≤ low15 (carry + x) ∧ low15 (carry + x) < 32768 := by
        have bit := of_decide_eq_true exceeds
        unfold low15
        omega
      obtain ⟨last, ds, result, digits', length, ends, total⟩ := ih rest range
      refine ⟨last, low15 (carry + x) :: ds, ?_, Digits.cons_iff.mpr ⟨edge.2, digits'⟩, by simp [length], ends, ?_⟩
      · simp [carryOn, sum, exceeds, short_eq (by omega) edge.2.2, result]
      · rw [value_cons, value_cons, length_cons, pow_succ, edge.1]
        linear_combination 32768 * total
    · have edge : 0 ≤ carry + x ∧ carry + x < 32768 := by
        have bit := of_decide_eq_false (Bool.not_eq_true _ ▸ exceeds)
        omega
      obtain ⟨last, ds, result, digits', length, ends, total⟩ := ih rest (show -1 ≤ (0 : Int) ∧ (0 : Int) ≤ 1 by omega)
      refine ⟨last, (carry + x) :: ds, ?_, Digits.cons_iff.mpr ⟨edge, digits'⟩, by simp [length], .inl (ends.elim id id), ?_⟩
      · simp [carryOn, sum, exceeds, short_eq (by omega) edge.2, result]
      · rw [value_cons, value_cons, length_cons, pow_succ]
        linear_combination 32768 * total

theorem addDigits_eq (digits : Digits 32768 a) (digits' : Digits 32768 b) (length : b.length ≤ a.length)
    (range : carry = 0 ∨ carry = 1) :
    ∃ last ds, addDigits carry a b = some (last, ds) ∧ Digits 32768 ds ∧ ds.length = a.length ∧ (last = 0 ∨ last = 1) ∧
      value 32768 ds + 32768 ^ a.length * last = carry + value 32768 a + value 32768 b := by
  induction b generalizing a carry with
  | nil =>
    obtain ⟨last, ds, result, more, same, ends, total⟩ := carryOn_eq digits (show -1 ≤ carry ∧ carry ≤ 1 by omega)
    exact ⟨last, ds, by rw [addDigits]; exact result, more, same, by omega, by simpa using total⟩
  | cons y b ih =>
    cases a with
    | nil => cases length
    | cons x a =>
      obtain ⟨own, rest⟩ := Digits.cons_iff.mp digits
      obtain ⟨own', rest'⟩ := Digits.cons_iff.mp digits'
      have sum := long_eq (n := carry + x + y) (by omega) (by omega)
      by_cases exceeds : bit15 (carry + x + y) = true
      · have edge : low15 (carry + x + y) = carry + x + y - 32768 ∧ 0 ≤ low15 (carry + x + y) ∧ low15 (carry + x + y) < 32768 := by
          have bit := of_decide_eq_true exceeds
          unfold low15
          omega
        obtain ⟨last, ds, result, more, same, ends, total⟩ := ih rest rest' (Nat.le_of_succ_le_succ length) (.inr rfl)
        refine ⟨last, low15 (carry + x + y) :: ds, ?_, Digits.cons_iff.mpr ⟨edge.2, more⟩, by simp [same], ends, ?_⟩
        · simp [addDigits, sum, exceeds, short_eq (by omega) edge.2.2, result]
        · rw [value_cons, value_cons, value_cons, length_cons, pow_succ, edge.1]
          linear_combination 32768 * total
      · have edge : 0 ≤ carry + x + y ∧ carry + x + y < 32768 := by
          have bit := of_decide_eq_false (Bool.not_eq_true _ ▸ exceeds)
          omega
        obtain ⟨last, ds, result, more, same, ends, total⟩ := ih rest rest' (Nat.le_of_succ_le_succ length) (.inl rfl)
        refine ⟨last, (carry + x + y) :: ds, ?_, Digits.cons_iff.mpr ⟨edge, more⟩, by simp [same], ends, ?_⟩
        · simp [addDigits, sum, exceeds, short_eq (by omega) edge.2, result]
        · rw [value_cons, value_cons, value_cons, length_cons, pow_succ]
          linear_combination 32768 * total

theorem subDigits_eq {borrow : Int} (digits : Digits 32768 a) (digits' : Digits 32768 b) (length : b.length ≤ a.length)
    (range : borrow = 0 ∨ borrow = -1) :
    ∃ last ds, subDigits borrow a b = some (last, ds) ∧ Digits 32768 ds ∧ ds.length = a.length ∧ (last = 0 ∨ last = -1) ∧
      value 32768 ds + 32768 ^ a.length * last = borrow + value 32768 a - value 32768 b := by
  induction b generalizing a borrow with
  | nil =>
    obtain ⟨last, ds, result, more, same, ends, total⟩ := carryOn_eq digits (show -1 ≤ borrow ∧ borrow ≤ 1 by omega)
    exact ⟨last, ds, by rw [subDigits]; exact result, more, same, by omega, by simpa using total⟩
  | cons y b ih =>
    cases a with
    | nil => cases length
    | cons x a =>
      obtain ⟨own, rest⟩ := Digits.cons_iff.mp digits
      obtain ⟨own', rest'⟩ := Digits.cons_iff.mp digits'
      have sum := long_eq (n := borrow + x - y) (by omega) (by omega)
      by_cases exceeds : bit15 (borrow + x - y) = true
      · have edge : low15 (borrow + x - y) = borrow + x - y + 32768 ∧ 0 ≤ low15 (borrow + x - y) ∧ low15 (borrow + x - y) < 32768 := by
          have bit := of_decide_eq_true exceeds
          unfold low15
          omega
        obtain ⟨last, ds, result, more, same, ends, total⟩ := ih rest rest' (Nat.le_of_succ_le_succ length) (.inr rfl)
        refine ⟨last, low15 (borrow + x - y) :: ds, ?_, Digits.cons_iff.mpr ⟨edge.2, more⟩, by simp [same], ends, ?_⟩
        · simp [subDigits, sum, exceeds, short_eq (by omega) edge.2.2, result]
        · rw [value_cons, value_cons, value_cons, length_cons, pow_succ, edge.1]
          linear_combination 32768 * total
      · have edge : 0 ≤ borrow + x - y ∧ borrow + x - y < 32768 := by
          have bit := of_decide_eq_false (Bool.not_eq_true _ ▸ exceeds)
          omega
        obtain ⟨last, ds, result, more, same, ends, total⟩ := ih rest rest' (Nat.le_of_succ_le_succ length) (.inl rfl)
        refine ⟨last, (borrow + x - y) :: ds, ?_, Digits.cons_iff.mpr ⟨edge, more⟩, by simp [same], ends, ?_⟩
        · simp [subDigits, sum, exceeds, short_eq (by omega) edge.2, result]
        · rw [value_cons, value_cons, value_cons, length_cons, pow_succ]
          linear_combination 32768 * total

/-! ## `m_add` and `m_sub` -/

/-- The words that `m_add` writes, of which one more may be there than the longer operand has. -/
theorem mAdd_words (digits : Digits 32768 ds) (digits' : Digits 32768 es) (length : es.length ≤ ds.length) :
    ∃ last out, mAdd ⟨ds.length, ds⟩ ⟨es.length, es⟩ = some ⟨if last = 1 then ds.length + 1 else ds.length,
        if last = 1 then out ++ [1] else out⟩ ∧ Digits 32768 out ∧ out.length = ds.length ∧ (last = 0 ∨ last = (1 : Int)) ∧
      value 32768 out + 32768 ^ ds.length * last = value 32768 ds + value 32768 es := by
  obtain ⟨last, out, result, more, same, ends, total⟩ := addDigits_eq digits digits' length (.inl rfl)
  refine ⟨last, out, ?_, more, same, ends, by rw [total, zero_add]⟩
  have fits : xalloc ((ds.length : Int) + 1) (if last = 1 then out ++ [1] else out) = some (if last = 1 then out ++ [1] else out) := by
    refine if_pos ?_
    split
    · rw [List.length_append, List.length_singleton, same]
      omega
    · rw [same]
      omega
  simp [mAdd, words_eq, result, fits]

theorem mAdd_eq (proper : Proper ds) (proper' : Proper es) (length : es.length ≤ ds.length) :
    ∃ c, mAdd ⟨ds.length, ds⟩ ⟨es.length, es⟩ = some c ∧ Is c (value 32768 ds + value 32768 es) := by
  obtain ⟨last, out, result, digits, same, ends, total⟩ := mAdd_words proper.digits proper'.digits length
  refine ⟨_, result, ?_⟩
  have positive := proper'.digits.nonneg
  rcases ends with rfl | rfl
  · rw [if_neg (by decide), if_neg (by decide)]
    have whole : out.take ds.length = out := List.take_of_length_le same.le
    have form : Is ⟨ds.length, out⟩ (value 32768 (out.take ds.length)) := by
      refine .of_nonneg same.ge ?_
      rw [whole]
      refine .of_le digits fun some' => ?_
      have large := proper.le (by rintro rfl; exact some' (List.eq_nil_of_length_eq_zero same))
      rw [same]
      linarith
    rwa [whole, show value 32768 out = value 32768 ds + value 32768 es by linarith] at form
  · rw [if_pos rfl, if_pos rfl]
    have whole : (out ++ [1]).take (ds.length + 1) = out ++ [1] := List.take_of_length_le (by simp [same])
    have form : Is ⟨(ds.length + 1 : Nat), out ++ [1]⟩ (value 32768 ((out ++ [1]).take (ds.length + 1))) := by
      refine .of_nonneg (by simp [same]) ?_
      rw [whole]
      refine ⟨Digits.append_iff.mpr ⟨digits, Digits.cons_iff.mpr ⟨by decide, .nil⟩⟩, fun d last => ?_⟩
      rw [List.getLast?_concat] at last
      cases last
      decide
    have sum : value 32768 (out ++ [1]) = value 32768 ds + value 32768 es := by
      rw [value_append, value_cons, value_nil, same]
      linarith
    rwa [whole, sum] at form

theorem highest_le (ds : List Int) : highest ds ≤ ds.length := by
  induction ds with
  | nil => exact le_rfl
  | cons d ds ih =>
    rw [highest, length_cons]
    split
    · omega
    · split <;> omega

theorem highest_eq (digits : Digits 32768 ds) :
    value 32768 (ds.take (highest ds)) = value 32768 ds ∧ Proper (ds.take (highest ds)) := by
  suffices both : value 32768 (ds.take (highest ds)) = value 32768 ds ∧ ∀ d, (ds.take (highest ds)).getLast? = some d → d ≠ 0 from
    ⟨both.1, digits.take, both.2⟩
  induction ds with
  | nil => exact ⟨rfl, fun _ absent => by cases absent⟩
  | cons d ds ih =>
    obtain ⟨same, top⟩ := ih (Digits.cons_iff.mp digits).2
    rw [highest]
    by_cases more : highest ds ≠ 0
    · rw [if_pos more, List.take_succ_cons, value_cons, value_cons, same]
      refine ⟨rfl, fun e last => top e ?_⟩
      have length := highest_le ds
      have some' : ds.take (highest ds) ≠ [] := by
        intro none
        have none := congrArg List.length none
        rw [List.length_take, List.length_nil] at none
        omega
      obtain ⟨f, rest, form⟩ := List.exists_cons_of_ne_nil some'
      rw [form] at last ⊢
      rwa [List.getLast?_cons_cons] at last
    · rw [if_neg more]
      rw [not_not.mp more, take_zero, value_nil] at same
      by_cases one : d ≠ 0
      · rw [if_pos one, List.take_succ_cons, take_zero, value_cons, value_cons, ← same]
        refine ⟨rfl, fun e last => ?_⟩
        cases last
        exact one
      · rw [if_neg one, take_zero, value_nil, value_cons, ← same, not_not.mp one]
        exact ⟨rfl, fun e absent => by cases absent⟩

theorem highest_zero (digits : Digits 32768 ds) (none : highest ds = 0) : value 32768 ds = 0 := by
  have same := (highest_eq digits).1
  rw [none, take_zero] at same
  exact same.symm

theorem turned_eq (digits : Digits 32768 ds) : Digits 32768 (ds.map (32767 - ·)) ∧
    value 32768 (ds.map (32767 - ·)) = 32768 ^ ds.length - 1 - value 32768 ds := by
  induction ds with
  | nil => exact ⟨.nil, rfl⟩
  | cons d ds ih =>
    obtain ⟨own, rest⟩ := Digits.cons_iff.mp digits
    obtain ⟨more, total⟩ := ih rest
    refine ⟨Digits.cons_iff.mpr ⟨show 0 ≤ 32767 - d ∧ 32767 - d < 32768 by omega, more⟩, ?_⟩
    rw [List.map_cons, value_cons, value_cons, total, length_cons, pow_succ]
    ring

theorem mSub_eq {add : Mint → Mint → Option Mint} (proper : Proper ds) (proper' : Proper es) (length : es.length ≤ ds.length)
    (adds : ∀ cs : List Int, cs ≠ [] → add ⟨cs.length, cs⟩ ⟨1, [1]⟩ = mAdd ⟨cs.length, cs⟩ ⟨1, [1]⟩) :
    ∃ c, mSub add ⟨ds.length, ds⟩ ⟨es.length, es⟩ = some c ∧ Is c (value 32768 ds - value 32768 es) := by
  obtain ⟨last, out, result, digits, same, ends, total⟩ := subDigits_eq proper.digits proper'.digits length (.inl rfl)
  have fits : xalloc (ds.length : Int) out = some out := if_pos (by omega)
  rcases ends with rfl | rfl
  · have whole : out.take ds.length = out := List.take_of_length_le same.le
    obtain ⟨kept, form⟩ := highest_eq digits
    have within := highest_le out
    have trimmed : Is ⟨highest out, out⟩ (value 32768 (out.take (highest out))) := .of_nonneg within form
    have difference : value 32768 (out.take (highest out)) = value 32768 ds - value 32768 es := by linarith
    rw [difference] at trimmed
    refine ⟨⟨highest out, out⟩, ?_, trimmed⟩
    simp [mSub, words_eq, result, fits, same, whole]
    rintro none
    rw [none]
    rfl
  · have positive := proper.digits.nonneg
    have below : value 32768 es < 32768 ^ ds.length :=
      proper'.lt.trans_le (pow_le_pow_right₀ (by decide) length)
    have nonneg := digits.nonneg
    have some' : out.map (32767 - ·) ≠ [] := by
      intro none
      cases List.map_eq_nil_iff.mp none
      cases List.eq_nil_of_length_eq_zero same.symm
      cases List.eq_nil_of_length_eq_zero (Nat.le_zero.mp length)
      simp at total
    obtain ⟨digits₁, turned⟩ := turned_eq digits
    have one : Digits 32768 [1] := Digits.cons_iff.mpr ⟨by decide, .nil⟩
    have long' : ([1] : List Int).length ≤ (out.map (32767 - ·)).length := List.length_pos_iff.mpr some'
    obtain ⟨carry, out', result', digits', same', ends', total'⟩ := mAdd_words digits₁ one long'
    have length₁ : (out.map (32767 - ·)).length = ds.length := by rw [List.length_map, same]
    rw [length₁] at same' total'
    rw [turned, same, value_cons, value_nil] at total'
    have bound := digits'.nonneg
    have small : carry = 0 := by
      rcases ends' with zero | rfl
      · exact zero
      · exfalso
        linarith
    subst small
    have whole : out'.take ds.length = out' := List.take_of_length_le same'.le
    have difference : value 32768 out' = value 32768 es - value 32768 ds := by linarith
    obtain ⟨kept, form⟩ := highest_eq digits'
    have within := highest_le out'
    have trimmed : Is ⟨highest out', out'⟩ (value 32768 (out'.take (highest out'))) := .of_nonneg within form
    rw [kept, difference] at trimmed
    have top : highest out' ≠ 0 := by
      intro none
      have zero := highest_zero digits' none
      have high := digits.lt (by decide)
      rw [same] at high
      linarith
    have negated := trimmed.neg
    rw [neg_sub] at negated
    refine ⟨⟨-(highest out' : Int), out'⟩, ?_, negated⟩
    have added := (adds _ some').trans result'
    rw [length₁, if_neg (by decide), if_neg (by decide)] at added
    simp [mSub, words_eq, result, fits, added, same', whole, top]

/-! ## `madd` and `msub` -/

theorem madd_plain (depth : Nat) (ds es : List Int) : maddOf (depth + 1) ⟨ds.length, ds⟩ ⟨es.length, es⟩ =
    if es.length ≤ ds.length then mAdd ⟨ds.length, ds⟩ ⟨es.length, es⟩ else mAdd ⟨es.length, es⟩ ⟨ds.length, ds⟩ := by
  simp [maddOf, move_eq]

theorem madd_proper (depth : Nat) (proper : Proper ds) (proper' : Proper es) :
    ∃ c, maddOf (depth + 1) ⟨ds.length, ds⟩ ⟨es.length, es⟩ = some c ∧ Is c (value 32768 ds + value 32768 es) := by
  rw [madd_plain]
  rcases le_or_gt es.length ds.length with length | length
  · rw [if_pos length]
    exact mAdd_eq proper proper' length
  · rw [if_neg (Nat.not_le_of_lt length), add_comm]
    exact mAdd_eq proper' proper length.le

theorem msub_longer (depth : Nat) (proper : Proper ds) (proper' : Proper es) (length : es.length ≤ ds.length) :
    ∃ c, msubOf (depth + 2) ⟨ds.length, ds⟩ ⟨es.length, es⟩ = some c ∧ Is c (value 32768 ds - value 32768 es) := by
  have adds (cs : List Int) (some' : cs ≠ []) : maddOf (depth + 1) ⟨cs.length, cs⟩ ⟨1, [1]⟩ = mAdd ⟨cs.length, cs⟩ ⟨1, [1]⟩ := by
    have one := madd_plain depth cs [1]
    rw [if_pos (show ([1] : List Int).length ≤ cs.length from List.length_pos_iff.mpr some')] at one
    exact one
  obtain ⟨c, result, is⟩ := mSub_eq proper proper' length adds
  refine ⟨c, ?_, is⟩
  rw [msubOf, move_eq, move_eq]
  simp only [bind_eq_bind, bind_some]
  rw [if_pos (Int.natCast_nonneg _), if_pos (Int.natCast_nonneg _), if_pos (by omega)]
  exact result

theorem msub_proper (depth : Nat) (proper : Proper ds) (proper' : Proper es) :
    ∃ c, msubOf (depth + 3) ⟨ds.length, ds⟩ ⟨es.length, es⟩ = some c ∧ Is c (value 32768 ds - value 32768 es) := by
  rcases le_or_gt es.length ds.length with length | length
  · exact msub_longer (depth + 1) proper proper' length
  · obtain ⟨c, result, is⟩ := msub_longer depth proper' proper length.le
    refine ⟨c.neg, ?_, ?_⟩
    · rw [msubOf, move_eq, move_eq]
      simp only [bind_eq_bind, bind_some]
      rw [if_pos (Int.natCast_nonneg _), if_pos (Int.natCast_nonneg _), if_neg (by omega), result, Option.map_some]
    · have negated := is.neg
      rwa [neg_sub] at negated

theorem Is.cases (is : Is m n) : ∃ ds, Proper ds ∧ ((move m = some ⟨ds.length, ds⟩ ∧ m.len = ds.length ∧ n = value 32768 ds) ∨
    (move m = some ⟨-ds.length, ds⟩ ∧ m.len = -ds.length ∧ m.len < 0 ∧ n = -value 32768 ds)) := by
  obtain ⟨ds, moved, length, proper, number⟩ := is.moved
  refine ⟨ds, proper, ?_⟩
  rcases lt_or_ge m.len 0 with below | above
  · have len : m.len = -ds.length := by omega
    rw [if_pos below] at number
    exact .inr ⟨len ▸ moved, len, below, number⟩
  · have len : m.len = ds.length := by omega
    rw [if_neg (by omega)] at number
    exact .inl ⟨len ▸ moved, len, number⟩

theorem neg_form (ds : List Int) : (⟨-ds.length, ds⟩ : Mint).neg = ⟨ds.length, ds⟩ := by
  simp [Mint.neg]

theorem madd_eq (is : Is m n) (is' : Is m' n') : ∃ c, maddOf 4 m m' = some c ∧ Is c (n + n') := by
  obtain ⟨ds, proper, ⟨moved, len, rfl⟩ | ⟨moved, len, below, rfl⟩⟩ := is.cases
  all_goals obtain ⟨es, proper', ⟨moved', len', rfl⟩ | ⟨moved', len', below', rfl⟩⟩ := is'.cases
  all_goals rw [maddOf, moved, moved']; simp only [bind_eq_bind, bind_some]
  · have both := madd_proper 3 proper proper'
    rw [maddOf, move_eq, move_eq] at both
    exact both
  · rw [if_pos (Int.natCast_nonneg _), if_neg (by omega), neg_form]
    exact msub_proper 0 proper proper'
  · rw [if_neg (by omega)]
    by_cases zero : (es.length : Int) ≤ 0
    · cases List.eq_nil_of_length_eq_zero (by omega : es.length = 0)
      obtain ⟨c, result, sum⟩ := madd_proper 2 proper .nil
      rw [if_pos zero, neg_form]
      refine ⟨c.neg, ?_, ?_⟩
      · rw [show (⟨(([] : List Int).length : Int), []⟩ : Mint).neg = ⟨(([] : List Int).length : Int), []⟩ from rfl, result]
        rfl
      · have negated := sum.neg
        rwa [neg_add] at negated
    · rw [if_neg zero, neg_form, neg_add_eq_sub]
      exact msub_proper 0 proper' proper
  · obtain ⟨c, result, sum⟩ := madd_proper 2 proper proper'
    rw [if_neg (by omega), if_pos (by omega), neg_form, neg_form, result]
    refine ⟨c.neg, rfl, ?_⟩
    have negated := sum.neg
    rwa [neg_add] at negated

theorem msub_eq (is : Is m n) (is' : Is m' n') : ∃ c, msubOf 4 m m' = some c ∧ Is c (n - n') := by
  obtain ⟨ds, proper, ⟨moved, len, rfl⟩ | ⟨moved, len, below, rfl⟩⟩ := is.cases
  all_goals obtain ⟨es, proper', ⟨moved', len', rfl⟩ | ⟨moved', len', below', rfl⟩⟩ := is'.cases
  all_goals rw [msubOf, moved, moved']; simp only [bind_eq_bind, bind_some]
  · have both := msub_proper 1 proper proper'
    rw [msubOf, move_eq, move_eq] at both
    exact both
  · rw [if_pos (Int.natCast_nonneg _), if_neg (by omega), neg_form, sub_neg_eq_add]
    exact madd_proper 2 proper proper'
  · rw [if_neg (by omega)]
    by_cases zero : (es.length : Int) ≤ 0
    · cases List.eq_nil_of_length_eq_zero (by omega : es.length = 0)
      rw [if_pos zero, neg_form]
      have difference := msub_proper 0 .nil proper
      rwa [show value 32768 [] - value 32768 ds = -value 32768 ds - value 32768 [] by rw [value_nil]; ring] at difference
    · obtain ⟨c, result, sum⟩ := madd_proper 2 proper proper'
      rw [if_neg zero, neg_form, result]
      refine ⟨c.neg, rfl, ?_⟩
      have negated := sum.neg
      rwa [neg_add] at negated
  · rw [if_neg (by omega), if_pos (by omega), neg_form, neg_form]
    have difference := msub_proper 0 proper' proper
    rwa [show value 32768 es - value 32768 ds = -value 32768 ds - -value 32768 es by ring] at difference

end

end Svr4.Mp
