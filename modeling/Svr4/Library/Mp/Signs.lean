import Svr4.Library.Mp.Exact

/-! Division of numbers of both signs, the string of a number, and `gcd`. -/

namespace Svr4.Mp

open Positional
open Option (bind_eq_bind bind_some)

/-- `itox` takes the lowest four bits, also of a negative remainder. -/
def itox (d : Int) : Int := d % 16

/-- The loop of `mtox`: the digits of the characters written, in their order. -/
def mtoxLoop : Nat → Mint → Option (List Int)
  | 0, _ => none
  | fuel + 1, m => do
    let (m, r) ← sdiv m 16
    let (order, s) ← mcmp (fun zero : Bool => if zero then ⟨0, []⟩ else m) false true
    if order = 0 then some [itox r] else (mtoxLoop fuel (s false)).map (itox r :: ·)

/-- The bytes of the string that `mtox` allocates. -/
def mtoxSize (key : Mint) : Nat := (key.len.natAbs * 15 + 3) / 4 + 1

/-- The string as it is before it is turned around; a null byte goes behind it. -/
def mtox (key : Mint) : Option (List Int) := do
  mtoxLoop (mtoxSize key) (← move key)

section
variable {ds : List Int} {m m' : Mint} {n n' u v d : Int}

theorem signed_iff (total : |n| = u * |n'| + v) (low : 0 ≤ v) (high : v < |n'|) :
    (n = (if (n < 0) ≠ (n' < 0) then -u else u) * n' + if (n < 0) ≠ (n' < 0) then -v else v) ↔ 0 < n' ∨ n' ∣ n := by
  have divides : n' ∣ n ↔ v = 0 := by
    rw [← abs_dvd_abs, total, Int.dvd_add_right (Dvd.intro_left u rfl)]
    exact ⟨fun d => Int.eq_zero_of_dvd_of_nonneg_of_lt low high d, fun zero => zero ▸ dvd_zero _⟩
  rw [divides]
  by_cases below : n < 0 <;> by_cases below' : n' < 0
  all_goals
    simp only [below, below', ne_eq, eq_iff_iff, iff_true, iff_false, not_true_eq_false, not_false_eq_true, if_true, if_false]
    simp only [abs_of_neg, abs_of_nonneg, not_lt.mp, below, below', not_false_eq_true, mul_neg, neg_mul] at total high ⊢
    generalize u * n' = p at *
    omega

theorem Is.unique (is : Is m n) (is' : Is m n') : n = n' := is.number.trans is'.number.symm

theorem Is.signed (is : Is m n) (flips : Prop) [Decidable flips] : Is (if flips then m.neg else m) (if flips then -n else n) := by
  split
  · exact is.neg
  · exact is

theorem mdivOf_signs (is : Is m n) (is' : Is m' n') (some' : n' ≠ 0) :
    (∃ q r x y, mdivOf m m' = some (q, r) ∧ Is q x ∧ Is r y ∧ n = x * n' + y ∧ |y| < |n'|) ↔ 0 < n' ∨ n' ∣ n := by
  obtain ⟨q, r, u, v, result, isq, isr, total, low, high⟩ := mdivOf_abs is is' some'
  rw [← signed_iff total low high, result]
  constructor
  · rintro ⟨q', r', x, y, same, isq', isr', identity, -⟩
    cases same
    rwa [isq'.unique (isq.signed _), isr'.unique (isr.signed _)] at identity
  · intro identity
    exact ⟨_, _, _, _, rfl, isq.signed _, isr.signed _, identity, (abs_ite low).trans_lt high⟩

theorem sdiv_abs (is : Is m n) (low : -32768 < d) (high : d < 32768) (some' : d ≠ 0) :
    ∃ q, sdiv m d = some (if (n < 0) ≠ (d < 0) then q.neg else q, if (n < 0) ≠ (d < 0) then -(|n| % |d|) else |n| % |d|) ∧
      Is q (|n| / |d|) := by
  have positive : 0 < |d| := abs_pos.mpr some'
  have small : |d| < 32768 := abs_lt.mpr ⟨low, high⟩
  have length : (m.val.take m.len.natAbs).length = m.len.natAbs := by
    rw [List.length_take, min_eq_left is.within]
  obtain ⟨q, result, isq⟩ := @sDiv_eq (m.val.take m.len.natAbs) |d| positive small is.proper m.val (by rw [length]) (by rw [length]; exact is.within)
  rw [length, ← is.abs] at result
  rw [← is.abs] at isq
  have rest := Int.emod_nonneg |n| positive.ne'
  have rest' := Int.emod_lt_of_pos |n| positive
  have size : short (if d < 0 then -d else d) = some |d| := by
    rw [← short_eq (show -32768 ≤ |d| by omega) small]
    split
    · next below => rw [abs_of_neg below]
    · next above => rw [abs_of_nonneg (not_lt.mp above)]
  have plain : (if n < 0 then m.neg else m) = ⟨m.len.natAbs, m.val⟩ := by
    simp only [← is.below]
    split
    · next below => rw [Mint.neg, Int.ofNat_natAbs_of_nonpos below.le]
    · next above => rw [Int.natAbs_of_nonneg (not_lt.mp above)]
  refine ⟨q, ?_, isq⟩
  simp only [sdiv, is.below, size, plain, result, bind_eq_bind, bind_some, short_eq (show -32768 ≤ -(|n| % |d|) by omega) (by omega)]
  simp only [show ((d < 0) ≠ (n < 0)) = ((n < 0) ≠ (d < 0)) from propext ne_comm]
  split
  · rfl
  · rfl

theorem sdiv_signs (is : Is m n) (low : -32768 ≤ d) (high : d < 32768) (some' : d ≠ 0) :
    (∃ q r x, sdiv m d = some (q, r) ∧ Is q x ∧ n = x * d + r ∧ |r| < |d|) ↔ d ≠ -32768 ∧ (0 < d ∨ d ∣ n) := by
  by_cases least : d = -32768
  · subst least
    have none : sdiv m (-32768) = none := rfl
    simp [none]
  · obtain ⟨q, result, isq⟩ := sdiv_abs is (by omega) high some'
    have positive : 0 < |d| := abs_pos.mpr some'
    have nonneg := Int.emod_nonneg |n| positive.ne'
    have below := Int.emod_lt_of_pos |n| positive
    rw [and_iff_right least, ← signed_iff (Int.ediv_mul_add_emod |n| |d|).symm nonneg below, result]
    constructor
    · rintro ⟨q', r, x, same, isq', identity, -⟩
      cases same
      rwa [isq'.unique (isq.signed _)] at identity
    · intro identity
      exact ⟨_, _, _, rfl, isq.signed _, identity, (abs_ite nonneg).trans_lt below⟩

theorem mtoxLoop_length {fuel k : Nat} (is : Is m n) (below : |n| < 16 ^ (k + 1)) (enough : k < fuel) :
    ∃ s, mtoxLoop fuel m = some s ∧ 1 ≤ s.length ∧ s.length ≤ k + 1 := by
  induction fuel generalizing m n k with
  | zero => cases enough
  | succ fuel ih =>
    obtain ⟨q, result, isq⟩ := sdiv_abs is (d := 16) (by decide) (by decide) (by decide)
    have isq' := isq.signed ((n < 0) ≠ ((16 : Int) < 0))
    generalize (if (n < 0) ≠ ((16 : Int) < 0) then q.neg else q) = q' at isq' result
    generalize number : (if (n < 0) ≠ ((16 : Int) < 0) then -(|n| / |16|) else |n| / |16|) = x at isq'
    have size : |x| = |n| / 16 := by
      rw [← number]
      exact abs_ite (Int.ediv_nonneg (abs_nonneg n) (by decide))
    obtain ⟨order, compared, sign⟩ := @mcmp_eq Bool _ (fun zero => if zero then ⟨0, []⟩ else q') false true x 0 isq' .zero
    rw [sub_zero] at sign
    simp only [mtoxLoop, result, compared, bind_eq_bind, bind_some]
    by_cases last : order = 0
    · rw [if_pos last]
      exact ⟨_, rfl, le_rfl, Nat.le_add_left _ _⟩
    · rw [if_neg last]
      have more : x ≠ 0 := by
        rintro rfl
        exact last (Int.sign_eq_zero_iff_zero.mp sign)
      have positive := abs_pos.mpr more
      obtain ⟨k, rfl⟩ := Nat.exists_eq_succ_of_ne_zero (show k ≠ 0 by rintro rfl; omega)
      obtain ⟨s, rest, -, high⟩ := ih isq' (k := k) (by rw [size]; rw [pow_succ] at below; omega) (by omega)
      simp only [Bool.false_eq_true, if_false, rest]
      exact ⟨_, rfl, Nat.succ_le_succ (Nat.zero_le _), Nat.succ_le_succ high⟩

/-- The string has a byte for each digit and one for the null byte, but none for the digit of zero. -/
theorem mtox_fits (is : Is m n) : (∃ s, mtox m = some s ∧ s.length + 1 ≤ mtoxSize m) ↔ n ≠ 0 := by
  obtain ⟨ds, moved, length, proper, number⟩ := is.moved
  have copied : Is ⟨m.len, ds⟩ n := by
    have whole : ds.take m.len.natAbs = ds := List.take_of_length_le length.le
    refine ⟨length.ge, ?_, ?_⟩
    · rwa [whole]
    · rwa [whole]
  simp only [mtox, moved, bind_eq_bind, bind_some]
  have sign := is.sign
  by_cases zero : n = 0
  · subst zero
    have none : m.len = 0 := Int.sign_eq_zero_iff_zero.mp sign
    have one : mtoxSize m = 1 := by
      rw [mtoxSize, none]
      rfl
    obtain ⟨s, result, some', -⟩ := mtoxLoop_length copied (k := 0) (by decide) Nat.one_pos
    rw [one, result]
    refine iff_of_false ?_ (not_not.mpr rfl)
    rintro ⟨s', same, fits⟩
    cases same
    omega
  · have some' : m.len ≠ 0 := fun none => zero (is.of_len none)
    obtain ⟨k, size⟩ : ∃ k, (m.len.natAbs * 15 + 3) / 4 = k + 1 := Nat.exists_eq_succ_of_ne_zero (by omega)
    have below : |n| < 16 ^ (k + 1) := by
      calc |n| < 32768 ^ m.len.natAbs := by
            have high := is.proper.lt
            rwa [← is.abs, List.length_take, min_eq_left is.within] at high
        _ = 2 ^ (15 * m.len.natAbs) := by rw [pow_mul]; rfl
        _ ≤ 2 ^ (4 * (k + 1)) := pow_le_pow_right₀ (by decide) (by omega)
        _ = 16 ^ (k + 1) := by rw [pow_mul]; rfl
    obtain ⟨s, result, -, high⟩ := @mtoxLoop_length _ _ (mtoxSize m) k copied below (by unfold mtoxSize; omega)
    refine iff_of_true ⟨s, result, ?_⟩ zero
    unfold mtoxSize
    omega

end

theorem gcdLoop_eq {fuel : Nat} {x y : Mint} {n k : Int} (is : Is x n) (is' : Is y k) (enough : k.natAbs < fuel) :
    ∃ d g, gcdLoop fuel x y = some d ∧ Is d g ∧ g.natAbs = Int.gcd n k := by
  induction fuel generalizing x y n k with
  | zero => omega
  | succ fuel ih =>
    by_cases none : y.len = 0
    · obtain ⟨d, moved, -, -, isd⟩ := is.copy
      exact ⟨d, n, by simp [gcdLoop, none, moved], isd, by rw [is'.of_len none, Int.gcd_zero_right]⟩
    · have some' : k ≠ 0 := fun zero => none (by rw [← Int.sign_eq_zero_iff_zero, is'.sign, zero, Int.sign_zero])
      obtain ⟨q, r, u, v, divided, -, isr, total, low, high⟩ := mdivOf_abs is is' some'
      obtain ⟨y', moved, -, -, isy⟩ := is'.copy
      obtain ⟨z, moved', -, -, isz⟩ := (isr.signed ((n < 0) ≠ (k < 0))).copy
      have left : v.natAbs = n.natAbs % k.natAbs := by
        have whole : v = |n| % |k| := by rw [total, add_comm, Int.add_mul_emod_self_right, Int.emod_eq_of_lt low high]
        rw [whole, Int.abs_eq_natAbs, Int.abs_eq_natAbs, ← Int.natCast_mod, Int.natAbs_natCast]
      have size : (if (n < 0) ≠ (k < 0) then -v else v).natAbs = n.natAbs % k.natAbs := by
        rw [← left]
        split
        · exact Int.natAbs_neg v
        · rfl
      have less := Nat.mod_lt n.natAbs (Int.natAbs_pos.mpr some')
      obtain ⟨d, g, result, isd, same⟩ := ih isy isz (by omega)
      refine ⟨d, g, ?_, isd, ?_⟩
      · simp only [gcdLoop, if_neg none, divided, bind_eq_bind, bind_some, moved, moved', result]
      · rw [same, Int.gcd, size, Nat.gcd_comm, ← Nat.gcd_rec, Nat.gcd_comm, Int.gcd]

/-- `gcd` ends with a greatest common divisor, whatever the signs and what `mdiv` makes of them. -/
theorem gcdOf_greatest {a b : Mint} {n k : Int} (is : Is a n) (is' : Is b k) {fuel : Nat} (enough : k.natAbs < fuel) :
    ∃ d g, gcdOf fuel a b = some d ∧ Is d g ∧ g.natAbs = Int.gcd n k := by
  obtain ⟨x, moved, -, -, isx⟩ := is.copy
  obtain ⟨y, moved', -, -, isy⟩ := is'.copy
  obtain ⟨d, g, result, isd, same⟩ := gcdLoop_eq isx isy enough
  exact ⟨d, g, by simp [gcdOf, moved, moved', result], isd, same⟩

/-- Of -12 and -18. -/
theorem gcdOf_greatest_six : ∃ d g, gcdOf 20 ⟨-1, [12]⟩ ⟨-1, [18]⟩ = some d ∧ Is d g ∧ g.natAbs = 6 :=
  gcdOf_greatest (Is.digit (by decide) : Is ⟨1, [12]⟩ 12).neg (Is.digit (by decide) : Is ⟨1, [18]⟩ 18).neg (by decide)

end Svr4.Mp
