import Mathlib.Data.Nat.Bitwise

/-! Bitmaps of any size, in words of 32 bits, and the search for the highest bit. -/

namespace Svr4.Bitmap

open Function (update update_self update_of_ne)

/-- The words of a bitmap. -/
abbrev Map := Nat → Nat

def btUlshift : Nat := 5
def btUlmask : Nat := 0x1f

/-- The bit of an index in its word. -/
def btBiw (bitindex : Nat) : Nat := 1 <<< (bitindex &&& btUlmask)

def btTest (bitmap : Map) (bitindex : Nat) : Prop := bitmap (bitindex >>> btUlshift) &&& btBiw bitindex ≠ 0

instance (bitmap : Map) (bitindex : Nat) : Decidable (btTest bitmap bitindex) := inferInstanceAs (Decidable (_ ≠ _))

def btSet (bitmap : Map) (bitindex : Nat) : Map :=
  update bitmap (bitindex >>> btUlshift) (bitmap (bitindex >>> btUlshift) ||| btBiw bitindex)

def btClear (bitmap : Map) (bitindex : Nat) : Map :=
  update bitmap (bitindex >>> btUlshift)
    (bitmap (bitindex >>> btUlshift) &&& (0xffffffff ^^^ btBiw bitindex))

/-- The binary search of `bt_gethighbit` in a word that is not zero. -/
def highBit (word : Nat) : Nat :=
  if word &&& 0xffff0000 ≠ 0 then
    if word &&& 0xff000000 ≠ 0 then
      if word &&& 0xf0000000 ≠ 0 then
        if word &&& 0xc0000000 ≠ 0 then
          if word &&& 0x80000000 ≠ 0 then 31 else 30
        else if word &&& 0x20000000 ≠ 0 then 29 else 28
      else if word &&& 0x0c000000 ≠ 0 then
        if word &&& 0x08000000 ≠ 0 then 27 else 26
      else if word &&& 0x02000000 ≠ 0 then 25 else 24
    else if word &&& 0x00f00000 ≠ 0 then
      if word &&& 0x00c00000 ≠ 0 then
        if word &&& 0x00800000 ≠ 0 then 23 else 22
      else if word &&& 0x00200000 ≠ 0 then 21 else 20
    else if word &&& 0x000c0000 ≠ 0 then
      if word &&& 0x00080000 ≠ 0 then 19 else 18
    else if word &&& 0x00020000 ≠ 0 then 17 else 16
  else if word &&& 0x0000ff00 ≠ 0 then
    if word &&& 0x0000f000 ≠ 0 then
      if word &&& 0x0000c000 ≠ 0 then
        if word &&& 0x00008000 ≠ 0 then 15 else 14
      else if word &&& 0x00002000 ≠ 0 then 13 else 12
    else if word &&& 0x00000c00 ≠ 0 then
      if word &&& 0x00000800 ≠ 0 then 11 else 10
    else if word &&& 0x00000200 ≠ 0 then 9 else 8
  else if word &&& 0x000000f0 ≠ 0 then
    if word &&& 0x000000c0 ≠ 0 then
      if word &&& 0x00000080 ≠ 0 then 7 else 6
    else if word &&& 0x00000020 ≠ 0 then 5 else 4
  else if word &&& 0x0000000c ≠ 0 then
    if word &&& 0x00000008 ≠ 0 then 3 else 2
  else if word &&& 0x00000002 ≠ 0 then 1 else 0

/-- The highest bit that is on in the words up to `wx`, or -1. -/
def btGethighbit (mapp : Map) : Nat → Int
  | 0 => if mapp 0 = 0 then -1 else highBit (mapp 0)
  | wx + 1 =>
      if mapp (wx + 1) = 0 then btGethighbit mapp wx
      else ((wx + 1) <<< btUlshift ||| highBit (mapp (wx + 1)) : Nat)

/-! ## Setting, clearing and testing -/

section
variable {bitmap : Map} {i j word : Nat} {r : Nat}

theorem btTest_iff : btTest bitmap i ↔ (bitmap (i / 32)).testBit (i % 32) = true := by
  have place : i &&& btUlmask = i % 32 := Nat.and_two_pow_sub_one_eq_mod i 5
  have row : i >>> btUlshift = i / 32 := Nat.shiftRight_eq_div_pow i 5
  rw [btTest, btBiw, place, row, Nat.one_shiftLeft, Nat.and_two_pow]
  cases bit : (bitmap (i / 32)).testBit (i % 32) with
  | false => simp
  | true => simp

theorem btTest_set : btTest (btSet bitmap i) j ↔ j = i ∨ btTest bitmap j := by
  have place : i &&& btUlmask = i % 32 := Nat.and_two_pow_sub_one_eq_mod i 5
  have row : i >>> btUlshift = i / 32 := Nat.shiftRight_eq_div_pow i 5
  rw [btTest_iff, btTest_iff, btSet, btBiw, place, row, Nat.one_shiftLeft]
  by_cases same : j / 32 = i / 32
  · rw [same, update_self, Nat.testBit_or, Nat.testBit_two_pow, Bool.or_eq_true, decide_eq_true_eq, or_comm]
    have index : i % 32 = j % 32 ↔ j = i := by omega
    rw [index]
  · rw [update_of_ne same]
    have differ : j ≠ i := fun equal => same (by rw [equal])
    simp [differ]

theorem btTest_clear : btTest (btClear bitmap i) j ↔ j ≠ i ∧ btTest bitmap j := by
  have place : i &&& btUlmask = i % 32 := Nat.and_two_pow_sub_one_eq_mod i 5
  have row : i >>> btUlshift = i / 32 := Nat.shiftRight_eq_div_pow i 5
  rw [btTest_iff, btTest_iff, btClear, btBiw, place, row, Nat.one_shiftLeft]
  by_cases same : j / 32 = i / 32
  · have ones : (0xffffffff : Nat).testBit (j % 32) = true := by
      have full := Nat.testBit_two_pow_sub_one 32 (j % 32)
      rw [decide_eq_true (Nat.mod_lt j (by decide))] at full
      exact full
    rw [same, update_self, Nat.testBit_and, Nat.testBit_xor, ones, Nat.testBit_two_pow]
    have index : i % 32 = j % 32 ↔ j = i := by omega
    by_cases equal : j = i
    · simp [equal]
    · simp [index, equal]
  · rw [update_of_ne same]
    have differ : j ≠ i := fun equal => same (by rw [equal])
    simp [differ]

theorem btSet_lt (small : ∀ wx, bitmap wx < 2 ^ 32) (wx : Nat) : btSet bitmap i wx < 2 ^ 32 := by
  have place : i &&& btUlmask = i % 32 := Nat.and_two_pow_sub_one_eq_mod i 5
  by_cases same : wx = i >>> btUlshift
  · subst same
    rw [btSet, update_self, btBiw, place, Nat.one_shiftLeft]
    exact Nat.or_lt_two_pow (small _) (Nat.pow_lt_pow_right (by decide) (Nat.mod_lt i (by decide)))
  · rw [btSet, update_of_ne same]
    exact small wx

theorem btClear_lt (small : ∀ wx, bitmap wx < 2 ^ 32) (wx : Nat) : btClear bitmap i wx < 2 ^ 32 := by
  by_cases same : wx = i >>> btUlshift
  · subst same
    rw [btClear, update_self]
    exact Nat.and_le_left.trans_lt (small _)
  · rw [btClear, update_of_ne same]
    exact small wx

/-! ## The highest bit -/

/-- The bits from `a` up to `b` of a word below `2 ^ b`. -/
theorem and_bits_ne_zero {a b : Nat} (ordered : a ≤ b) (below : word < 2 ^ b) :
    word &&& (2 ^ b - 2 ^ a) ≠ 0 ↔ 2 ^ a ≤ word := by
  have mask : 2 ^ b - 2 ^ a = (2 ^ (b - a) - 1) <<< a := by
    rw [Nat.shiftLeft_eq, Nat.sub_mul, ← Nat.pow_add, Nat.sub_add_cancel ordered, Nat.one_mul]
  have shifted : word >>> a <<< a &&& (2 ^ (b - a) - 1) <<< a = word &&& (2 ^ (b - a) - 1) <<< a := by
    apply Nat.eq_of_testBit_eq
    intro k
    by_cases low : a ≤ k
    · simp [low]
    · simp [low]
  have small : word >>> a < 2 ^ (b - a) := by
    rw [Nat.shiftRight_eq_div_pow]
    apply Nat.div_lt_of_lt_mul
    rwa [← Nat.pow_add, Nat.add_sub_cancel' ordered]
  rw [mask, ← shifted, ← Nat.shiftLeft_and_distrib, Nat.and_two_pow_sub_one_eq_mod, Nat.mod_eq_of_lt small,
    Nat.shiftLeft_eq, Nat.shiftRight_eq_div_pow]
  constructor
  · intro some
    by_contra less
    rw [Nat.div_eq_of_lt (not_le.mp less)] at some
    simp at some
  · intro more
    exact Nat.mul_ne_zero (Nat.ne_of_gt (Nat.div_pos more (Nat.two_pow_pos a))) (Nat.ne_of_gt (Nat.two_pow_pos a))

/-- `r` is the highest bit of the word. -/
def High (word r : Nat) : Prop := 2 ^ r ≤ word ∧ word < 2 ^ (r + 1)

/-- A test of the search, in a word below `2 ^ b`. -/
theorem high_if {mask a b upper lower : Nat} (shape : mask = 2 ^ b - 2 ^ a) (ordered : a ≤ b) (below : word < 2 ^ b)
    (more : 2 ^ a ≤ word → High word upper) (less : word < 2 ^ a → High word lower) :
    High word (if word &&& mask ≠ 0 then upper else lower) := by
  rw [shape]
  by_cases some : 2 ^ a ≤ word
  · rw [if_pos ((and_bits_ne_zero ordered below).mpr some)]
    exact more some
  · rw [if_neg fun bits => some ((and_bits_ne_zero ordered below).mp bits)]
    exact less (not_le.mp some)

-- One line for each test of the search, each with the range of the word that is left.
theorem highBit_high (above0 : 2 ^ 0 ≤ word) (below32 : word < 2 ^ 32) : High word (highBit word) := by
  refine high_if (a := 16) (b := 32) rfl (by decide) below32 (fun above16 => ?_) fun below16 => ?_
  · refine high_if (a := 24) (b := 32) rfl (by decide) below32 (fun above24 => ?_) fun below24 => ?_
    · refine high_if (a := 28) (b := 32) rfl (by decide) below32 (fun above28 => ?_) fun below28 => ?_
      · refine high_if (a := 30) (b := 32) rfl (by decide) below32 (fun above30 => ?_) fun below30 => ?_
        · refine high_if (a := 31) (b := 32) rfl (by decide) below32 (fun above31 => ?_) fun below31 => ?_
          · exact ⟨above31, below32⟩
          · exact ⟨above30, below31⟩
        · refine high_if (a := 29) (b := 30) rfl (by decide) below30 (fun above29 => ?_) fun below29 => ?_
          · exact ⟨above29, below30⟩
          · exact ⟨above28, below29⟩
      · refine high_if (a := 26) (b := 28) rfl (by decide) below28 (fun above26 => ?_) fun below26 => ?_
        · refine high_if (a := 27) (b := 28) rfl (by decide) below28 (fun above27 => ?_) fun below27 => ?_
          · exact ⟨above27, below28⟩
          · exact ⟨above26, below27⟩
        · refine high_if (a := 25) (b := 26) rfl (by decide) below26 (fun above25 => ?_) fun below25 => ?_
          · exact ⟨above25, below26⟩
          · exact ⟨above24, below25⟩
    · refine high_if (a := 20) (b := 24) rfl (by decide) below24 (fun above20 => ?_) fun below20 => ?_
      · refine high_if (a := 22) (b := 24) rfl (by decide) below24 (fun above22 => ?_) fun below22 => ?_
        · refine high_if (a := 23) (b := 24) rfl (by decide) below24 (fun above23 => ?_) fun below23 => ?_
          · exact ⟨above23, below24⟩
          · exact ⟨above22, below23⟩
        · refine high_if (a := 21) (b := 22) rfl (by decide) below22 (fun above21 => ?_) fun below21 => ?_
          · exact ⟨above21, below22⟩
          · exact ⟨above20, below21⟩
      · refine high_if (a := 18) (b := 20) rfl (by decide) below20 (fun above18 => ?_) fun below18 => ?_
        · refine high_if (a := 19) (b := 20) rfl (by decide) below20 (fun above19 => ?_) fun below19 => ?_
          · exact ⟨above19, below20⟩
          · exact ⟨above18, below19⟩
        · refine high_if (a := 17) (b := 18) rfl (by decide) below18 (fun above17 => ?_) fun below17 => ?_
          · exact ⟨above17, below18⟩
          · exact ⟨above16, below17⟩
  · refine high_if (a := 8) (b := 16) rfl (by decide) below16 (fun above8 => ?_) fun below8 => ?_
    · refine high_if (a := 12) (b := 16) rfl (by decide) below16 (fun above12 => ?_) fun below12 => ?_
      · refine high_if (a := 14) (b := 16) rfl (by decide) below16 (fun above14 => ?_) fun below14 => ?_
        · refine high_if (a := 15) (b := 16) rfl (by decide) below16 (fun above15 => ?_) fun below15 => ?_
          · exact ⟨above15, below16⟩
          · exact ⟨above14, below15⟩
        · refine high_if (a := 13) (b := 14) rfl (by decide) below14 (fun above13 => ?_) fun below13 => ?_
          · exact ⟨above13, below14⟩
          · exact ⟨above12, below13⟩
      · refine high_if (a := 10) (b := 12) rfl (by decide) below12 (fun above10 => ?_) fun below10 => ?_
        · refine high_if (a := 11) (b := 12) rfl (by decide) below12 (fun above11 => ?_) fun below11 => ?_
          · exact ⟨above11, below12⟩
          · exact ⟨above10, below11⟩
        · refine high_if (a := 9) (b := 10) rfl (by decide) below10 (fun above9 => ?_) fun below9 => ?_
          · exact ⟨above9, below10⟩
          · exact ⟨above8, below9⟩
    · refine high_if (a := 4) (b := 8) rfl (by decide) below8 (fun above4 => ?_) fun below4 => ?_
      · refine high_if (a := 6) (b := 8) rfl (by decide) below8 (fun above6 => ?_) fun below6 => ?_
        · refine high_if (a := 7) (b := 8) rfl (by decide) below8 (fun above7 => ?_) fun below7 => ?_
          · exact ⟨above7, below8⟩
          · exact ⟨above6, below7⟩
        · refine high_if (a := 5) (b := 6) rfl (by decide) below6 (fun above5 => ?_) fun below5 => ?_
          · exact ⟨above5, below6⟩
          · exact ⟨above4, below5⟩
      · refine high_if (a := 2) (b := 4) rfl (by decide) below4 (fun above2 => ?_) fun below2 => ?_
        · refine high_if (a := 3) (b := 4) rfl (by decide) below4 (fun above3 => ?_) fun below3 => ?_
          · exact ⟨above3, below4⟩
          · exact ⟨above2, below3⟩
        · refine high_if (a := 1) (b := 2) rfl (by decide) below2 (fun above1 => ?_) fun below1 => ?_
          · exact ⟨above1, below2⟩
          · exact ⟨above0, below1⟩

theorem High.testBit (high : High word r) : word.testBit r = true := by
  obtain ⟨low, top⟩ := high
  rw [Nat.testBit_eq_decide_div_mod_eq, decide_eq_true_eq]
  have one : word / 2 ^ r = 1 := by
    refine Nat.div_eq_of_lt_le (by omega) ?_
    rwa [Nat.pow_succ, Nat.mul_comm] at top
  rw [one]

theorem High.le {k : Nat} (high : High word r) (bit : word.testBit k = true) : k ≤ r := by
  by_contra more
  have small : word < 2 ^ k := high.2.trans_le (Nat.pow_le_pow_right (by decide) (by omega))
  rw [Nat.testBit_lt_two_pow small] at bit
  cases bit

theorem High.lt (high : High word r) (small : word < 2 ^ 32) : r < 32 := by
  by_contra more
  have large : 2 ^ 32 ≤ 2 ^ r := Nat.pow_le_pow_right (by decide) (by omega)
  have low := high.1
  omega

/-- The highest bit in the words up to `wx`. -/
theorem btGethighbit_highest (small : ∀ wx, bitmap wx < 2 ^ 32) (wx : Nat) :
    (btGethighbit bitmap wx = -1 ∧ ∀ i, i / 32 ≤ wx → ¬ btTest bitmap i) ∨
    ∃ top : Nat, btGethighbit bitmap wx = top ∧ btTest bitmap top ∧ ∀ i, i / 32 ≤ wx → btTest bitmap i → i ≤ top := by
  -- A word that is not zero has the bit found in it.
  have here {wx : Nat} (some : bitmap wx ≠ 0) : btTest bitmap (wx * 32 + highBit (bitmap wx)) ∧
      ∀ i, i / 32 ≤ wx → btTest bitmap i → i ≤ wx * 32 + highBit (bitmap wx) := by
    have high := highBit_high (Nat.pos_of_ne_zero some) (small wx)
    have bit := high.lt (small wx)
    constructor
    · rw [btTest_iff]
      have row : (wx * 32 + highBit (bitmap wx)) / 32 = wx := by omega
      have place : (wx * 32 + highBit (bitmap wx)) % 32 = highBit (bitmap wx) := by omega
      rw [row, place]
      exact high.testBit
    · intro i inside on
      by_cases row : i / 32 = wx
      · rw [btTest_iff, row] at on
        have most := high.le on
        omega
      · omega
  induction wx with
  | zero =>
    unfold btGethighbit
    by_cases zero : bitmap 0 = 0
    · refine .inl ⟨if_pos zero, fun i inside on => ?_⟩
      rw [btTest_iff, Nat.le_zero.mp inside, zero, Nat.zero_testBit] at on
      cases on
    · rw [if_neg zero]
      obtain ⟨on, most⟩ := here zero
      exact .inr ⟨highBit (bitmap 0), rfl, by simpa using on, fun i inside bit => by simpa using most i inside bit⟩
  | succ wx ih =>
    unfold btGethighbit
    by_cases zero : bitmap (wx + 1) = 0
    · rw [if_pos zero]
      have skip {i : Nat} (inside : i / 32 ≤ wx + 1) (on : btTest bitmap i) : i / 32 ≤ wx := by
        by_contra top
        have row : i / 32 = wx + 1 := by omega
        rw [btTest_iff, row, zero, Nat.zero_testBit] at on
        cases on
      rcases ih with ⟨none, off⟩ | ⟨top, found, on, most⟩
      · exact .inl ⟨none, fun i inside on => off i (skip inside on) on⟩
      · exact .inr ⟨top, found, on, fun i inside bit => most i (skip inside bit) bit⟩
    · rw [if_neg zero]
      have bit := (highBit_high (Nat.pos_of_ne_zero zero) (small (wx + 1))).lt (small (wx + 1))
      have index : (wx + 1) <<< btUlshift ||| highBit (bitmap (wx + 1)) = (wx + 1) * 32 + highBit (bitmap (wx + 1)) := by
        rw [Nat.shiftLeft_eq, Nat.mul_comm]
        exact (Nat.two_pow_add_eq_or_of_lt (i := 5) bit (wx + 1)).symm.trans (by omega)
      obtain ⟨on, most⟩ := here zero
      exact .inr ⟨_, by rw [index], on, most⟩

end

end Svr4.Bitmap
