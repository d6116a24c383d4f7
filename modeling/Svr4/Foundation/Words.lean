import Mathlib.Data.Int.Basic

/-! Conversions to the integer types of a 32-bit C machine.

Values are integers; storing one into a narrower object reduces it. Signed
types take the balanced residue, unsigned types the least one.
-/

namespace Svr4.Words

/-- Store into a `short`. -/
def toShort (value : Int) : Int := value.bmod 65536

/-- Store into an `ushort`. -/
def toUshort (value : Int) : Int := value % 65536

/-- Store into an `int` or a `long`. -/
def toInt (value : Int) : Int := value.bmod 4294967296

def FitsShort (value : Int) : Prop := -32768 ≤ value ∧ value ≤ 32767

instance (value : Int) : Decidable (FitsShort value) :=
  inferInstanceAs (Decidable (_ ∧ _))

variable {value : Int}

theorem toShort_of_fits (fits : FitsShort value) : toShort value = value := by
  obtain ⟨low, high⟩ := fits
  exact Int.bmod_eq_of_le (by omega) (by omega)

theorem toShort_fits (value : Int) : FitsShort (toShort value) := by
  have low := Int.le_bmod (x := value) (m := 65536) (by decide)
  have high := Int.bmod_lt (x := value) (m := 65536) (by decide)
  unfold FitsShort toShort
  omega

theorem toUshort_of_range (low : 0 ≤ value) (high : value < 65536) :
    toUshort value = value :=
  Int.emod_eq_of_lt low high

theorem toInt_of_fits (low : -2147483648 ≤ value) (high : value < 2147483648) : toInt value = value :=
  Int.bmod_eq_of_le (by omega) (by omega)

theorem toInt_lt (value : Int) : toInt value < 2147483648 := by
  have high := Int.bmod_lt (x := value) (m := 4294967296) (by decide)
  unfold toInt
  omega

/-- Wrapping makes no number larger that is not negative. -/
theorem toInt_le (positive : 0 ≤ value) : toInt value ≤ value := by
  rw [toInt, Int.bmod_def]
  split
  · omega
  · omega

/-- Only the word of all ones wraps to zero. -/
theorem toInt_succ_zero (wrapped : toInt (value + 1) = 0) : toInt value = -1 := by
  have same : value.bmod 4294967296 = (-1 : Int).bmod 4294967296 :=
    Int.bmod_eq_bmod_iff_bmod_sub_eq_zero.mpr wrapped
  exact same

/-- Words that are the same come from values that are the same or far apart. -/
theorem toInt_inj {other : Int} (same : toInt value = toInt other) (above : value - other < 4294967296)
    (below : other - value < 4294967296) : value = other := by
  have zero : (value - other).bmod 4294967296 = 0 := Int.bmod_eq_bmod_iff_bmod_sub_eq_zero.mp same
  obtain ⟨rounds, multiple⟩ := Int.dvd_of_bmod_eq_zero zero
  omega

end Svr4.Words
