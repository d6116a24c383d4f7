import Mathlib

/-! The Gregorian calendar, its days numbered from 1 January 1970. Months count
from 0, and a day of the month may lie outside the month. -/

namespace Svr4.Gregorian

def isLeap (y : Int) : Bool := (y % 4 = 0 ∧ y % 100 ≠ 0) ∨ y % 400 = 0

def yearLength (y : Int) : Int := if isLeap y then 366 else 365

def monthLengths (leap : Bool) : List Int :=
  [31, if leap then 29 else 28, 31, 30, 31, 30, 31, 31, 30, 31, 30, 31]

/-- Days of the year before a month. -/
def monthStart (leap : Bool) (m : Nat) : Int := ((monthLengths leap).take m).sum

/-- The day number of 1 January. -/
def yearStart (y : Int) : Int :=
  365 * (y - 1970) + ((y - 1) / 4 - (y - 1) / 100 + (y - 1) / 400) - 477

def dayNumber (y : Int) (m : Nat) (day : Int) : Int :=
  yearStart y + monthStart (isLeap y) m + (day - 1)

theorem yearStart_epoch : yearStart 1970 = 0 := rfl

/-- The number of the first day goes on by the length of the year. -/
theorem yearStart_succ (y : Int) : yearStart (y + 1) = yearStart y + yearLength y := by
  unfold yearStart yearLength isLeap
  simp only [decide_eq_true_eq]
  split <;> omega

theorem yearLength_bounds (y : Int) : 365 ≤ yearLength y ∧ yearLength y ≤ 366 := by
  unfold yearLength
  split <;> omega

theorem monthLengths_sum (y : Int) : (monthLengths (isLeap y)).sum = yearLength y := by
  unfold yearLength
  cases isLeap y <;> rfl

theorem yearStart_mono {y y' : Int} (le : y ≤ y') : yearStart y ≤ yearStart y' := by
  unfold yearStart
  omega

/-- A year that holds a day is told by the days around it. -/
theorem year_bounds {low high y d day : Int} (place : day = yearStart y + d) (first : 0 ≤ d)
    (last : d < yearLength y) (above : yearStart low ≤ day) (below : day < yearStart high) :
    low ≤ y ∧ y < high := by
  constructor
  · by_contra before
    have := yearStart_mono (show y + 1 ≤ low by omega)
    rw [yearStart_succ] at this
    omega
  · by_contra after
    have := yearStart_mono (show high ≤ y by omega)
    omega

end Svr4.Gregorian
