import Svr4.Foundation.Gregorian
import Svr4.Library.Clock

/-! gmtime gives the Gregorian date and time. -/

namespace Svr4.Clock

open Gregorian

/-- The fields are the Gregorian date and the time of day of a second, counted
from the start of 1970. -/
structure Denotes (t : Int) (tm : Tm) : Prop where
  sec : 0 ≤ tm.tm_sec ∧ tm.tm_sec < 60
  min : 0 ≤ tm.tm_min ∧ tm.tm_min < 60
  hour : 0 ≤ tm.tm_hour ∧ tm.tm_hour < 24
  mon : 0 ≤ tm.tm_mon ∧ tm.tm_mon < 12
  mday : 1 ≤ tm.tm_mday ∧
    tm.tm_mday ≤ (monthLengths (isLeap (1900 + tm.tm_year))).getD tm.tm_mon.toNat 0
  total : t = 86400 * dayNumber (1900 + tm.tm_year) tm.tm_mon.toNat tm.tm_mday +
    3600 * tm.tm_hour + 60 * tm.tm_min + tm.tm_sec
  wday : tm.tm_wday = (4 + t / 86400) % 7
  yday : tm.tm_yday = monthStart (isLeap (1900 + tm.tm_year)) tm.tm_mon.toNat + tm.tm_mday - 1

theorem isleap_eq (y : Int) : isleap y = isLeap y := by
  unfold isleap isLeap rem quot
  simp only [decide_eq_decide]
  split <;> omega

theorem year_lengths_eq (y : Int) : year_lengths (isleap y) = yearLength y := by
  rw [isleap_eq]
  rfl

theorem mon_lengths_eq (y : Int) : mon_lengths (isleap y) = monthLengths (isLeap y) := by
  rw [isleap_eq]
  cases isLeap y <;> rfl

theorem intoDay_eq (fuel : Nat) (days r : Int) (low : -86400 < r) (high : r < 86400) :
    intoDay (fuel + 2) days r = if r < 0 then (days - 1, r + 86400) else (days, r) := by
  have day : SEC_PER_DAY = 86400 := rfl
  simp only [intoDay]
  split
  · rw [if_neg (by omega), if_neg (by omega), day]
  · rw [if_neg (by omega)]

/-- The first loop of offtime ends with the day of the clock and the second of that day. -/
theorem intoDay_clock (fuel : Nat) (clock : Int) :
    intoDay (fuel + 2) (quot clock SEC_PER_DAY) (rem clock SEC_PER_DAY + 0) =
      (clock / 86400, clock % 86400) := by
  have bounds : -86400 < rem clock SEC_PER_DAY + 0 ∧ rem clock SEC_PER_DAY + 0 < 86400 := by
    unfold rem quot SEC_PER_DAY
    split <;> omega
  rw [intoDay_eq fuel _ _ bounds.1 bounds.2]
  unfold rem quot SEC_PER_DAY
  split <;> split <;> simp only [Prod.mk.injEq] <;> omega

theorem yearsUp_place (fuel : Nat) :
    ∀ (y days : Int), 0 ≤ days → days < fuel →
      yearStart y + days = yearStart (yearsUp fuel y days).1 + (yearsUp fuel y days).2 ∧
      0 ≤ (yearsUp fuel y days).2 ∧ (yearsUp fuel y days).2 < yearLength (yearsUp fuel y days).1 := by
  induction fuel with
  | zero =>
    intro y days low high
    omega
  | succ fuel ih =>
    intro y days low high
    have bounds := yearLength_bounds y
    rw [yearsUp, year_lengths_eq]
    split
    · rename_i inside
      exact ⟨rfl, low, inside⟩
    · have next := ih (y + 1) (days - yearLength y) (by omega) (by omega)
      rw [yearStart_succ] at next
      exact ⟨by omega, next.2⟩

theorem yearsDown_place (fuel : Nat) :
    ∀ (y days : Int), days < 0 → -days < fuel →
      yearStart y + days = yearStart (yearsDown fuel y days).1 + (yearsDown fuel y days).2 ∧
      0 ≤ (yearsDown fuel y days).2 ∧
      (yearsDown fuel y days).2 < yearLength (yearsDown fuel y days).1 := by
  induction fuel with
  | zero =>
    intro y days low high
    omega
  | succ fuel ih =>
    intro y days low high
    have bounds := yearLength_bounds (y - 1)
    have before := yearStart_succ (y - 1)
    rw [show y - 1 + 1 = y by omega] at before
    rw [yearsDown]
    simp only [year_lengths_eq]
    split
    · have next := ih (y - 1) (days + yearLength (y - 1)) (by omega) (by omega)
      exact ⟨by omega, next.2⟩
    · refine ⟨?_, ?_, ?_⟩ <;> dsimp only <;> omega

/-- The month loop ends in the month that holds the day. -/
theorem monthLoop_place (ip : List Int) :
    ∀ (mon days : Int), 0 ≤ days → days < ip.sum →
      ∃ k, k < ip.length ∧ (monthLoop ip mon days).1 = mon + k ∧
        days = (ip.take k).sum + (monthLoop ip mon days).2 ∧
        0 ≤ (monthLoop ip mon days).2 ∧ (monthLoop ip mon days).2 < ip.getD k 0 := by
  induction ip with
  | nil =>
    intro mon days low high
    simp only [List.sum_nil] at high
    omega
  | cons length ip ih =>
    intro mon days low high
    rw [monthLoop]
    split
    · rename_i inside
      exact ⟨0, Nat.succ_pos _, by simp, by simp, low, by simpa using inside⟩
    · rw [List.sum_cons] at high
      obtain ⟨k, inside, place, total, first, last⟩ := ih (mon + 1) (days - length) (by omega) (by omega)
      refine ⟨k + 1, Nat.succ_lt_succ inside, by rw [place]; push_cast; omega, ?_, first, ?_⟩
      · rw [List.take_succ_cons, List.sum_cons]
        omega
      · simpa using last

theorem offtime_year (days : Int) :
    let found := if 0 ≤ days then yearsUp (days.toNat + 1) EPOCH_YEAR days
      else yearsDown ((-days).toNat + 1) EPOCH_YEAR days
    days = yearStart found.1 + found.2 ∧ 0 ≤ found.2 ∧ found.2 < yearLength found.1 := by
  split
  · have place := yearsUp_place (days.toNat + 1) EPOCH_YEAR days (by omega) (by omega)
    rw [show EPOCH_YEAR = 1970 from rfl, yearStart_epoch] at place
    rw [show EPOCH_YEAR = 1970 from rfl]
    exact ⟨by omega, place.2⟩
  · have place := yearsDown_place ((-days).toNat + 1) EPOCH_YEAR days (by omega) (by omega)
    rw [show EPOCH_YEAR = 1970 from rfl, yearStart_epoch] at place
    rw [show EPOCH_YEAR = 1970 from rfl]
    exact ⟨by omega, place.2⟩

theorem gmtime_denotes (clock : Int) : Denotes clock (gmtime clock) := by
  unfold gmtime offtime
  rw [intoDay_clock]
  dsimp only
  have year := offtime_year (clock / 86400)
  dsimp only at year
  generalize (if 0 ≤ clock / 86400 then yearsUp ((clock / 86400).toNat + 1) EPOCH_YEAR (clock / 86400)
    else yearsDown ((-(clock / 86400)).toNat + 1) EPOCH_YEAR (clock / 86400)) = found at year ⊢
  obtain ⟨y, yday⟩ := found
  obtain ⟨place, first, last⟩ := year
  dsimp only at place first last ⊢
  rw [mon_lengths_eq]
  obtain ⟨k, inside, month, total, low, high⟩ :=
    monthLoop_place (monthLengths (isLeap y)) 0 yday first (by rw [monthLengths_sum]; exact last)
  generalize monthLoop (monthLengths (isLeap y)) 0 yday = result at month total low high ⊢
  obtain ⟨mon, mday⟩ := result
  dsimp only at month total low high ⊢
  obtain rfl : mon = k := by omega
  have twelve : (monthLengths (isLeap y)).length = 12 := by cases isLeap y <;> rfl
  have back : 1900 + (y - TM_YEAR_BASE) = y := by
    unfold TM_YEAR_BASE
    omega
  have start : yday = monthStart (isLeap y) k + mday := total
  unfold rem quot SEC_PER_HOUR SEC_PER_MIN EPOCH_WDAY DAYS_PER_WEEK
  constructor <;> dsimp only
  · split <;> split <;> omega
  · split <;> split <;> omega
  · split <;> omega
  · omega
  · rw [back, Int.toNat_natCast]
    omega
  · rw [back, Int.toNat_natCast, dayNumber]
    split <;> split <;> omega
  · split <;> split <;> omega
  · rw [back, Int.toNat_natCast]
    omega

theorem Denotes.place {clock : Int} {t : Tm} (denotes : Denotes clock t) :
    clock / 86400 = yearStart (1900 + t.tm_year) + t.tm_yday ∧ 0 ≤ t.tm_yday ∧
      t.tm_yday < yearLength (1900 + t.tm_year) := by
  have total := denotes.total
  have yday := denotes.yday
  have sec := denotes.sec
  have min := denotes.min
  have hour := denotes.hour
  have mon := denotes.mon
  have mday := denotes.mday
  have months : ∀ leap, ∀ m < 12, 0 ≤ monthStart leap m ∧
      monthStart leap m + (monthLengths leap).getD m 0 ≤ if leap then 366 else 365 := by decide
  have inside := months (isLeap (1900 + t.tm_year)) t.tm_mon.toNat (by omega)
  unfold dayNumber at total
  refine ⟨by omega, by omega, ?_⟩
  unfold yearLength
  omega

end Svr4.Clock
