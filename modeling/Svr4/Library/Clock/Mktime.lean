import Svr4.Library.Clock.Civil

/-! mktime and localtime are inverse, and what mktime makes of fields outside
their ranges. It looks a month up beyond the table when the month is a negative
multiple of 12, counts every fourth year as a leap year, adds in 32 bits, and
for a negative tm_isdst applies the rule of the USA in any zone. -/

namespace Svr4.Clock

open Gregorian
open Option (map_some some)

def IsInt (x : Int) : Prop := -2 ^ 31 ≤ x ∧ x < 2 ^ 31

/-- The times that mktime can answer. -/
def InTime (t : Int) : Prop := 0 ≤ t ∧ t < 2 ^ 31

instance (t : Int) : Decidable (InTime t) := inferInstanceAs (Decidable (_ ∧ _))

/-- The second that the fields denote in the Gregorian calendar, a month outside
the year going into the year. -/
def denoted (t : Tm) : Int :=
  86400 * dayNumber (1900 + t.tm_year + t.tm_mon / 12) (t.tm_mon % 12).toNat t.tm_mday +
    3600 * t.tm_hour + 60 * t.tm_min + t.tm_sec

def instant (zone : Zone) (t : Tm) : Int :=
  denoted t + if 0 < t.tm_isdst then zone.altzone else zone.timezone

/-- The month lies in the table after its remainder is taken. -/
def MonthFits (t : Tm) : Prop := ¬(t.tm_mon < 0 ∧ t.tm_mon % 12 = 0) ∧ t.tm_mon ≠ -2 ^ 31

/-- The days between the rule of a leap year every four years and the calendar,
and a day more before 1897, where the division does not round down. -/
def leapDrift (t : Tm) : Int :=
  let a := t.tm_year + t.tm_mon / 12
  (1899 + a) / 100 - (1899 + a) / 400 - 15 +
    (if 2 ≤ t.tm_mon % 12 ∧ a % 4 = 0 ∧ isLeap (1900 + a) = false then 1 else 0) +
    if wrap (a + 3) < 0 ∧ (a + 3) % 4 ≠ 0 then 1 else 0

theorem wrap_eq (x : Int) : ∃ k, wrap x = x + 2 ^ 32 * k :=
  ⟨-((x + 2 ^ 31) / 2 ^ 32), by unfold wrap; omega⟩

theorem wrap_of_isInt {x : Int} (fits : IsInt x) : wrap x = x := by
  unfold wrap IsInt at *
  omega

theorem wrap_isInt (x : Int) : IsInt (wrap x) := by
  unfold wrap IsInt
  omega

theorem wrap_add_mul (x k : Int) : wrap (x + 2 ^ 32 * k) = wrap x := by
  unfold wrap
  omega

theorem wrap_add_wrap (x y : Int) : wrap (wrap x + y) = wrap (x + y) := by
  unfold wrap
  omega

theorem wrap_wrap_sub (x y : Int) : wrap (wrap x - y) = wrap (x - y) := by
  unfold wrap
  omega

variable {t : Tm} {zone : Zone} {clock : Int}

theorem normalMonth_eq (year : IsInt t.tm_year) (mon : IsInt t.tm_mon) (fits : MonthFits t) :
    normalMonth t = (wrap (t.tm_year + t.tm_mon / 12), t.tm_mon % 12) := by
  unfold normalMonth
  obtain ⟨multiple, least⟩ := fits
  unfold IsInt at mon
  split
  · unfold rem quot
    rw [if_pos (by omega)]
    simp only [Prod.mk.injEq, true_and]
    omega
  · split
    · have positive : wrap (-t.tm_mon) = -t.tm_mon := wrap_of_isInt ⟨by omega, by omega⟩
      simp only [positive]
      unfold rem quot
      rw [if_pos (by omega)]
      simp only [Prod.mk.injEq]
      refine ⟨?_, by omega⟩
      congr 1
      omega
    · have same : t.tm_year + t.tm_mon / 12 = t.tm_year := by omega
      rw [same, wrap_of_isInt year]
      simp only [Prod.mk.injEq, true_and]
      omega

theorem monthEntry_eq (leap : Bool) (mon : Int) (low : 0 ≤ mon) (high : mon < 12) :
    monthEntry (if leap then lyday_to_month else yday_to_month) mon =
      some (monthStart leap mon.toNat) := by
  have all : ∀ leap, ∀ m < 12, (if leap then lyday_to_month else yday_to_month)[m]? =
      some (monthStart leap m) := by decide
  rw [monthEntry, if_pos low]
  exact all leap mon.toNat (by omega)

theorem monthStart_leap (m : Nat) (high : m < 12) :
    monthStart true m = monthStart false m + if 2 ≤ m then 1 else 0 := by
  have all : ∀ m < 12, monthStart true m = monthStart false m + if 2 ≤ m then 1 else 0 := by decide
  exact all m high

theorem fieldSum_eq {t : Tm} (year : IsInt t.tm_year) (mon : IsInt t.tm_mon) (fits : MonthFits t) :
    ∃ k, fieldSum t = some (denoted t + 86400 * leapDrift t + 2 ^ 32 * k) := by
  unfold fieldSum
  rw [normalMonth_eq year mon fits]
  generalize split : t.tm_year + t.tm_mon / 12 = a
  obtain ⟨j, first⟩ := wrap_eq a
  obtain ⟨i, second⟩ := wrap_eq (wrap a + 3)
  have quarter : wrap (wrap a + 3) = wrap (a + 3) := wrap_add_wrap a 3
  have low : 0 ≤ t.tm_mon % 12 := by omega
  have high : t.tm_mon % 12 < 12 := by omega
  have leaps : (rem (wrap a) 4 = 0) = (decide (a % 4 = 0) = true) := by
    rw [decide_eq_true_eq, eq_iff_iff]
    unfold rem quot
    split <;> omega
  simp only [leaps]
  rw [monthEntry_eq _ _ low high, map_some]
  refine ⟨31536000 * j + 21600 * (i + j), congrArg some ?_⟩
  have months := monthStart_leap (t.tm_mon % 12).toNat (by omega)
  have two : (2 ≤ (t.tm_mon % 12).toNat) ↔ 2 ≤ t.tm_mon % 12 := by omega
  have truncated : quot (wrap (wrap a + 3)) 4 = (a + 3) / 4 + 2 ^ 30 * (i + j) +
      if wrap (a + 3) < 0 ∧ (a + 3) % 4 ≠ 0 then 1 else 0 := by
    rw [← quarter]
    unfold quot
    split <;> split <;> omega
  have leap : isLeap (1900 + a) = true ↔
      ((1900 + a) % 4 = 0 ∧ (1900 + a) % 100 ≠ 0) ∨ (1900 + a) % 400 = 0 := by
    simp [isLeap]
  have known : monthStart (decide (a % 4 = 0)) (t.tm_mon % 12).toNat =
      monthStart (isLeap (1900 + a)) (t.tm_mon % 12).toNat +
        if 2 ≤ t.tm_mon % 12 ∧ a % 4 = 0 ∧ isLeap (1900 + a) = false then 1 else 0 := by
    simp only [two] at months
    by_cases four : a % 4 = 0
    · cases length : isLeap (1900 + a) <;> simp [four, months]
    · have common : isLeap (1900 + a) = false := by
        rw [← Bool.not_eq_true, leap]
        omega
      simp [four, common]
  unfold denoted dayNumber leapDrift yearStart
  rw [add_assoc 1900, split, truncated, known, first, show 1900 + a - 1 = 1899 + a by omega]
  simp only [SEC_PER_MIN, SEC_PER_HOUR, SEC_PER_DAY, SEC_PER_YEAR, LEAP_TO_70]
  have fourth : (1899 + a) / 4 = (a + 3) / 4 + 474 := by omega
  rw [fourth]
  generalize (if 2 ≤ t.tm_mon % 12 ∧ a % 4 = 0 ∧ isLeap (1900 + a) = false then (1 : Int) else 0) = month
  generalize (if wrap (a + 3) < 0 ∧ (a + 3) % 4 ≠ 0 then (1 : Int) else 0) = day
  omega

theorem fieldSum_none (mon : IsInt t.tm_mon) (beyond : ¬MonthFits t) : fieldSum t = none := by
  have place : 12 ≤ (normalMonth t).2 := by
    unfold MonthFits at beyond
    unfold IsInt at mon
    unfold normalMonth
    rw [if_neg (by omega), if_pos (by omega)]
    dsimp only
    by_cases least : t.tm_mon = -2 ^ 31
    · rw [least]
      decide
    · rw [show wrap (-t.tm_mon) = -t.tm_mon from wrap_of_isInt ⟨by omega, by omega⟩]
      unfold rem quot
      rw [if_pos (by omega)]
      omega
  rcases normal : normalMonth t with ⟨year, month⟩
  rw [normal] at place
  have absent : ∀ table : List Int, table.length = 12 → monthEntry table month = none := by
    intro table length
    rw [monthEntry, if_pos (by omega), List.getElem?_eq_none (by omega)]
  unfold fieldSum
  rw [normal]
  dsimp only
  rw [absent _ (by split <;> rfl)]
  rfl

/-- What a negative tm_isdst takes off a second, where the rule's table has the year. -/
def shift (zone : Zone) (t : Tm) (secs : Int) : Option Int :=
  if t.tm_isdst < 0 then
    (dstBounds zone (gmtime (wrap (secs - zone.timezone)))).map fun (daybegin, dayend) =>
      if daybegin ≤ secondOfYear (gmtime (wrap (secs - zone.timezone))) ∧
          secondOfYear (gmtime (wrap (secs - zone.timezone))) < dayend
        then zone.timezone - zone.altzone else 0
  else some 0

/-- mktime in a zone without daylight saving: the instant and the drift, less
the shift, in 32 bits. -/
theorem mktime_eq (standard : zone.daylight = false) (year : IsInt t.tm_year)
    (mon : IsInt t.tm_mon) (fits : MonthFits t) :
    mktime zone t = (shift zone t (wrap (instant zone t + 86400 * leapDrift t))).map fun taken =>
      let secs := wrap (instant zone t + 86400 * leapDrift t - taken)
      (gmtime (wrap (secs - zone.timezone)), if secs < 0 then -1 else secs) := by
  obtain ⟨k, sum⟩ := fieldSum_eq year mon fits
  have local_ : ∀ secs, localtime zone secs = some (gmtime (wrap (secs - zone.timezone))) := by
    intro secs
    simp [localtime, standard, ↓reduceIte]
  have first : wrap (denoted t + 86400 * leapDrift t + 2 ^ 32 * k +
      if 0 < t.tm_isdst then zone.altzone else zone.timezone) =
      wrap (instant zone t + 86400 * leapDrift t) := by
    rw [← wrap_add_mul (instant zone t + 86400 * leapDrift t) k, instant]
    congr 1
    omega
  unfold mktime
  simp only [sum, Option.bind_eq_bind, Option.bind_some, first, local_]
  unfold shift
  split
  · cases bounds : dstBounds zone
      (gmtime (wrap (wrap (instant zone t + 86400 * leapDrift t) - zone.timezone))) with
    | none => rfl
    | some pair =>
      dsimp only [map_some]
      split
      · simp only [wrap_wrap_sub]
      · simp
  · rw [map_some, sub_zero]

/-- What is claimed of mktime on any fields. -/
def Inverts (zone : Zone) (t : Tm) : Prop :=
  (InTime (instant zone t) → ∃ t', mktime zone t = some (t', instant zone t) ∧
    localtime zone (instant zone t) = some t') ∧
  (¬InTime (instant zone t) → ∃ t', mktime zone t = some (t', -1))

/-- The branches that go wrong are not taken, or make no difference. -/
def Meets (zone : Zone) (t : Tm) : Prop :=
  MonthFits t ∧ ∃ taken, shift zone t (wrap (instant zone t + 86400 * leapDrift t)) = some taken ∧
    if InTime (instant zone t) then 2 ^ 32 ∣ 86400 * leapDrift t - taken
    else wrap (instant zone t + 86400 * leapDrift t - taken) < 0

theorem inverts_iff (standard : zone.daylight = false)
    (year : IsInt t.tm_year) (mon : IsInt t.tm_mon) : Inverts zone t ↔ Meets zone t := by
  unfold Inverts Meets
  by_cases fits : MonthFits t
  · rw [mktime_eq standard year mon fits]
    cases shifted : shift zone t (wrap (instant zone t + 86400 * leapDrift t)) with
    | none =>
      constructor
      · rintro ⟨inside, outside⟩
        by_cases time : InTime (instant zone t)
        · obtain ⟨t', result, -⟩ := inside time
          cases result
        · obtain ⟨t', result⟩ := outside time
          cases result
      · rintro ⟨-, taken', same, -⟩
        cases same
    | some taken =>
      dsimp only [map_some]
      generalize gone : instant zone t + 86400 * leapDrift t - taken = secs
      have answer : ∀ x, (if wrap secs < 0 then -1 else wrap secs) = x → InTime x →
          2 ^ 32 ∣ secs - x := by
        intro x
        unfold wrap InTime
        split <;> omega
      constructor
      · rintro ⟨inside, outside⟩
        refine ⟨fits, taken, rfl, ?_⟩
        split
        · rename_i time
          obtain ⟨t', result, -⟩ := inside time
          have same := (Prod.mk.inj (some.inj result)).2
          have := answer _ same time
          omega
        · rename_i time
          obtain ⟨t', result⟩ := outside time
          have same := (Prod.mk.inj (some.inj result)).2
          rw [gone]
          omega
      · rintro ⟨-, taken', same, meets⟩
        obtain rfl := some.inj same
        constructor
        · intro time
          rw [if_pos time] at meets
          have whole : wrap secs = instant zone t := by
            unfold InTime at time
            unfold wrap
            omega
          rw [whole, if_neg (by unfold InTime at time; omega)]
          refine ⟨_, rfl, ?_⟩
          simp [localtime, standard, ↓reduceIte]
        · intro time
          rw [if_neg time, gone] at meets
          rw [if_pos meets]
          exact ⟨_, rfl⟩
  · have nothing : mktime zone t = none := by
      unfold mktime
      rw [fieldSum_none mon fits]
      rfl
    rw [nothing]
    constructor
    · rintro ⟨inside, outside⟩
      by_cases time : InTime (instant zone t)
      · obtain ⟨t', result, -⟩ := inside time
        cases result
      · obtain ⟨t', result⟩ := outside time
        cases result
    · exact fun meets => absurd meets.1 fits

theorem Denotes.year (denotes : Denotes clock t) (fits : IsInt clock) :
    1 ≤ t.tm_year ∧ t.tm_year < 139 := by
  have place := denotes.place
  unfold IsInt at fits
  have first : yearStart 1901 = -25202 := rfl
  have last : yearStart 2039 = 25202 := rfl
  have := year_bounds place.1 place.2.1 place.2.2 (show yearStart 1901 ≤ clock / 86400 by omega)
    (show clock / 86400 < yearStart 2039 by omega)
  omega

theorem Denotes.fieldSum (denotes : Denotes clock t) (fits : IsInt clock)
    (isdst : Int) : ∃ k, Clock.fieldSum { t with tm_isdst := isdst } = some (clock + 2 ^ 32 * k) := by
  have year := denotes.year fits
  have mon := denotes.mon
  have inYear : t.tm_mon / 12 = 0 := by omega
  have same : t.tm_mon % 12 = t.tm_mon := by omega
  have total : denoted { t with tm_isdst := isdst } = clock := by
    rw [denotes.total]
    simp [denoted, inYear, same]
  have quadrennial : t.tm_year % 4 = 0 → isLeap (1900 + t.tm_year) = true := by
    intro four
    simp only [isLeap, decide_eq_true_eq]
    omega
  have drift : leapDrift { t with tm_isdst := isdst } = 0 := by
    have positive : wrap (t.tm_year + 3) = t.tm_year + 3 := wrap_of_isInt ⟨by omega, by omega⟩
    have common : ¬(2 ≤ t.tm_mon % 12 ∧ t.tm_year % 4 = 0 ∧ isLeap (1900 + t.tm_year) = false) := by
      rintro ⟨-, four, short⟩
      rw [quadrennial four] at short
      cases short
    simp only [leapDrift, inYear, add_zero, positive]
    rw [if_neg common, if_neg (by omega)]
    omega
  obtain ⟨k, sum⟩ := @fieldSum_eq { t with tm_isdst := isdst } ⟨by dsimp only; omega, by dsimp only; omega⟩
    ⟨by dsimp only; omega, by dsimp only; omega⟩ ⟨by dsimp only; omega, by dsimp only; omega⟩
  refine ⟨k, ?_⟩
  rw [sum, total, drift, Int.mul_zero, Int.add_zero]

theorem mktime_localtime (time : InTime clock)
    (result : localtime zone clock = some t) : mktime zone t = some (t, clock) := by
  have finish : ∀ (v zoned isdst : Int), v = wrap (clock - zoned) → 0 ≤ isdst →
      (zoned = if 0 < isdst then zone.altzone else zone.timezone) →
      t = { gmtime v with tm_isdst := isdst } → mktime zone t = some (t, clock) := by
    intro v zoned isdst local_ positive offset same
    obtain ⟨k, sum⟩ := (gmtime_denotes v).fieldSum (local_ ▸ wrap_isInt _) isdst
    have isdst_ : t.tm_isdst = isdst := by rw [same]
    have back : wrap (v + 2 ^ 32 * k + zoned) = clock := by
      unfold InTime at time
      rw [local_]
      unfold wrap
      omega
    unfold mktime
    rw [← same] at sum
    simp only [sum, Option.bind_eq_bind, Option.bind_some, isdst_, ← offset, back, result]
    rw [if_neg (by omega), if_neg (by unfold InTime at time; omega)]
  have whole : ∀ v, gmtime v = { gmtime v with tm_isdst := 0 } := fun v => rfl
  unfold localtime at result
  dsimp only at result
  split at result
  · split at result
    · cases result
    · split at result
      · exact finish _ zone.altzone 1 rfl (by decide) rfl (some.inj result).symm
      · exact finish _ zone.timezone 0 rfl (by decide) rfl
          ((some.inj result).symm.trans (whole _))
  · exact finish _ zone.timezone 0 rfl (by decide) rfl ((some.inj result).symm.trans (whole _))

/-- The table of rules has a year from 1970 on. -/
theorem getusa_none (fits : IsInt clock) : getusa (gmtime clock) = none ↔ clock < 0 := by
  have denotes := gmtime_denotes clock
  have place := denotes.place
  have low : 70 ≤ (gmtime clock).tm_year ↔ 0 ≤ clock := by
    have epoch : yearStart 1970 = 0 := rfl
    constructor
    · intro late
      have := yearStart_mono (show 1970 ≤ 1900 + (gmtime clock).tm_year by omega)
      omega
    · intro late
      have last : yearStart 2039 = 25202 := rfl
      unfold IsInt at fits
      have := year_bounds place.1 place.2.1 place.2.2 (show yearStart 1970 ≤ clock / 86400 by omega)
        (show clock / 86400 < yearStart 2039 by omega)
      omega
  unfold getusa daytab
  rw [Option.map_eq_none_iff]
  simp only [List.find?_eq_none, List.mem_cons, List.not_mem_nil, or_false, forall_eq_or_imp,
    forall_eq, decide_eq_true_eq]
  omega

theorem localtime_isSome (zone : Zone) (clock : Int) :
    (∃ t, localtime zone clock = some t) ↔
      ¬(zone.daylight = true ∧ zone.start_dst = 0 ∧ zone.end_dst = 0 ∧
        wrap (clock - zone.timezone) < 0) := by
  have table := getusa_none (wrap_isInt (clock - zone.timezone))
  unfold localtime
  dsimp only
  cases zone.daylight with
  | false => simp
  | true =>
    simp only [↓reduceIte, true_and]
    unfold dstBounds
    by_cases usa : zone.start_dst = 0 ∧ zone.end_dst = 0
    · rw [if_pos usa]
      cases rule : getusa (gmtime (wrap (clock - zone.timezone))) with
      | none =>
        have := table.1 rule
        simp [usa, this]
      | some bounds =>
        have late : ¬wrap (clock - zone.timezone) < 0 := fun early => by
          rw [table.2 early] at rule
          cases rule
        dsimp only
        refine ⟨fun _ h => late h.2.2, fun _ => ?_⟩
        split
        · exact ⟨_, rfl⟩
        · exact ⟨_, rfl⟩
    · rw [if_neg usa]
      dsimp only
      refine ⟨fun _ h => usa ⟨h.1, h.2.1⟩, fun _ => ?_⟩
      split
      · exact ⟨_, rfl⟩
      · exact ⟨_, rfl⟩

/-- The conversions as a whole: mktime undoes localtime exactly when localtime
answers, gmtime is the Gregorian date and time, and without daylight saving
mktime gives the instant its fields denote exactly when the condition holds. -/
theorem mktime_inverts (zone : Zone) (clock : Int) (t : Tm) :
    (InTime clock →
      ((∃ t t', localtime zone clock = some t ∧ mktime zone t = some (t', clock)) ↔
        ¬(zone.daylight = true ∧ zone.start_dst = 0 ∧ zone.end_dst = 0 ∧
          wrap (clock - zone.timezone) < 0))) ∧
    (IsInt clock → Denotes clock (gmtime clock)) ∧
    (zone.daylight = false → IsInt t.tm_year → IsInt t.tm_mon →
      (Inverts zone t ↔ Meets zone t)) := by
  refine ⟨fun time => ?_, fun _ => gmtime_denotes clock,
    fun standard year mon => inverts_iff standard year mon⟩
  rw [← localtime_isSome]
  constructor
  · rintro ⟨t, t', result, -⟩
    exact ⟨t, result⟩
  · rintro ⟨t, result⟩
    exact ⟨t, t, result, mktime_localtime time result⟩

/-- Noon of 1 July 1990 in a zone of seven hours, as localtime gives it. -/
theorem mktime_inverts_noon :
    ∃ t t', localtime ⟨25200, 21600, true, 0, 0⟩ 646858800 = some t ∧
      mktime ⟨25200, 21600, true, 0, 0⟩ t = some (t', 646858800) :=
  ((mktime_inverts ⟨25200, 21600, true, 0, 0⟩ 646858800 ⟨0, 0, 0, 0, 0, 0, 0, 0, 0⟩).1 (by decide)).2
    (by decide)

/-- Month -12 of 1991 is January 1990, but is looked up behind the table. -/
theorem month_beyond_table :
    ¬ ∀ (zone : Zone) (t : Tm), zone.daylight = false → IsInt t.tm_year → IsInt t.tm_mon →
      Inverts zone t := by
  intro all
  have inverts := all ⟨0, 0, false, 0, 0⟩ ⟨0, 0, 0, 1, -12, 91, 0, 0, 0⟩ rfl
    ⟨by decide, by decide⟩ ⟨by decide, by decide⟩
  obtain ⟨t, result, -⟩ := inverts.1 (by decide)
  have nothing : mktime ⟨0, 0, false, 0, 0⟩ ⟨0, 0, 0, 1, -12, 91, 0, 0, 0⟩ = none := by decide
  rw [nothing] at result
  cases result

end Svr4.Clock
