import Mathlib

/-! Calendar time of the C library: gmtime, localtime and mktime, with a time
zone as a POSIX-style TZ value leaves it. Ints and longs are 32 bits wide: a
sum is reduced where it is stored or divided, and division truncates. -/

namespace Svr4.Clock

/-- A 32-bit int or long. -/
def wrap (x : Int) : Int := (x + 2 ^ 31) % 2 ^ 32 - 2 ^ 31

def quot (a c : Int) : Int := if 0 ≤ a then a / c else -(-a / c)

def rem (a c : Int) : Int := a - c * quot a c

def SEC_PER_MIN : Int := 60
def SEC_PER_HOUR : Int := 60 * 60
def SEC_PER_DAY : Int := 24 * 60 * 60
def SEC_PER_YEAR : Int := 365 * 24 * 60 * 60
def LEAP_TO_70 : Int := 70 / 4
def DAYS_PER_WEEK : Int := 7
def EPOCH_YEAR : Int := 1970
def EPOCH_WDAY : Int := 4
def TM_YEAR_BASE : Int := 1900

structure Tm where
  tm_sec : Int
  tm_min : Int
  tm_hour : Int
  tm_mday : Int
  tm_mon : Int
  tm_year : Int
  tm_wday : Int
  tm_yday : Int
  tm_isdst : Int
  deriving DecidableEq, Repr

/-- What _ltzset reads from TZ. -/
structure Zone where
  timezone : Int
  altzone : Int
  daylight : Bool
  start_dst : Int
  end_dst : Int
  deriving DecidableEq, Repr

def isleap (y : Int) : Bool := (rem y 4 = 0 ∧ rem y 100 ≠ 0) ∨ rem y 400 = 0

def year_lengths (yleap : Bool) : Int := if yleap then 366 else 365

def mon_lengths (yleap : Bool) : List Int :=
  if yleap then [31, 29, 31, 30, 31, 30, 31, 31, 30, 31, 30, 31]
  else [31, 28, 31, 30, 31, 30, 31, 31, 30, 31, 30, 31]

def yday_to_month : List Int := [0, 31, 59, 90, 120, 151, 181, 212, 243, 273, 304, 334]
def lyday_to_month : List Int := [0, 31, 60, 91, 121, 152, 182, 213, 244, 274, 305, 335]

section Offtime

/-- The two loops that bring the seconds into the day. -/
def intoDay : Nat → Int → Int → Int × Int
  | 0, days, r => (days, r)
  | fuel + 1, days, r =>
    if r < 0 then intoDay fuel (days - 1) (r + SEC_PER_DAY)
    else if SEC_PER_DAY ≤ r then intoDay fuel (days + 1) (r - SEC_PER_DAY)
    else (days, r)

def yearsUp : Nat → Int → Int → Int × Int
  | 0, y, days => (y, days)
  | fuel + 1, y, days =>
    if days < year_lengths (isleap y) then (y, days)
    else yearsUp fuel (y + 1) (days - year_lengths (isleap y))

/-- The body of the loop comes before its test. -/
def yearsDown : Nat → Int → Int → Int × Int
  | 0, y, days => (y, days)
  | fuel + 1, y, days =>
    let days := days + year_lengths (isleap (y - 1))
    if days < 0 then yearsDown fuel (y - 1) days else (y - 1, days)

def monthLoop : List Int → Int → Int → Int × Int
  | [], mon, days => (mon, days)
  | length :: ip, mon, days => if days < length then (mon, days) else monthLoop ip (mon + 1) (days - length)

/-- Each turn of a loop takes a day or more, which bounds it. -/
def offtime (clock offset : Int) : Tm :=
  let (days, r) := intoDay (quot (rem clock SEC_PER_DAY + offset) SEC_PER_DAY).natAbs.succ.succ
    (quot clock SEC_PER_DAY) (rem clock SEC_PER_DAY + offset)
  let wday := rem (EPOCH_WDAY + days) DAYS_PER_WEEK
  let (y, yday) := if 0 ≤ days then yearsUp (days.toNat + 1) EPOCH_YEAR days
    else yearsDown ((-days).toNat + 1) EPOCH_YEAR days
  let (mon, mday) := monthLoop (mon_lengths (isleap y)) 0 yday
  { tm_sec := rem (rem r SEC_PER_HOUR) SEC_PER_MIN
    tm_min := quot (rem r SEC_PER_HOUR) SEC_PER_MIN
    tm_hour := quot r SEC_PER_HOUR
    tm_mday := mday + 1
    tm_mon := mon
    tm_year := y - TM_YEAR_BASE
    tm_wday := if wday < 0 then wday + DAYS_PER_WEEK else wday
    tm_yday := yday
    tm_isdst := 0 }

end Offtime

def gmtime (clock : Int) : Tm := offtime clock 0

def year_size (a : Int) : Int := if rem a 4 = 0 then 366 else 365

def sunday (t : Tm) (d : Int) : Int :=
  let d := if 58 ≤ d then d + (year_size t.tm_year - 365) else d
  d - rem (d - t.tm_yday + t.tm_wday + 700) 7

structure Daytab where
  yrbgn : Int
  daylb : Int
  dayle : Int

def daytab : List Daytab :=
  [⟨87, 96, 303⟩, ⟨76, 119, 303⟩, ⟨75, 58, 303⟩, ⟨74, 5, 333⟩, ⟨70, 119, 303⟩]

/-- The first and last second of the year under the rule of the USA; before 1970
the loop leaves the table. -/
def getusa (t : Tm) : Option (Int × Int) :=
  (daytab.find? (fun e => e.yrbgn ≤ t.tm_year)).map fun e =>
    (sunday t e.daylb * SEC_PER_DAY + 2 * SEC_PER_HOUR, sunday t e.dayle * SEC_PER_DAY + SEC_PER_HOUR)

/-- The bounds of daylight saving in the year of t. -/
def dstBounds (zone : Zone) (t : Tm) : Option (Int × Int) :=
  if zone.start_dst = 0 ∧ zone.end_dst = 0 then getusa t else some (zone.start_dst, zone.end_dst)

def secondOfYear (t : Tm) : Int :=
  t.tm_sec + SEC_PER_MIN * t.tm_min + SEC_PER_HOUR * t.tm_hour + SEC_PER_DAY * t.tm_yday

/-- There is no answer where the table of rules is left. -/
def localtime (zone : Zone) (timep : Int) : Option Tm :=
  let tmp := gmtime (wrap (timep - zone.timezone))
  if zone.daylight then
    match dstBounds zone tmp with
    | none => none
    | some (daybegin, dayend) =>
      if daybegin ≤ secondOfYear tmp ∧ secondOfYear tmp < dayend then
        some { gmtime (wrap (timep - zone.altzone)) with tm_isdst := 1 }
      else some tmp
  else some tmp

/-- The year and month that mktime makes of a month outside the year. -/
def normalMonth (t : Tm) : Int × Int :=
  if 12 ≤ t.tm_mon then (wrap (t.tm_year + quot t.tm_mon 12), rem t.tm_mon 12)
  else if t.tm_mon < 0 then
    let temp := wrap (-t.tm_mon)
    (wrap (t.tm_year - (1 + quot temp 12)), 12 - rem temp 12)
  else (t.tm_year, t.tm_mon)

/-- An entry of a table of months, if the index lies within it. -/
def monthEntry (table : List Int) (mon : Int) : Option Int :=
  if 0 ≤ mon then table[mon.toNat]? else none

/-- The seconds that the fields add up to, before the time zone. -/
def fieldSum (t : Tm) : Option Int :=
  let (year, mon) := normalMonth t
  let secs := t.tm_sec + SEC_PER_MIN * t.tm_min + SEC_PER_HOUR * t.tm_hour +
    SEC_PER_DAY * (t.tm_mday - 1) + (SEC_PER_YEAR * (year - 70) +
    SEC_PER_DAY * (quot (wrap (year + 3)) 4 - 1 - LEAP_TO_70))
  (monthEntry (if rem year 4 = 0 then lyday_to_month else yday_to_month) mon).map
    fun days => secs + SEC_PER_DAY * days

/-- The struct tm afterwards and the answer. -/
def mktime (zone : Zone) (t : Tm) : Option (Tm × Int) := do
  let sum ← fieldSum t
  let secs := wrap (sum + if 0 < t.tm_isdst then zone.altzone else zone.timezone)
  let tptr ← localtime zone secs
  if t.tm_isdst < 0 then
    match dstBounds zone tptr with
    | none => none
    | some (daybegin, dayend) =>
      if daybegin ≤ secondOfYear tptr ∧ secondOfYear tptr < dayend then
        let secs := wrap (secs - (zone.timezone - zone.altzone))
        (localtime zone secs).map fun tptr => (tptr, if secs < 0 then -1 else secs)
      else some (tptr, if secs < 0 then -1 else secs)
  else some (tptr, if secs < 0 then -1 else secs)

end Svr4.Clock
