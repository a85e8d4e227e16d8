import Athos.Base.GoTime

/-!
# The civil calendar

Days are counted from the first of January of the year one, by the rules of the Gregorian calendar
for all years before and after. `Date` of the Go package `time` accepts any numbers and carries what
is out of range over to the next unit; the fields of a `time.Time` are those of UTC. The arithmetic
of that package wraps before the year −292277022399, which is left out.
-/

namespace Athos.Base

open List

/-- A day of the calendar; month and day count from one. -/
structure Date where
  year : Int
  month : Nat
  day : Nat
  deriving DecidableEq

namespace Date

/-- `isLeap`. -/
def isLeap (year : Int) : Bool := year % 4 = 0 ∧ (year % 100 ≠ 0 ∨ year % 400 = 0)

/-- The days before a year. -/
def daysBeforeYear (year : Int) : Int :=
  365 * (year - 1) + (year - 1) / 4 - (year - 1) / 100 + (year - 1) / 400

/-- `daysBefore`: the days of a year before a month, here counted from zero. -/
def daysBefore (leap : Bool) (month : Nat) : Nat :=
  [0, 31, 59, 90, 120, 151, 181, 212, 243, 273, 304, 334, 365].getD month 0 +
    if leap = true ∧ 2 ≤ month then 1 else 0

/-- The days before a date. -/
def toDays (d : Date) : Int :=
  daysBeforeYear d.year + daysBefore (isLeap d.year) (d.month - 1) + d.day - 1

/-- The month of a day of the year, counted from zero. -/
def monthOf (leap : Bool) (yday : Nat) : Nat :=
  (List.range 11).countP fun m => daysBefore leap (m + 1) ≤ yday

/-- The year of a day and the days of that year before it: years come in cycles of 400, 100, 4
and 1, and the last of a cycle is the longer one. -/
def splitYear (days : Int) : Int × Nat :=
  let cycle := days % 146097
  let century := min (cycle / 36524) 3
  let leaps := (cycle - 36524 * century) / 1461
  let rest := cycle - 36524 * century - 1461 * leaps
  let single := min (rest / 365) 3
  (400 * (days / 146097) + 100 * century + 4 * leaps + single + 1, (rest - 365 * single).toNat)

/-- The date after so many days. -/
def ofDays (days : Int) : Date :=
  let (year, yday) := splitYear days
  let month := monthOf (isLeap year) yday
  ⟨year, month + 1, yday - daysBefore (isLeap year) month + 1⟩

/-- The days of a year. -/
def yearLength (year : Int) : Int := if isLeap year then 366 else 365

private theorem daysBeforeYear_succ (year : Int) :
    daysBeforeYear (year + 1) = daysBeforeYear year + yearLength year := by
  unfold daysBeforeYear yearLength isLeap
  split_ifs with h
  · simp only [decide_eq_true_eq] at h
    omega
  · simp only [decide_eq_true_eq] at h
    omega

private theorem daysBeforeYear_le {y z : Int} (h : y ≤ z) :
    daysBeforeYear y ≤ daysBeforeYear z := by
  unfold daysBeforeYear
  omega

private theorem splitYear_cycles (days : Int) :
    ∃ era century leaps single : Int, ∃ yday : Nat,
      splitYear days = (400 * era + 100 * century + 4 * leaps + single + 1, yday) ∧
      days = 146097 * era + 36524 * century + 1461 * leaps + 365 * single + yday ∧
      (0 ≤ century ∧ century ≤ 3) ∧ (0 ≤ leaps ∧ leaps ≤ 24) ∧ (0 ≤ single ∧ single ≤ 3) ∧
      (yday < 365 ∨ yday = 365 ∧ single = 3 ∧ (leaps = 24 → century = 3)) := by
  have hsplit := Int.mul_ediv_add_emod days 146097
  have hcycle := Int.emod_nonneg days (b := 146097) (by decide)
  have hlt := Int.emod_lt_of_pos days (b := 146097) (by decide)
  refine ⟨days / 146097, _, _, _, _, rfl, ?_⟩
  generalize days / 146097 = era at *
  generalize days % 146097 = cycle at *
  have hcentury : 0 ≤ min (cycle / 36524) 3 ∧ min (cycle / 36524) 3 ≤ 3 ∧
      0 ≤ cycle - 36524 * min (cycle / 36524) 3 ∧
      (cycle - 36524 * min (cycle / 36524) 3 < 36524 ∨
        min (cycle / 36524) 3 = 3 ∧ cycle - 36524 * min (cycle / 36524) 3 ≤ 36524) := by
    omega
  generalize min (cycle / 36524) 3 = century at *
  generalize hrest : cycle - 36524 * century = rest at *
  have hleaps := Int.mul_ediv_add_emod rest 1461
  have hnonneg := Int.emod_nonneg rest (b := 1461) (by decide)
  have hlt' := Int.emod_lt_of_pos rest (b := 1461) (by decide)
  have hlast : rest - 1461 * (rest / 1461) = rest % 1461 := by omega
  rw [hlast]
  generalize rest / 1461 = leaps at *
  generalize rest % 1461 = last at *
  have hsingle : 0 ≤ min (last / 365) 3 ∧ min (last / 365) 3 ≤ 3 ∧
      0 ≤ last - 365 * min (last / 365) 3 ∧
      (last - 365 * min (last / 365) 3 < 365 ∨
        min (last / 365) 3 = 3 ∧ last - 365 * min (last / 365) 3 = 365) := by
    omega
  generalize min (last / 365) 3 = single at *
  omega

private theorem splitYear_spec (days : Int) :
    daysBeforeYear (splitYear days).1 + (splitYear days).2 = days ∧
      (splitYear days).2 < yearLength (splitYear days).1 := by
  obtain ⟨era, century, leaps, single, yday, heq, hdays, hcentury, hleaps, hsingle, hyday⟩ :=
    splitYear_cycles days
  rw [heq]
  unfold daysBeforeYear yearLength isLeap
  simp only [decide_eq_true_eq]
  constructor
  · omega
  · split_ifs <;> omega

private theorem daysBefore_le (leap : Bool) :
    ∀ n ≤ 12, ∀ m ≤ n, daysBefore leap m ≤ daysBefore leap n := by
  cases leap with
  | false => decide +kernel
  | true => decide +kernel

private theorem countP_steps {f : Nat → Nat} {y : Nat} (hzero : f 0 ≤ y) :
    ∀ n, (∀ m ≤ n, ∀ k ≤ m, f k ≤ f m) →
      let c := (List.range n).countP fun m => f (m + 1) ≤ y
      c ≤ n ∧ f c ≤ y ∧ (c < n → y < f (c + 1)) := by
  intro n
  induction n with
  | zero => exact fun _ => ⟨Nat.le_refl 0, hzero, fun h => absurd h (Nat.lt_irrefl 0)⟩
  | succ n ih =>
    intro hf
    obtain ⟨hle, hbelow, habove⟩ := ih fun m hm => hf m (Nat.le_succ_of_le hm)
    simp only [range_succ, List.countP_append, countP_singleton, decide_eq_true_eq]
    split_ifs with hlast
    · -- The last step is below the bound, and so are all others.
      have hall : ((List.range n).countP fun m => f (m + 1) ≤ y) = n := by
        refine (countP_eq_length.2 fun m hm => decide_eq_true ?_).trans length_range
        have hm := Nat.le_of_lt (mem_range.1 hm)
        exact Nat.le_trans (hf (n + 1) (Nat.le_refl _) (m + 1) (Nat.succ_le_succ hm)) hlast
      rw [hall]
      exact ⟨Nat.le_refl _, hlast, fun h => absurd h (Nat.lt_irrefl _)⟩
    · refine ⟨by omega, hbelow, fun _ => ?_⟩
      by_cases hlt : ((List.range n).countP fun m => f (m + 1) ≤ y) < n
      · exact habove hlt
      · rw [Nat.le_antisymm hle (Nat.le_of_not_lt hlt)]
        exact Nat.lt_of_not_le hlast

private theorem monthOf_spec (leap : Bool) (yday : Nat) (h : yday < if leap then 366 else 365) :
    monthOf leap yday < 12 ∧ daysBefore leap (monthOf leap yday) ≤ yday ∧
      yday < daysBefore leap (monthOf leap yday + 1) := by
  have hzero : daysBefore leap 0 ≤ yday := by simp [daysBefore]
  obtain ⟨hle, hbelow, habove⟩ := countP_steps hzero 11
    fun m hm => daysBefore_le leap m (Nat.le_succ_of_le hm)
  refine ⟨Nat.lt_succ_of_le hle, hbelow, ?_⟩
  by_cases hlast : monthOf leap yday < 11
  · exact habove hlast
  · have hyear : daysBefore leap 12 = if leap then 366 else 365 := by cases leap <;> rfl
    have heleven : monthOf leap yday = 11 := Nat.le_antisymm hle (Nat.le_of_not_lt hlast)
    rw [heleven, hyear]
    exact h

private theorem daysBefore_succ_le (leap : Bool) :
    ∀ m < 12, daysBefore leap (m + 1) ≤ daysBefore leap m + 31 := by
  cases leap with
  | false => decide +kernel
  | true => decide +kernel

/-- Where a date stands in its year. -/
structure InYear (d : Date) (yday : Nat) : Prop where
  month_pos : 1 ≤ d.month
  month_le : d.month ≤ 12
  day_pos : 1 ≤ d.day
  yday_eq : yday + 1 = daysBefore (isLeap d.year) (d.month - 1) + d.day
  yday_lt : yday < daysBefore (isLeap d.year) d.month
  yday_lt_year : yday < yearLength d.year

/-- A day number is that of its date: the days before the year and the day of the year. -/
theorem inYear_ofDays (n : Int) :
    ∃ yday : Nat, (ofDays n).InYear yday ∧ daysBeforeYear (ofDays n).year + yday = n := by
  obtain ⟨hdays, hlt⟩ := splitYear_spec n
  obtain ⟨hmonth, hstart, hend⟩ := monthOf_spec (isLeap (splitYear n).1) (splitYear n).2 <| by
    unfold yearLength at hlt
    split_ifs at hlt ⊢ <;> omega
  refine ⟨(splitYear n).2, ⟨?_, ?_, ?_, ?_, hend, hlt⟩, hdays⟩
  · exact Nat.succ_pos _
  · exact hmonth
  · exact Nat.succ_pos _
  · simp only [ofDays, Nat.add_sub_cancel]
    omega

/-- No month has more than 31 days. -/
theorem day_ofDays_le (n : Int) : (ofDays n).day ≤ 31 := by
  obtain ⟨yday, hyear, -⟩ := inYear_ofDays n
  have hpos := hyear.month_pos
  have hle := hyear.month_le
  have heq := hyear.yday_eq
  have hlt := hyear.yday_lt
  have hmonth := daysBefore_succ_le (isLeap (ofDays n).year) ((ofDays n).month - 1) (by omega)
  rw [Nat.sub_add_cancel hpos] at hmonth
  omega

private theorem toDays_ofDays (n : Int) : (ofDays n).toDays = n := by
  obtain ⟨yday, hyear, hdays⟩ := inYear_ofDays n
  have heq := hyear.yday_eq
  rw [toDays]
  omega

/-- Dates in the order of year, month and day. -/
def Before (d e : Date) : Prop :=
  d.year < e.year ∨ d.year = e.year ∧
    (d.month < e.month ∨ d.month = e.month ∧ d.day < e.day)

private theorem lt_of_before {m n : Int} (h : (ofDays m).Before (ofDays n)) : m < n := by
  obtain ⟨i, hi, hm⟩ := inYear_ofDays m
  obtain ⟨j, hj, hn⟩ := inYear_ofDays n
  have hieq := hi.yday_eq
  have hjeq := hj.yday_eq
  have hday := hj.day_pos
  rcases h with hyear | ⟨hyear, hmonth | ⟨hmonth, hlt⟩⟩
  · have hsucc := daysBeforeYear_succ (ofDays m).year
    have hle := daysBeforeYear_le (Int.add_one_le_of_lt hyear)
    have hlength := hi.yday_lt_year
    omega
  · have hend := hi.yday_lt
    have hle := daysBefore_le (isLeap (ofDays n).year) ((ofDays n).month - 1)
      (by have := hj.month_le; omega) (ofDays m).month (by omega)
    rw [hyear] at hend hm
    omega
  · rw [hyear, hmonth] at hieq
    rw [hyear] at hm
    omega

/-- Dates come in the order of their days. -/
theorem before_ofDays_iff {m n : Int} : (ofDays m).Before (ofDays n) ↔ m < n := by
  refine ⟨lt_of_before, fun hlt => ?_⟩
  by_contra hnot
  have hcases : ofDays m = ofDays n ∨ (ofDays n).Before (ofDays m) := by
    cases hm : ofDays m
    cases hn : ofDays n
    simp only [hm, hn, Before, Date.mk.injEq] at hnot ⊢
    omega
  rcases hcases with heq | hbefore
  · have := toDays_ofDays m
    rw [heq, toDays_ofDays] at this
    omega
  · have := lt_of_before hbefore
    omega

end Date

namespace GoTime

/-- The day of a time. -/
def dayNumber (t : GoTime) : Int := t.sec.toInt / 86400

/-- The seconds of the day before a time. -/
def clock (t : GoTime) : Nat := (t.sec.toInt % 86400).toNat

/-- `Year`, `Month` and `Day`. -/
def date (t : GoTime) : Date := Date.ofDays t.dayNumber

/-- `Hour`. -/
def hour (t : GoTime) : Nat := t.clock / 3600

/-- `Minute`. -/
def minute (t : GoTime) : Nat := t.clock % 3600 / 60

/-- `Second`. -/
def second (t : GoTime) : Nat := t.clock % 60

/-- `Weekday`; Sunday is zero, and the first day of the year one was a Monday. -/
def weekday (t : GoTime) : Nat := ((t.dayNumber + 1) % 7).toNat

private theorem toNat_emod_lt (n : Int) : (n % 1000000000).toNat < 1000000000 := by omega

/-- `Date` in UTC. -/
def ofDate (year month day hour min sec nsec : Int) : GoTime :=
  let year := year + (month - 1) / 12
  let days := Date.daysBeforeYear year +
    Date.daysBefore (Date.isLeap year) ((month - 1) % 12).toNat + (day - 1)
  ⟨Int64.ofInt (days * 86400 + hour * 3600 + min * 60 + sec + nsec / 1000000000),
    (nsec % 1000000000).toNat, toNat_emod_lt nsec⟩

variable (t : GoTime)

/-- The seconds of a time are those of its days and of its clock. -/
theorem sec_eq : t.sec.toInt = t.dayNumber * 86400 + t.clock := by
  unfold dayNumber clock
  omega

/-- A clock shows less than a day. -/
theorem clock_lt : t.clock < 86400 := by
  unfold clock
  omega

/-- A time of the day of another time. -/
theorem ofDate_date (hour min sec : Int) :
    ofDate t.date.year t.date.month t.date.day hour min sec 0 =
      ⟨Int64.ofInt (t.dayNumber * 86400 + hour * 3600 + min * 60 + sec), 0, Nat.succ_pos _⟩ := by
  obtain ⟨yday, hyear, -⟩ := Date.inYear_ofDays t.dayNumber
  have hpos := hyear.month_pos
  have hle := hyear.month_le
  have hdays : t.date.toDays = t.dayNumber := Date.toDays_ofDays _
  rw [Date.toDays] at hdays
  have hcarry : t.date.year + (t.date.month - 1 : Int) / 12 = t.date.year := by
    unfold date
    omega
  have hmonth : ((t.date.month - 1 : Int) % 12).toNat = t.date.month - 1 := by
    unfold date
    omega
  simp only [ofDate, hcarry, hmonth, mk.injEq]
  constructor
  · congr 1
    omega
  · rfl

/-- The fields of a time lead back to it, but for the nanoseconds. -/
theorem ofDate_fields :
    ofDate t.date.year t.date.month t.date.day t.hour t.minute t.second 0 =
      { t with nsec := 0, nsec_lt := Nat.succ_pos _ } := by
  have hsec : t.dayNumber * 86400 + (t.hour : Int) * 3600 + (t.minute : Int) * 60 + t.second =
      t.sec.toInt := by
    rw [sec_eq]
    unfold hour minute second
    omega
  rw [ofDate_date, hsec, Int64.ofInt_toInt]

/-- Hours are below 24. -/
theorem hour_lt : t.hour < 24 := by
  have := t.clock_lt
  unfold hour
  omega

/-- Minutes are below 60. -/
theorem minute_lt : t.minute < 60 := by
  unfold minute
  omega

/-- Seconds are below 60. -/
theorem second_lt : t.second < 60 := by
  unfold second
  omega

end GoTime

end Athos.Base
