import Athos.Base.Calendar
import Mathlib.Algebra.Group.Nat.Defs

/-!
# The next time of a day

`NextOccurrence` of `src/internal/timeutil/timeutil.go`. Its comment promises a time at or after the
given one; a given time that matches is passed over.
-/

namespace Athos.Timeutil

open Base GoTime

/-- `Day`; `timeutil.go:33`. -/
def day : Int64 := 86400000000000

/-- `NextOccurrence`; `timeutil.go:219-226`. -/
def nextOccurrence (start : GoTime) (hour minute : Int) : GoTime :=
  let candidate :=
    ofDate start.date.year start.date.month start.date.day hour minute 0 0
  if !candidate.after start then candidate.add day else candidate

/-- The clock shows hour and minute, and neither seconds nor parts of them. -/
def Reads (t : GoTime) (hour minute : Int) : Prop :=
  t.hour = hour ∧ t.minute = minute ∧ t.second = 0 ∧ t.nsec = 0

instance (t : GoTime) (hour minute : Int) : Decidable (Reads t hour minute) :=
  inferInstanceAs (Decidable (_ ∧ _))

/-- A time is the first at or after another one at which the clock shows hour and minute. -/
structure IsNext (start : GoTime) (hour minute : Int) (t : GoTime) : Prop where
  reads : Reads t hour minute
  le : start.instant ≤ t.instant
  least : ∀ u, Reads u hour minute → start.instant ≤ u.instant → t.instant ≤ u.instant

/-- The second at which the clock shows hour and minute on the day of a time. -/
def sameDay (start : GoTime) (hour minute : Int) : Int :=
  start.dayNumber * 86400 + hour * 3600 + minute * 60

/-- The second of that day, or of the next day if the first has passed. -/
def nextSecond (start : GoTime) (hour minute : Int) : Int :=
  if start.sec.toInt < sameDay start hour minute then sameDay start hour minute
  else sameDay start hour minute + 86400

section

variable {start t : GoTime} {hour minute : Int} (hhour : 0 ≤ hour ∧ hour ≤ 23)
  (hminute : 0 ≤ minute ∧ minute ≤ 59)

include hminute

private theorem reads_iff :
    Reads t hour minute ↔ t.sec.toInt % 86400 = hour * 3600 + minute * 60 ∧ t.nsec = 0 := by
  unfold Reads GoTime.hour GoTime.minute GoTime.second GoTime.clock
  omega

private theorem nextSecond_le (hnot : ¬ Reads start hour minute) (ht : Reads t hour minute)
    (hle : start.instant ≤ t.instant) : nextSecond start hour minute ≤ t.sec.toInt := by
  have hnsec := start.nsec_lt
  rw [reads_iff hminute] at hnot ht
  unfold instant at hle
  unfold nextSecond sameDay dayNumber
  split_ifs <;> omega

include hhour

private theorem isNext_iff (hnot : ¬ Reads start hour minute) :
    IsNext start hour minute t ↔ t.instant = nextSecond start hour minute * 1000000000 := by
  have hnsec := t.nsec_lt
  have hstart := start.nsec_lt
  have hlow := start.sec.le_toInt
  have hafter : start.sec.toInt < nextSecond start hour minute := by
    unfold nextSecond sameDay dayNumber
    split_ifs <;> omega
  have hclock : nextSecond start hour minute % 86400 = hour * 3600 + minute * 60 := by
    unfold nextSecond sameDay dayNumber
    split_ifs <;> omega
  constructor
  · intro h
    have hle := nextSecond_le hminute hnot h.reads h.le
    have hhigh := t.sec.toInt_lt
    let u : GoTime := ⟨Int64.ofInt (nextSecond start hour minute), 0, Nat.succ_pos _⟩
    have hsec : u.sec.toInt = nextSecond start hour minute :=
      Int64.toInt_ofInt_of_le (by omega) (by omega)
    have hzero : u.nsec = 0 := rfl
    have hu := h.least u ((reads_iff hminute).2 ⟨by omega, rfl⟩) <| by
      rw [instant, instant, hsec]
      omega
    rw [instant, instant, hsec] at hu
    rw [instant]
    omega
  · intro h
    rw [instant] at h
    refine ⟨(reads_iff hminute).2 ⟨by omega, by omega⟩, ?_, fun u hu hle => ?_⟩
    · rw [instant, instant]
      omega
    · have hsec := nextSecond_le hminute hnot hu hle
      rw [instant, instant]
      omega

end

private theorem instant_candidate (start : GoTime) (hour minute : Int) :
    (ofDate start.date.year start.date.month start.date.day hour minute 0 0).instant =
      (sameDay start hour minute).bmod (2 ^ 64) * 1000000000 := by
  rw [ofDate_date, Int.add_zero, instant, Int64.toInt_ofInt]
  exact Int.add_zero _

private theorem instant_nextOccurrence (start : GoTime) (hour minute : Int) :
    (nextOccurrence start hour minute).instant =
      let candidate := (sameDay start hour minute).bmod (2 ^ 64)
      if start.instant < candidate * 1000000000 then candidate * 1000000000
      else if 2 ^ 63 ≤ candidate + 86400 then (2 ^ 63 - 1) * 1000000000
      else (candidate + 86400) * 1000000000 := by
  have hcandidate := instant_candidate start hour minute
  have hday : day.toInt = 86400000000000 := by decide
  have hlow := Int.le_bmod (x := sameDay start hour minute) (m := 2 ^ 64) (by decide)
  simp only [nextOccurrence]
  by_cases hafter : start.instant < (sameDay start hour minute).bmod (2 ^ 64) * 1000000000
  · have htrue := after_iff.2 (hcandidate ▸ hafter)
    rw [htrue, if_pos hafter, ← hcandidate]
    rfl
  · have hfalse := mt after_iff.1 (hcandidate ▸ hafter)
    rw [Bool.eq_false_iff.2 hfalse, if_neg hafter, Bool.not_false, if_pos rfl,
      instant_add, hcandidate, hday]
    split_ifs <;> omega

/-- The result is the next time exactly if the given time does not show hour and minute itself,
and the seconds that are compared can be represented. -/
theorem next_occurrence_iff (start : GoTime) {hour minute : Int} (hhour : 0 ≤ hour ∧ hour ≤ 23)
    (hminute : 0 ≤ minute ∧ minute ≤ 59) :
    IsNext start hour minute (nextOccurrence start hour minute) ↔
      ¬ Reads start hour minute ∧ -2 ^ 63 ≤ sameDay start hour minute ∧
        nextSecond start hour minute < 2 ^ 63 := by
  have hnsec := start.nsec_lt
  have hlow := start.sec.le_toInt
  have hhigh := start.sec.toInt_lt
  have hday : start.dayNumber * 86400 = start.sec.toInt - start.sec.toInt % 86400 := by
    unfold dayNumber
    omega
  have hbmod : (sameDay start hour minute).bmod (2 ^ 64) =
      if sameDay start hour minute < -2 ^ 63 then sameDay start hour minute + 2 ^ 64
      else if sameDay start hour minute < 2 ^ 63 then sameDay start hour minute
      else sameDay start hour minute - 2 ^ 64 := by
    rw [Int.bmod_def]
    unfold sameDay
    split_ifs <;> omega
  have hinstant := instant_nextOccurrence start hour minute
  simp only [hbmod] at hinstant
  by_cases hreads : Reads start hour minute
  · -- the given time is the next one, but the result is a day later
    refine iff_of_false (fun hnext => ?_) fun h => h.1 hreads
    have hle := hnext.least start hreads (Int.le_refl _)
    rw [reads_iff hminute] at hreads
    unfold sameDay instant at *
    split_ifs at hinstant <;> omega
  · rw [isNext_iff hhour hminute hreads, hinstant, and_iff_right hreads]
    unfold nextSecond sameDay instant at *
    split_ifs <;> omega

/-- 10 May 2024, 9:00. -/
def sampleMorning : GoTime := ofDate 2024 5 10 9 0 0 0

/-- Later on the same day. -/
theorem next_occurrence_later :
    IsNext sampleMorning 14 30 (nextOccurrence sampleMorning 14 30) ∧
      nextOccurrence sampleMorning 14 30 = ofDate 2024 5 10 14 30 0 0 :=
  ⟨(next_occurrence_iff sampleMorning (by decide) (by decide)).2 (by decide), by decide⟩

/-- The next 9:00 at or after 9:00 is that time itself, and not the one of the next day. -/
theorem next_occurrence_skips :
    Reads sampleMorning 9 0 ∧
      nextOccurrence sampleMorning 9 0 = ofDate 2024 5 11 9 0 0 0 ∧
      ¬ IsNext sampleMorning 9 0 (nextOccurrence sampleMorning 9 0) := by
  have hreads : Reads sampleMorning 9 0 := by decide
  have hresult : nextOccurrence sampleMorning 9 0 = ofDate 2024 5 11 9 0 0 0 := by decide
  refine ⟨hreads, hresult, fun hnext => ?_⟩
  have hle := hnext.least sampleMorning hreads (Int.le_refl _)
  rw [hresult] at hle
  exact absurd hle (by decide)

end Athos.Timeutil
