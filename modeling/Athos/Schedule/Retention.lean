import Athos.Base.GoTime
import Athos.Schedule.Scheduler

/-!
# Expiry of backups

`ExpiresAt` and `IsExpired` of `src/internal/scheduler/scheduler.go`. A policy holds any positive
64-bit number of days, but its duration is computed in 64-bit nanoseconds, which wrap around after
106751 days.
-/

namespace Athos.Scheduler

open Base

namespace RetentionPolicy

/-- The duration `time.Duration(r.Days) * 24 * time.Hour`. -/
def duration (r : RetentionPolicy) : Int64 := Int64.ofInt r.days * 24 * 3600000000000

/-- `ExpiresAt`; `scheduler.go:74-79`. -/
def expiresAt (r : RetentionPolicy) (startTime : GoTime) : Except GoString GoTime :=
  if 0 < r.days then .ok (startTime.add r.duration)
  else .error (lit "count-based retention does not have a fixed expiry time")

/-- `IsExpired`; `scheduler.go:82-88`. -/
def isExpired (r : RetentionPolicy) (startTime now : GoTime) : Bool :=
  if 0 < r.days then
    let expiry := startTime.add r.duration
    now.after expiry
  else false

/-- When a backup should expire: 24 hours for each day, counted without bounds. -/
def dueAt (r : RetentionPolicy) (startTime : GoTime) : Int :=
  startTime.instant + r.days * (24 * 3600000000000)

/-- The policy expires backups that were started at a time exactly when it should. -/
structure Exact (r : RetentionPolicy) (startTime : GoTime) : Prop where
  expiresAt : ∃ expiry, r.expiresAt startTime = .ok expiry ∧ expiry.instant = r.dueAt startTime
  isExpired : ∀ now, r.isExpired startTime now = true ↔ r.dueAt startTime < now.instant
  fresh : ∀ now, now.instant ≤ startTime.instant → r.isExpired startTime now = false

variable {T : RuneTables} {r : RetentionPolicy}

private theorem toInt_duration (hpos : 0 < r.days) (hlt : r.days < 2 ^ 63) :
    r.duration.toInt = (r.days * (24 * 3600000000000)).bmod (2 ^ 64) := by
  have hdays : (Int64.ofInt r.days).toInt = r.days :=
    Int64.toInt_ofInt_of_le (by omega) hlt
  have hhours : (24 : Int64).toInt = 24 := by decide
  have hnanos : (3600000000000 : Int64).toInt = 3600000000000 := by decide
  rw [duration, Int64.toInt_mul, Int64.toInt_mul, hdays, hhours, hnanos, Int.bmod_mul_bmod,
    Int.mul_assoc]

private theorem toInt_duration_cases (hpos : 0 < r.days) (hlt : r.days < 2 ^ 63) :
    (r.duration.toInt = r.days * (24 * 3600000000000) ∧ r.days ≤ 106751) ∨
      (r.duration.toInt < 2 ^ 63 ∧ 106751 < r.days) := by
  by_cases hdays : r.days ≤ 106751
  · left
    rw [toInt_duration hpos hlt, Int.bmod_eq_of_le (by omega) (by omega)]
    exact ⟨rfl, hdays⟩
  · exact .inr ⟨r.duration.toInt_lt, by omega⟩

private theorem instant_add_duration_iff (startTime : GoTime) (hpos : 0 < r.days)
    (hlt : r.days < 2 ^ 63) :
    (startTime.add r.duration).instant = r.dueAt startTime ↔
      r.days ≤ 106751 ∧ startTime.sec.toInt + r.days * 86400 < 2 ^ 63 := by
  have hsec := startTime.sec.le_toInt
  have hnsec := startTime.nsec_lt
  have hinstant : startTime.instant =
      startTime.sec.toInt * 1000000000 + startTime.nsec := rfl
  rw [GoTime.instant_add, dueAt]
  rcases toInt_duration_cases hpos hlt with ⟨hdur, hdays⟩ | ⟨hdur, hdays⟩
  · rw [hdur]
    constructor
    · intro h
      split_ifs at h <;> omega
    · rintro ⟨-, hbound⟩
      rw [if_neg (by omega), if_neg (by omega)]
  · constructor
    · intro h
      split_ifs at h <;> omega
    · omega

end RetentionPolicy

private theorem retentionNumber_range {T : RuneTables} {number policy kind : GoString} {n : Int}
    (h : retentionNumber T number policy kind = .ok n) : n < 2 ^ 63 := by
  cases hn : atoi number with
  | none => simp [retentionNumber, hn] at h
  | some m =>
    simp only [retentionNumber, hn] at h
    split_ifs at h
    obtain rfl : m = n := by simpa using h
    exact (atoi_range hn).2

private theorem days_lt_of_parse {T : RuneTables} {s : GoString} {r : RetentionPolicy}
    (h : parseRetentionPolicy T s = .ok r) : r.days < 2 ^ 63 := by
  simp only [parseRetentionPolicy] at h
  split_ifs at h with hnil hday
  · cases hn : retentionNumber T (trimSpace s).dropLast (trimSpace s) (lit "day-based") with
    | error e => simp [hn, bind, Except.bind] at h
    | ok n =>
      obtain rfl : { days := n } = r := by simpa [hn, bind, Except.bind, pure, Except.pure] using h
      exact retentionNumber_range hn
  · cases hn : retentionNumber T (trimSpace s) (trimSpace s) (lit "count-based") with
    | error e => simp [hn, bind, Except.bind] at h
    | ok n =>
      obtain rfl : { count := n } = r := by simpa [hn, bind, Except.bind, pure, Except.pure] using h
      exact Int.pow_pos (by decide)

/-- A number of days that was read is kept exactly if its nanoseconds fit into 64 bits and the
expiry is not past the last second that can be represented. -/
theorem retention_exact_iff {T : RuneTables} {s : GoString} {r : RetentionPolicy}
    (hr : parseRetentionPolicy T s = .ok r) (hdays : 0 < r.days) (startTime : GoTime) :
    r.Exact startTime ↔ r.days ≤ 106751 ∧ startTime.sec.toInt + r.days * 86400 < 2 ^ 63 := by
  rw [← RetentionPolicy.instant_add_duration_iff startTime hdays (days_lt_of_parse hr)]
  constructor
  · intro h
    obtain ⟨expiry, hexpiry, heq⟩ := h.expiresAt
    rw [RetentionPolicy.expiresAt, if_pos hdays, Except.ok.injEq] at hexpiry
    rw [hexpiry]
    exact heq
  · intro heq
    have hafter : ∀ now, r.isExpired startTime now = true ↔ r.dueAt startTime < now.instant := by
      intro now
      rw [RetentionPolicy.isExpired, if_pos hdays, GoTime.after_iff, heq]
    refine ⟨⟨_, if_pos hdays, heq⟩, hafter, ?_⟩
    intro now hnow
    rw [Bool.eq_false_iff, Ne, hafter, RetentionPolicy.dueAt]
    omega

/-- A start time in the year 2024. -/
def sampleStart : GoTime := ⟨63839000000, 0, Nat.succ_pos _⟩

/-- A week is counted exactly. -/
theorem retention_exact_week :
    parseRetentionPolicy .basic (lit "7d") = .ok { days := 7 } ∧
      ({ days := 7 } : RetentionPolicy).Exact sampleStart := by
  have hparse : parseRetentionPolicy .basic (lit "7d") = .ok { days := 7 } := by decide +kernel
  exact ⟨hparse, (retention_exact_iff hparse (by decide) sampleStart).2 (by decide)⟩

/-- A backup that is kept for 106752 days has expired when it starts. -/
theorem retention_expires_fresh :
    parseRetentionPolicy .basic (lit "106752d") = .ok { days := 106752 } ∧
      ({ days := 106752 } : RetentionPolicy).isExpired sampleStart sampleStart = true ∧
      ¬ ({ days := 106752 } : RetentionPolicy).Exact sampleStart := by
  have hparse : parseRetentionPolicy .basic (lit "106752d") = .ok { days := 106752 } := by
    decide +kernel
  have hexpired :
      ({ days := 106752 } : RetentionPolicy).isExpired sampleStart sampleStart = true := by decide
  refine ⟨hparse, hexpired, ?_⟩
  intro h
  have hfresh := h.fresh sampleStart (Int.le_refl _)
  rw [hexpired] at hfresh
  cases hfresh

end Athos.Scheduler
