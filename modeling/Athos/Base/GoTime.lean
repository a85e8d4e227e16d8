import Mathlib.Algebra.Group.Int.Defs
import Mathlib.Data.Int.Basic

/-!
# Go times and durations

A `time.Duration` is a 64-bit count of nanoseconds whose arithmetic wraps. A `time.Time` counts
64-bit seconds from the year one, and `Add` stops at the last of them. Monotonic clock readings,
which do not change the instant, are left out.
-/

namespace Athos.Base

/-- A `time.Time`: the seconds since the year one and the nanoseconds within the second. -/
structure GoTime where
  sec : Int64
  nsec : Nat
  nsec_lt : nsec < 1000000000
  deriving DecidableEq

namespace GoTime

/-- The nanoseconds since the year one. -/
def instant (t : GoTime) : Int := t.sec.toInt * 1000000000 + t.nsec

/-- `addSec`: a sum that overflows is replaced by the nearest bound. -/
def addSec (sec d : Int64) : Int64 :=
  if decide (sec < sec + d) = decide (0 < d) then sec + d
  else if 0 < d then 9223372036854775807
  else -9223372036854775807

private theorem toNat_lt_of_lt {n : Int} (h : n < 1000000000) : n.toNat < 1000000000 := by omega

/-- The new seconds and nanoseconds of `Time.Add`: how many seconds to add, and how many
nanoseconds that leaves. -/
def carry (t : GoTime) (d : Int64) : Int64 × Int :=
  let n : Int := t.nsec + d.toInt.tmod 1000000000
  if 1000000000 ≤ n then (d / 1000000000 + 1, n - 1000000000)
  else if n < 0 then (d / 1000000000 - 1, n + 1000000000)
  else (d / 1000000000, n)

variable {t : GoTime} {d : Int64}

private theorem carry_spec (t : GoTime) (d : Int64) :
    (t.carry d).1.toInt * 1000000000 + (t.carry d).2 = t.nsec + d.toInt ∧
      0 ≤ (t.carry d).2 ∧ (t.carry d).2 < 1000000000 := by
  have hn := t.nsec_lt
  have h₁ := d.le_toInt
  have h₂ := d.toInt_lt
  have hdiv : (d / 1000000000).toInt = d.toInt.tdiv 1000000000 :=
    Int64.toInt_div_of_ne_right d 1000000000 (by decide)
  have hsplit := Int.mul_tdiv_add_tmod d.toInt 1000000000
  have hlt := Int.tmod_lt_of_pos d.toInt (by decide : (0 : Int) < 1000000000)
  have hgt := Int.lt_tmod_of_pos d.toInt (by decide : (0 : Int) < 1000000000)
  have hone : (1 : Int64).toInt = 1 := by decide
  simp only [carry]
  split_ifs with hge hneg
  · simp only [Int64.toInt_add, hdiv, hone]
    rw [Int.bmod_eq_of_le (by omega) (by omega)]
    omega
  · simp only [Int64.toInt_sub, hdiv, hone]
    rw [Int.bmod_eq_of_le (by omega) (by omega)]
    omega
  · simp only [hdiv]
    omega

/-- `Time.Add`. -/
def add (t : GoTime) (d : Int64) : GoTime :=
  ⟨addSec t.sec (t.carry d).1, (t.carry d).2.toNat, toNat_lt_of_lt (carry_spec t d).2.2⟩

/-- `Time.After`. -/
def after (t u : GoTime) : Bool := u.sec < t.sec || u.sec == t.sec && u.nsec < t.nsec

/-- `After` compares instants. -/
theorem after_iff {u : GoTime} : t.after u = true ↔ u.instant < t.instant := by
  have ht := t.nsec_lt
  have hu := u.nsec_lt
  simp only [after, Bool.or_eq_true, decide_eq_true_eq, Bool.and_eq_true, beq_iff_eq, instant,
    Int64.lt_iff_toInt_lt, ← Int64.toInt_inj]
  omega

/-- Times are equal if their instants are. -/
theorem instant_inj {u : GoTime} : t.instant = u.instant ↔ t = u := by
  have ht := t.nsec_lt
  have hu := u.nsec_lt
  rw [GoTime.mk.injEq, instant, instant, ← Int64.toInt_inj]
  omega

private theorem toInt_addSec (sec d : Int64) :
    (addSec sec d).toInt =
      if 2 ^ 63 ≤ sec.toInt + d.toInt then 2 ^ 63 - 1
      else if sec.toInt + d.toInt < -2 ^ 63 then -(2 ^ 63 - 1)
      else sec.toInt + d.toInt := by
  have h₁ := sec.le_toInt
  have h₂ := sec.toInt_lt
  have h₃ := d.le_toInt
  have h₄ := d.toInt_lt
  have hmax : (9223372036854775807 : Int64).toInt = 2 ^ 63 - 1 := by decide
  have hmin : (-9223372036854775807 : Int64).toInt = -(2 ^ 63 - 1) := by decide
  have hzero : (0 : Int64).toInt = 0 := by decide
  have hsum := Int64.toInt_add sec d
  rw [Int.bmod_def] at hsum
  unfold addSec
  simp only [decide_eq_decide, Int64.lt_iff_toInt_lt, hzero]
  split_ifs <;> omega

/-- What `Time.Add` does to the instant. -/
theorem instant_add (t : GoTime) (d : Int64) :
    (t.add d).instant =
      if 2 ^ 63 * 1000000000 ≤ t.instant + d.toInt then
        (2 ^ 63 - 1) * 1000000000 + (t.instant + d.toInt) % 1000000000
      else if t.instant + d.toInt < -2 ^ 63 * 1000000000 then
        -(2 ^ 63 - 1) * 1000000000 + (t.instant + d.toInt) % 1000000000
      else t.instant + d.toInt := by
  obtain ⟨hsum, h₀, h₁⟩ := carry_spec t d
  have heq : t.instant + d.toInt =
      (t.sec.toInt + (t.carry d).1.toInt) * 1000000000 + (t.carry d).2 := by
    unfold instant
    omega
  have hadd : (t.add d).instant =
      (addSec t.sec (t.carry d).1).toInt * 1000000000 + (t.carry d).2 := by
    rw [instant, add, Int.toNat_of_nonneg h₀]
  rw [hadd, toInt_addSec, heq]
  generalize (t.carry d).1.toInt = dsec
  generalize (t.carry d).2 = n at h₀ h₁
  split_ifs <;> omega

/-- `Time.Sub`: the difference, or the nearest bound if it does not fit. -/
def sub (t u : GoTime) : Int64 :=
  Int64.ofInt (max (-2 ^ 63) (min (2 ^ 63 - 1) (t.instant - u.instant)))

/-- `Sub` saturates. -/
theorem toInt_sub (t u : GoTime) :
    (t.sub u).toInt = max (-2 ^ 63) (min (2 ^ 63 - 1) (t.instant - u.instant)) := by
  exact Int64.toInt_ofInt_of_le (by omega) (by omega)

end GoTime

end Athos.Base
