import Athos.Base.Decimal
import Mathlib.Data.Int.Log
import Mathlib.Data.Rat.Floor

/-!
# Floating-point numbers

The finite values of a Go `float64` are rationals, and every operation rounds its exact result to
the nearest of them, at a tie to that with an even last bit. A result that is out of range is none.
Signed zeros are not told apart.
-/

namespace Athos.Base

open List

namespace Float64

/-- The nearest integer, and at a tie the even one. -/
def roundEven (q : Rat) : Int :=
  if q - q.floor < 1 / 2 then q.floor
  else if 1 / 2 < q - q.floor then q.floor + 1
  else if q.floor % 2 = 0 then q.floor
  else q.floor + 1

/-- The exponent of the last of the 53 bits of a number, of which the least is −1074. -/
def lastBit (q : Rat) : Int := max (Int.log 2 |q| - 52) (-1074)

/-- The nearest `float64`, or none if it is out of range. -/
def round (q : Rat) : Option Rat :=
  let r : Rat := 2 ^ lastBit q * (roundEven (q / 2 ^ lastBit q) : Rat)
  if |r| < 2 ^ 1024 then some r else none

/-- The conversion to `int64`, which drops the fraction. Out of range the language leaves the
result to the processor; here it is that of the AMD64 instruction. -/
def toInt64 : Option Rat → Int64
  | none => Int64.minValue
  | some q =>
    let n := q.num.tdiv q.den
    if -2 ^ 63 ≤ n ∧ n < 2 ^ 63 then Int64.ofInt n else Int64.minValue

/-- `strconv.ParseFloat` on digits and points after an optional minus sign; `none` is any
error. -/
def parse (s : GoString) : Option Rat :=
  let sign : Rat := if s.head? = some 0x2D then -1 else 1
  let body := if s.head? = some 0x2D then s.tail else s
  let whole := body.takeWhile isDigitByte
  match body.dropWhile isDigitByte with
  | [] => if whole = [] then none else round (sign * digitsValue whole)
  | c :: fraction =>
    if c ≠ 0x2E ∨ ¬ fraction.all isDigitByte ∨ (whole = [] ∧ fraction = []) then none
    else round (sign * (digitsValue (whole ++ fraction) / 10 ^ fraction.length))

private theorem roundEven_intCast (z : Int) : roundEven z = z := by
  rw [roundEven, Rat.floor_intCast, sub_self, if_pos (by norm_num)]

private theorem lastBit_intCast_le {z : Int} {k : Nat} (hz : |z| < 2 ^ (53 + k)) :
    lastBit z ≤ k := by
  have hlog : Int.log 2 |(z : Rat)| < 53 + k := by
    rcases eq_or_ne z 0 with rfl | hne
    · rw [Int.cast_zero, abs_zero, Int.log_zero_right]
      omega
    · have hpos : 0 < |(z : Rat)| := abs_pos.2 (Int.cast_ne_zero.2 hne)
      refine (Int.lt_zpow_iff_log_lt (by decide) hpos).1 ?_
      exact_mod_cast hz
  unfold lastBit
  omega

/-- Integers of 53 bits, with as many zeros after them as the range allows, are not rounded. -/
theorem round_intCast {z : Int} {k : Nat} (hdvd : 2 ^ k ∣ z) (hz : |z| < 2 ^ (53 + k))
    (hk : k ≤ 971) : round z = some (z : Rat) := by
  obtain ⟨n, hn⟩ : ∃ n : Nat, (k : Int) = lastBit z + n :=
    Int.le.dest (lastBit_intCast_le hz) |>.imp fun _ h => h.symm
  obtain ⟨m, hm⟩ := hdvd
  have hunit : (2 : Rat) ^ lastBit z ≠ 0 := zpow_ne_zero _ (by norm_num)
  have hquot : (z : Rat) / 2 ^ lastBit z = ((2 ^ n * m : Int) : Rat) := by
    have hpow : (2 : Rat) ^ k = 2 ^ lastBit z * 2 ^ n := by
      rw [← zpow_natCast, hn, zpow_add₀ (by norm_num), zpow_natCast]
    have hcast : (z : Rat) = 2 ^ k * m := by exact_mod_cast hm
    rw [div_eq_iff hunit]
    generalize lastBit z = u at *
    rw [hcast, hpow]
    push_cast
    ring
  have hrange : |(z : Rat)| < 2 ^ 1024 := by
    calc |(z : Rat)| < 2 ^ (53 + k) := by exact_mod_cast hz
      _ ≤ 2 ^ 1024 := pow_le_pow_right₀ (by norm_num) (by omega)
  rw [round, hquot, roundEven_intCast, ← hquot, mul_div_cancel₀ _ hunit]
  exact if_pos hrange

/-- A whole number in range is converted to itself. -/
theorem toInt64_intCast {z : Int} (hlow : -2 ^ 63 ≤ z) (hhigh : z < 2 ^ 63) :
    toInt64 (some (z : Rat)) = Int64.ofInt z := by
  have htrunc : (z : Rat).num.tdiv (z : Rat).den = z := by simp
  simp only [toInt64, htrunc]
  exact if_pos ⟨hlow, hhigh⟩

/-- Integers of 53 bits are read exactly. -/
theorem parse_digits {s : GoString} (h : IsDigits s) (hlt : digitsValue s < 2 ^ 53) :
    parse s = some ((digitsValue s : Int) : Rat) ∧
      parse (0x2D :: s) = some ((-(digitsValue s : Int) : Int) : Rat) := by
  have htake : s.takeWhile isDigitByte = s := takeWhile_eq_self_iff.2 h.digit
  have hdrop : s.dropWhile isDigitByte = [] := dropWhile_eq_nil_iff.2 h.digit
  have hminus := h.head_ne (b := 0x2D) rfl
  have hround : ∀ z : Int, z.natAbs = digitsValue s → round z = some (z : Rat) := by
    intro z hz
    refine round_intCast (k := 0) (one_dvd z) ?_ (by decide)
    rw [Int.abs_eq_natAbs, hz]
    exact_mod_cast hlt
  constructor
  · have hcast : (1 : Rat) * (digitsValue s : Nat) = ((digitsValue s : Int) : Rat) := by simp
    simp only [parse, hminus, if_false, htake, hdrop, h.ne_nil, hcast]
    exact hround _ (Int.natAbs_natCast _)
  · have hcast : (-1 : Rat) * (digitsValue s : Nat) = ((-(digitsValue s : Int) : Int) : Rat) := by
      simp
    simp only [parse, head?_cons, tail_cons, if_true, htake, hdrop, h.ne_nil, if_false, hcast]
    exact hround _ (by omega)

end Float64

end Athos.Base
