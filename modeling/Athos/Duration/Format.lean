import Athos.Duration.Parse

/-!
# Writing durations

`Format` of `src/internal/duration/duration.go` writes days, hours, minutes and seconds, each as a
segment of its own, and a minus sign before the first. `Parse` takes the sign for that of the first
segment.
-/

namespace Athos.Duration

open Base GoDuration List

/-- One part of the text: a count and its unit. -/
def part (count : Int64) (unit : GoString) : GoString := decimal count.toInt ++ unit

/-- The parts that `Format` joins; `duration.go:130-142`. -/
def parts (days hours minutes seconds : Int64) : List GoString :=
  let parts : List GoString := if days ≠ 0 then [part days (lit "d")] else []
  let parts := if hours ≠ 0 then parts ++ [part hours (lit "h")] else parts
  let parts := if minutes ≠ 0 then parts ++ [part minutes (lit "m")] else parts
  if seconds ≠ 0 ∨ parts = [] then parts ++ [part seconds (lit "s")] else parts

/-- `Format`; `duration.go:114-149`. -/
def format (d : Int64) : GoString :=
  if d = 0 then lit "0s"
  else
    let x := if d < 0 then -d else d
    let days := x / 86400000000000
    let x := x - days * 86400000000000
    let hours := x / 3600000000000
    let x := x - hours * 3600000000000
    let minutes := x / 60000000000
    let x := x - minutes * 60000000000
    let seconds := x / 1000000000
    let out := (parts days hours minutes seconds).flatten
    if d < 0 then 0x2D :: out else out

private theorem toInt_quot_rest {x c : Int64} (hx : 0 ≤ x.toInt) (hc : 0 < c.toInt) :
    (x / c).toInt = x.toInt / c.toInt ∧ (x - x / c * c).toInt = x.toInt % c.toInt := by
  have hne : c ≠ -1 := by
    rintro rfl
    exact absurd hc (by decide)
  have hdiv : (x / c).toInt = x.toInt / c.toInt := by
    rw [Int64.toInt_div_of_ne_right x c hne, Int.tdiv_eq_ediv_of_nonneg hx]
  have hlt := x.toInt_lt
  have hsplit := Int.mul_ediv_add_emod x.toInt c.toInt
  have hmod := Int.emod_nonneg x.toInt (Int.ne_of_gt hc)
  have hquot := Int.ediv_nonneg hx (Int.le_of_lt hc)
  have hprod : 0 ≤ x.toInt / c.toInt * c.toInt := Int.mul_nonneg hquot (Int.le_of_lt hc)
  rw [Int.mul_comm] at hsplit
  have hmul : (x / c * c).toInt = x.toInt / c.toInt * c.toInt := by
    rw [Int64.toInt_mul, hdiv, Int.bmod_eq_of_le (by omega) (by omega)]
  refine ⟨hdiv, ?_⟩
  rw [Int64.toInt_sub, hmul, Int.bmod_eq_of_le (by omega) (by omega)]
  omega

variable {n : Nat} {ts : List (Term units)}

private theorem toInt_count {x c : Int64} {k : Nat} (hx : x.toInt = n * 1000000000)
    (hc : c.toInt = k * 1000000000) (hk : 0 < k) :
    (x / c).toInt = (n / k : Nat) ∧ (x - x / c * c).toInt = (n % k : Nat) * 1000000000 := by
  obtain ⟨hquot, hrest⟩ := toInt_quot_rest (x := x) (c := c) (by omega) (by omega)
  rw [hquot, hrest, hx, hc]
  constructor
  · rw [Int.mul_ediv_mul_of_pos_left _ _ (by decide), Int.natCast_ediv]
  · rw [Int.mul_comm, Int.mul_comm (k : Int), Int.mul_emod_mul_of_pos _ _ (by decide), Int.mul_comm,
      Int.natCast_emod]

/-- The term of a count, if it is not zero. -/
def component (count : Nat) (unit : GoString) (scale : Nat) (h : (unit, scale) ∈ units) :
    List (Term units) :=
  if count = 0 then []
  else [⟨decimalNat count, unit, scale,
    ⟨decimalNat_ne_nil count, fun _ hb => isDigitByte_of_mem_decimalNat hb⟩, h⟩]

private theorem texts_component (count : Nat) (unit : GoString) (scale : Nat)
    (h : (unit, scale) ∈ units) :
    GoDuration.texts (component count unit scale h) =
      if count = 0 then [] else decimalNat count ++ unit := by
  unfold component
  split_ifs <;> simp [GoDuration.texts, Term.text]

private theorem total_component (count : Nat) (unit : GoString) (scale : Nat)
    (h : (unit, scale) ∈ units) :
    GoDuration.total (component count unit scale h) = count * scale := by
  unfold component
  split_ifs with hzero
  · simp [GoDuration.total, hzero]
  · simp [GoDuration.total, Term.value, digitsValue_decimalNat]

/-- The seconds of less than a minute, the minutes and seconds of less than an hour, and so on. -/
def secondsOf (n : Nat) : List (Term units) :=
  component n (lit "s") 1000000000 (by decide)

/-- The minutes and seconds of less than an hour. -/
def minutesOf (n : Nat) : List (Term units) :=
  component (n / 60) (lit "m") 60000000000 (by decide) ++ secondsOf (n % 60)

/-- The hours, minutes and seconds of less than a day. -/
def hoursOf (n : Nat) : List (Term units) :=
  component (n / 3600) (lit "h") 3600000000000 (by decide) ++ minutesOf (n % 3600)

/-- The days, hours, minutes and seconds. -/
def daysOf (n : Nat) : List (Term units) :=
  component (n / 86400) (lit "d") 86400000000000 (by decide) ++ hoursOf (n % 86400)

private theorem total_append (ts us : List (Term units)) :
    GoDuration.total (ts ++ us) = GoDuration.total ts + GoDuration.total us := by
  induction ts with
  | nil => simp [GoDuration.total]
  | cons t ts ih => rw [cons_append, GoDuration.total, GoDuration.total, ih, Nat.add_assoc]

private theorem total_secondsOf (n : Nat) : GoDuration.total (secondsOf n) = n * 1000000000 :=
  total_component n _ _ _

private theorem total_minutesOf (n : Nat) : GoDuration.total (minutesOf n) = n * 1000000000 := by
  rw [minutesOf, total_append, total_component, total_secondsOf]
  omega

private theorem total_hoursOf (n : Nat) : GoDuration.total (hoursOf n) = n * 1000000000 := by
  rw [hoursOf, total_append, total_component, total_minutesOf]
  omega

private theorem total_daysOf (n : Nat) : GoDuration.total (daysOf n) = n * 1000000000 := by
  rw [daysOf, total_append, total_component, total_hoursOf]
  omega

private theorem flatten_parts {days hours minutes seconds : Int64} {a b c e : Nat}
    (hdays : days.toInt = a) (hhours : hours.toInt = b) (hminutes : minutes.toInt = c)
    (hseconds : seconds.toInt = e) (hpos : 0 < a + b + c + e) :
    (parts days hours minutes seconds).flatten =
      GoDuration.texts (component a (lit "d") 86400000000000 (by decide) ++
        (component b (lit "h") 3600000000000 (by decide) ++
          (component c (lit "m") 60000000000 (by decide) ++
            component e (lit "s") 1000000000 (by decide)))) := by
  have htexts : ∀ ts us : List (Term units),
      GoDuration.texts (ts ++ us) = GoDuration.texts ts ++ GoDuration.texts us :=
    fun ts us => flatMap_append
  have hzero : ∀ {x : Int64} {k : Nat}, x.toInt = k → (x = 0 ↔ k = 0) := by
    intro x k hx
    rw [← Int64.toInt_inj, hx]
    exact Int.natCast_eq_zero
  have hpart : ∀ {x : Int64} {k : Nat} (unit : GoString), x.toInt = k →
      part x unit = decimalNat k ++ unit := by
    intro x k unit hx
    rw [part, hx]
    rfl
  simp only [parts, htexts, texts_component, hzero hdays, hzero hhours, hzero hminutes,
    hzero hseconds, hpart _ hdays, hpart _ hhours, hpart _ hminutes, hpart _ hseconds, Ne]
  by_cases ha : a = 0 <;> by_cases hb : b = 0 <;> by_cases hc : c = 0 <;> by_cases he : e = 0 <;>
    simp [ha, hb, hc, he]
  omega

private theorem components_pos (hn : 0 < n) :
    0 < n / 86400 + n % 86400 / 3600 + n % 86400 % 3600 / 60 + n % 86400 % 3600 % 60 := by
  omega

private theorem format_eq {d : Int64} (hn : 0 < n) (hd : d.toInt.natAbs = n * 1000000000) :
    format d = (if d.toInt < 0 then Sign.minus else Sign.none).text ++
      GoDuration.texts (daysOf n) := by
  have hle := d.le_toInt
  have hlt := d.toInt_lt
  have hzero : (0 : Int64).toInt = 0 := rfl
  have hne : d ≠ 0 := by
    rintro rfl
    rw [hzero] at hd
    omega
  have hx : (if d < 0 then -d else d).toInt = n * 1000000000 := by
    simp only [Int64.lt_iff_toInt_lt, hzero]
    split_ifs with hneg
    · rw [Int64.toInt_neg, Int.bmod_eq_of_le (by omega) (by omega)]
      omega
    · omega
  obtain ⟨hdays, hx₁⟩ := toInt_count hx (c := 86400000000000) (k := 86400) (by decide) (by decide)
  obtain ⟨hhours, hx₂⟩ := toInt_count hx₁ (c := 3600000000000) (k := 3600) (by decide) (by decide)
  obtain ⟨hminutes, hx₃⟩ := toInt_count hx₂ (c := 60000000000) (k := 60) (by decide) (by decide)
  obtain ⟨hseconds, -⟩ := toInt_count hx₃ (c := 1000000000) (k := 1) (by decide) (by decide)
  rw [Nat.div_one] at hseconds
  simp only [format, hne, if_false]
  rw [flatten_parts hdays hhours hminutes hseconds (components_pos hn), daysOf, hoursOf, minutesOf,
    secondsOf]
  simp only [Int64.lt_iff_toInt_lt, hzero]
  split_ifs
  · rw [Sign.text, singleton_append]
  · rw [Sign.text, nil_append]

example : format (-90061000000000) = lit "-1d1h1m1s" := by decide +kernel

/-- Terms of which the first has a sign. -/
def signed (sign : Sign) : List (Term units) → List Segment
  | [] => []
  | t :: ts => ⟨sign, t⟩ :: ts.map (⟨.none, ·⟩)

private theorem texts_signed (sign : Sign) (hne : ts ≠ []) :
    texts (signed sign ts) = sign.text ++ GoDuration.texts ts := by
  obtain ⟨t, ts, rfl⟩ := exists_cons_of_ne_nil hne
  simp [texts, signed, GoDuration.texts, Segment.text, flatMap_map, Sign.text]

private theorem total_map (ts : List (Term units)) :
    total (ts.map (⟨.none, ·⟩)) = GoDuration.total ts := by
  induction ts with
  | nil => rfl
  | cons t ts ih =>
    rw [map_cons, total, GoDuration.total, ih, Nat.cast_add]
    rfl

/-- Whole days, or less than a day in whole hours, or less than an hour in whole minutes, or less
than a minute. -/
def SingleUnit (n : Nat) : Prop :=
  n % 86400 = 0 ∨ n < 86400 ∧ n % 3600 = 0 ∨ n < 3600 ∧ n % 60 = 0 ∨ n < 60

instance (n : Nat) : Decidable (SingleUnit n) := inferInstanceAs (Decidable (_ ∨ _))

private theorem component_append_of_ne {count : Nat} (hne : count ≠ 0) (unit : GoString)
    (scale : Nat) (h : (unit, scale) ∈ units) (ts : List (Term units)) :
    ∃ t, component count unit scale h ++ ts = t :: ts := by
  rw [component, if_neg hne]
  exact ⟨_, rfl⟩

private theorem daysOf_eq_cons (hn : 0 < n) :
    ∃ t ts, daysOf n = t :: ts ∧ (GoDuration.total ts = 0 ↔ SingleUnit n) := by
  unfold SingleUnit
  by_cases hdays : n / 86400 = 0
  · have hdaysOf : daysOf n = hoursOf n := by
      rw [daysOf, component, if_pos hdays, nil_append, Nat.mod_eq_of_lt (by omega)]
    by_cases hhours : n / 3600 = 0
    · have hhoursOf : hoursOf n = minutesOf n := by
        rw [hoursOf, component, if_pos hhours, nil_append, Nat.mod_eq_of_lt (by omega)]
      by_cases hminutes : n / 60 = 0
      · have hminutesOf : minutesOf n = secondsOf n := by
          rw [minutesOf, component, if_pos hminutes, nil_append, Nat.mod_eq_of_lt (by omega)]
        obtain ⟨t, ht⟩ := component_append_of_ne (Nat.ne_of_gt hn) (lit "s") 1000000000
          (by decide) []
        refine ⟨t, [], ?_, iff_of_true rfl (by omega)⟩
        rw [hdaysOf, hhoursOf, hminutesOf, ← ht, append_nil, secondsOf]
      · obtain ⟨t, ht⟩ := component_append_of_ne hminutes (lit "m") 60000000000 (by decide)
          (secondsOf (n % 60))
        refine ⟨t, _, by rw [hdaysOf, hhoursOf, minutesOf, ht], ?_⟩
        rw [total_secondsOf]
        omega
    · obtain ⟨t, ht⟩ := component_append_of_ne hhours (lit "h") 3600000000000 (by decide)
        (minutesOf (n % 3600))
      refine ⟨t, _, by rw [hdaysOf, hoursOf, ht], ?_⟩
      rw [total_minutesOf]
      omega
  · obtain ⟨t, ht⟩ := component_append_of_ne hdays (lit "d") 86400000000000 (by decide)
      (hoursOf (n % 86400))
    refine ⟨t, _, by rw [daysOf, ht], ?_⟩
    rw [total_hoursOf]
    omega

private theorem not_misfit_signed (sign : Sign) (h : GoDuration.total ts < 2 ^ 63) :
    ¬ Misfit (signed sign ts) := by
  have hfits : ∀ (sign : Sign) (t : Term units), t ∈ ts → Fits (sign.apply t.value) := by
    intro sign t ht
    have hle := value_le_total ht
    cases sign <;> exact ⟨by simp only [Sign.apply]; omega, by simp only [Sign.apply]; omega⟩
  rintro ⟨seg, hmem, -, hnot⟩
  apply hnot
  cases ts with
  | nil => cases hmem
  | cons t ts =>
    rcases mem_cons.1 hmem with rfl | hmem
    · exact hfits _ t mem_cons_self
    · obtain ⟨u, hu, rfl⟩ := mem_map.1 hmem
      exact hfits _ u (mem_cons_of_mem t hu)

private theorem parse_signed {T : RuneTables} (sign : Sign) {t : Term units}
    (h : GoDuration.total (t :: ts) < 2 ^ 63) :
    parse T (sign.text ++ GoDuration.texts (t :: ts)) =
      .ok (Int64.ofInt (sign.apply t.value + GoDuration.total ts)) := by
  have hne : signed sign (t :: ts) ≠ [] := cons_ne_nil _ _
  rw [← texts_signed sign (cons_ne_nil t ts), parse_texts hne (not_misfit_signed sign h),
    signed, total, total_map]
  rfl

private theorem parse_format_zero (T : RuneTables) : parse T (format 0) = .ok 0 := by
  let zero : Term units :=
    ⟨lit "0", lit "s", 1000000000, ⟨by decide, forall_mem_of_all rfl⟩, by decide⟩
  have hformat : format 0 = Sign.none.text ++ GoDuration.texts [zero] := by decide
  rw [hformat, parse_signed .none (by decide)]
  decide

/-- A duration of whole seconds is read back exactly if it is not negative or is written with a
single unit. -/
theorem parse_format_iff (T : RuneTables) (d : Int64) (h : d.toInt % 1000000000 = 0) :
    parse T (format d) = .ok d ↔
      0 ≤ d.toInt ∨ SingleUnit (d.toInt.natAbs / 1000000000) := by
  have hle := d.le_toInt
  have hlt := d.toInt_lt
  by_cases hzero : d.toInt = 0
  · obtain rfl : d = 0 := Int64.toInt_inj.1 hzero
    exact iff_of_true (parse_format_zero T) (.inl (Int.le_refl 0))
  obtain ⟨n, hn⟩ : ∃ n : Nat, d.toInt.natAbs = n * 1000000000 :=
    ⟨d.toInt.natAbs / 1000000000, by omega⟩
  have hpos : 0 < n := by omega
  obtain ⟨t, ts, hcons, hsingle⟩ := daysOf_eq_cons hpos
  have htotal : t.value + GoDuration.total ts = n * 1000000000 := by
    rw [← total_daysOf, hcons, GoDuration.total]
  have hsmall : GoDuration.total (t :: ts) < 2 ^ 63 := by
    rw [GoDuration.total]
    omega
  have heq : ∀ m : Int, Fits m →
      ((.ok (Int64.ofInt m) : Except GoString Int64) = .ok d ↔ m = d.toInt) := by
    intro m hm
    rw [Except.ok.injEq, ← Int64.toInt_inj, Int64.toInt_ofInt_of_le hm.1 hm.2]
  rw [hn, Nat.mul_div_cancel n (by decide), ← hsingle, format_eq hpos hn, hcons,
    parse_signed _ hsmall]
  split_ifs with hneg
  · rw [heq _ ⟨by simp only [Sign.apply]; omega, by simp only [Sign.apply]; omega⟩, Sign.apply]
    omega
  · rw [heq _ ⟨by simp only [Sign.apply]; omega, by simp only [Sign.apply]; omega⟩, Sign.apply]
    omega

/-- Four units at once. -/
theorem parse_format_mixed :
    format 90061000000000 = lit "1d1h1m1s" ∧
      parse .basic (format 90061000000000) = .ok 90061000000000 :=
  ⟨by decide +kernel, (parse_format_iff .basic 90061000000000 (by decide)).2 (by decide)⟩

/-- A day and an hour before zero is read back as a day before and an hour after. -/
theorem parse_format_negative :
    (-90000000000000 : Int64).toInt % 1000000000 = 0 ∧
      format (-90000000000000) = lit "-1d1h" ∧
      parse .basic (format (-90000000000000)) = .ok (-82800000000000) := by
  decide +kernel

end Athos.Duration
