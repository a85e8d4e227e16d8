import Athos.Base.GoDuration

/-!
# Durations with days and weeks

`ParseDuration` of `src/internal/timeutil/timeutil.go` tries `time.ParseDuration` first and reads
what that rejects segment by segment. A minus sign before the first segment is part of its number,
so that the other segments are added.
-/

namespace Athos.Timeutil

open Base GoDuration List

/-- `ErrEmptyDuration`. -/
def errEmptyDuration : GoString := lit "timeutil: empty duration string"

/-- `ErrInvalidDuration`. -/
def errInvalidDuration : GoString := lit "timeutil: invalid duration"

variable (T : RuneTables)

/-- The cases of `parseSegment` with a unit of this package, in `float64`. -/
def scaled (num : GoString) (unit : Rat) : Except GoString Int64 :=
  match Float64.parse num with
  | none => .error (errInvalidDuration ++ lit ": bad number " ++ goQuote T num)
  | some v => .ok (Float64.toInt64 (Float64.round (v * unit)))

/-- `parseSegment`; `timeutil.go:108-130`. -/
def parseSegment (num unit : GoString) : Except GoString Int64 :=
  if unit = lit "d" then scaled T num 86400000000000
  else if unit = lit "w" then scaled T num 604800000000000
  else
    match GoDuration.parseDuration (num ++ unit) with
    | .error e => .error (errInvalidDuration ++ lit ": " ++ num ++ unit ++ lit ": " ++ e)
    | .ok d => .ok d

/-- `decodeSegment`; `timeutil.go:101-106`. -/
def decodeSegment (num unit : GoString) : Except GoString Int64 :=
  if num = [] then .error (errInvalidDuration ++ lit ": missing number before " ++ goQuote T unit)
  else parseSegment T num unit

/-- `isNumberByte`; `timeutil.go:85-87`. -/
def isNumberByte (c : UInt8) (atStart : Bool) : Bool :=
  isDigitByte c || c == 0x2E || (c == 0x2D && atStart)

/-- The bytes that `scanUnitEnd` passes over; `timeutil.go:89-99`. -/
def isUnitByte (b : UInt8) : Bool := !(isDigitByte b || b == 0x2E || b == 0x2D)

private theorem ne_nil_of_decodeSegment {num unit : GoString} {seg : Int64}
    (h : decodeSegment T num unit = .ok seg) : num ≠ [] := by
  rintro rfl
  cases h

/-- The loop of `parseExtendedDuration`: the number since the last unit, what has not been read,
the sum so far, and whether there was a segment. -/
def extendedLoop (s num rest : GoString) (total : Int64) (sawAny : Bool) :
    Except GoString Int64 :=
  match rest with
  | [] =>
    if sawAny = false ∨ num ≠ [] then .error (errInvalidDuration ++ lit ": " ++ goQuote T s)
    else .ok total
  | c :: tail =>
    if isNumberByte c (num = []) then extendedLoop s (num ++ [c]) tail total sawAny
    else
      match h : decodeSegment T num ((c :: tail).takeWhile isUnitByte) with
      | .error e => .error e
      | .ok seg =>
        have := ne_nil_of_decodeSegment T h
        extendedLoop s [] ((c :: tail).dropWhile isUnitByte) (total + seg) true
termination_by 2 * rest.length + if num = [] then 0 else 1
decreasing_by
  · simp only [length_cons, append_eq_nil_iff, cons_ne_self, and_false, if_false]
    omega
  · have hnum : num ≠ [] := ‹_›
    have hle := (dropWhile_suffix isUnitByte (l := c :: tail)).length_le
    simp only [hnum, if_false, if_true]
    omega

/-- `parseExtendedDuration`; `timeutil.go:59-83`. -/
def parseExtendedDuration (s : GoString) : Except GoString Int64 :=
  extendedLoop T s [] s 0 false

/-- `ParseDuration`; `timeutil.go:48-57`. -/
def parseDuration (s : GoString) : Except GoString Int64 :=
  if s = [] then .error errEmptyDuration
  else
    match GoDuration.parseDuration s with
    | .ok d => .ok d
    | .error _ => parseExtendedDuration T s

/-- The units of the strings to be read, in nanoseconds. -/
def units : List (GoString × Nat) :=
  [(lit "ns", 1), (lit "us", 1000), (lit "ms", 1000000), (lit "s", 1000000000),
    (lit "m", 60000000000), (lit "h", 3600000000000), (lit "d", 86400000000000),
    (lit "w", 604800000000000)]

private theorem isUnits_units : IsUnits units :=
  ⟨by decide +kernel, by decide +kernel, by decide +kernel, by decide +kernel⟩

/-- Not a day or a week. -/
def Standard (t : Term units) : Prop := unitMap.lookup t.unit = some t.scale

instance (t : Term units) : Decidable (Standard t) := inferInstanceAs (Decidable (_ = _))

private theorem unit_cases (t : Term units) :
    Standard t ∧ t.unit ≠ lit "d" ∧ t.unit ≠ lit "w" ∨
      unitMap.lookup t.unit = none ∧ 2 ^ 16 ∣ t.scale ∧
        (t.unit = lit "d" ∧ t.scale = 86400000000000 ∨
          t.unit = lit "w" ∧ t.scale = 604800000000000) := by
  have hall : ∀ u ∈ units, unitMap.lookup u.1 = some u.2 ∧ u.1 ≠ lit "d" ∧ u.1 ≠ lit "w" ∨
      unitMap.lookup u.1 = none ∧ 2 ^ 16 ∣ u.2 ∧
        (u.1 = lit "d" ∧ u.2 = 86400000000000 ∨ u.1 = lit "w" ∧ u.2 = 604800000000000) := by
    decide +kernel
  exact hall _ t.mem_units

section

variable {T : RuneTables} {s : GoString} {t : Term units} {sign : Sign}

private theorem scaled_digits (hsign : sign ≠ .plus) {digits : GoString} (hdigits : IsDigits digits)
    {scale : Nat} (hdvd : 2 ^ 16 ∣ scale) (hpos : 0 < scale)
    (hfits : Fits (sign.apply (digitsValue digits * scale : Nat))) :
    scaled T (sign.text ++ digits) scale =
      .ok (Int64.ofInt (sign.apply (digitsValue digits * scale : Nat))) := by
  obtain ⟨hlow, hhigh⟩ := hfits
  have hle : digitsValue digits * scale ≤ 2 ^ 63 := by
    cases sign <;> simp only [Sign.apply] at hlow hhigh <;> omega
  have hsmall : digitsValue digits < 2 ^ 53 := by
    have hscale : 2 ^ 16 ≤ scale := Nat.le_of_dvd hpos hdvd
    have := Nat.mul_le_mul_left (digitsValue digits) hscale
    omega
  have hparse : Float64.parse (sign.text ++ digits) =
      some ((sign.apply (digitsValue digits) : Int) : Rat) := by
    obtain ⟨hplain, hminus⟩ := Float64.parse_digits hdigits hsmall
    cases sign with
    | none => exact hplain
    | plus => exact absurd rfl hsign
    | minus => exact hminus
  have hmul : ((sign.apply (digitsValue digits) : Int) : Rat) * (scale : Rat) =
      ((sign.apply (digitsValue digits * scale : Nat) : Int) : Rat) := by
    cases sign <;> simp [Sign.apply]
  have hround : Float64.round ((sign.apply (digitsValue digits * scale : Nat) : Int) : Rat) =
      some ((sign.apply (digitsValue digits * scale : Nat) : Int) : Rat) := by
    refine Float64.round_intCast (k := 16) ?_ ?_ (by decide)
    · have hdvd' : (2 : Int) ^ 16 ∣ (digitsValue digits * scale : Nat) := by
        exact_mod_cast Dvd.dvd.mul_left hdvd (digitsValue digits)
      cases sign with
      | none => exact hdvd'
      | plus => exact hdvd'
      | minus => exact (Int.dvd_neg).2 hdvd'
    · rw [abs_lt]
      omega
  simp only [scaled, hparse, hmul, hround]
  rw [Float64.toInt64_intCast hlow hhigh]

private theorem parseSegment_term (hsign : sign ≠ .plus) (t : Term units)
    (hfits : Fits (sign.apply t.value)) :
    parseSegment T (sign.text ++ t.digits) t.unit = .ok (Int64.ofInt (sign.apply t.value)) := by
  rcases unit_cases t with ⟨hstd, hd, hw⟩ | ⟨-, hdvd, hunit⟩
  · have htext : sign.text ++ t.digits ++ t.unit = sign.text ++ t.text := append_assoc _ _ _
    rw [parseSegment, if_neg hd, if_neg hw, htext, parseDuration_text isUnits_units sign hstd hfits]
  · have hscaled : scaled T (sign.text ++ t.digits) t.scale =
        .ok (Int64.ofInt (sign.apply t.value)) :=
      scaled_digits hsign t.isDigits hdvd (isUnits_units.pos _ t.mem_units) hfits
    rw [← hscaled, parseSegment]
    rcases hunit with ⟨hd, hscale⟩ | ⟨hw, hscale⟩
    · rw [if_pos hd, hscale]
      rfl
    · have hd : t.unit ≠ lit "d" := by
        rw [hw]
        decide
      rw [if_neg hd, if_pos hw, hscale]
      rfl

private theorem parseSegment_term_error (t : Term units) (hvalue : t.value = 2 ^ 63) :
    ∃ e, parseSegment T t.digits t.unit = .error e := by
  rcases unit_cases t with ⟨hstd, hd, hw⟩ | ⟨-, -, hunit⟩
  · have hnot : ¬ Fits (Sign.none.apply t.value) := by
      rw [hvalue]
      decide
    obtain ⟨e, he⟩ := parseDuration_text_error isUnits_units .none hstd hnot
    have htext : t.digits ++ t.unit = Sign.none.text ++ t.text := rfl
    rw [parseSegment, if_neg hd, if_neg hw, htext, he]
    exact ⟨_, rfl⟩
  · rw [Term.value] at hvalue
    rcases hunit with ⟨-, hscale⟩ | ⟨-, hscale⟩
    · rw [hscale] at hvalue
      omega
    · rw [hscale] at hvalue
      omega

variable {num rest : GoString} {a : Int64} {saw : Bool}

private theorem extendedLoop_digits {digits : GoString} (h : ∀ b ∈ digits, isDigitByte b = true) :
    extendedLoop T s num (digits ++ rest) a saw = extendedLoop T s (num ++ digits) rest a saw := by
  induction digits generalizing num with
  | nil => rw [nil_append, append_nil]
  | cons c digits ih =>
    obtain ⟨hc, hdigits⟩ := forall_mem_cons.1 h
    have hnumber : isNumberByte c (num = []) = true := by simp [isNumberByte, hc]
    rw [cons_append, extendedLoop, if_pos hnumber, ih hdigits, append_assoc]
    rfl

private theorem extendedLoop_sign (hsign : sign ≠ .plus) :
    extendedLoop T s [] (sign.text ++ rest) a saw = extendedLoop T s sign.text rest a saw := by
  cases sign with
  | none => rfl
  | plus => exact absurd rfl hsign
  | minus =>
    rw [Sign.text, singleton_append, extendedLoop]
    exact if_pos rfl

private theorem extendedLoop_unit {unit : GoString} (hnum : num ≠ []) (hne : unit ≠ [])
    (hunit : ∀ b ∈ unit, isUnitByte b = true) (hrest : ∀ b ∈ rest.head?, isUnitByte b = false) :
    extendedLoop T s num (unit ++ rest) a saw =
      match parseSegment T num unit with
      | .error e => .error e
      | .ok seg => extendedLoop T s [] rest (a + seg) true := by
  obtain ⟨htake, hdrop⟩ := span_append hunit hrest
  obtain ⟨c, cs, rfl⟩ := exists_cons_of_ne_nil hne
  have hnumber : ¬ isNumberByte c (num = []) = true := by
    have hc := hunit c mem_cons_self
    simp only [isUnitByte, Bool.not_eq_true', Bool.or_eq_false_iff] at hc
    simp [isNumberByte, hc]
  rw [cons_append] at htake hdrop ⊢
  have hdecode : decodeSegment T num ((c :: (cs ++ rest)).takeWhile isUnitByte) =
      parseSegment T num (c :: cs) := by
    rw [htake, decodeSegment, if_neg hnum]
  rw [extendedLoop, if_neg hnumber, hdrop]
  split
  · next heq =>
    rw [hdecode] at heq
    simp only [heq]
  · next heq =>
    rw [hdecode] at heq
    simp only [heq]

private theorem extendedLoop_term (hsign : sign ≠ .plus) (t : Term units)
    (hrest : StartsNumeric rest) :
    extendedLoop T s [] (sign.text ++ (t.text ++ rest)) a saw =
      match parseSegment T (sign.text ++ t.digits) t.unit with
      | .error e => .error e
      | .ok seg => extendedLoop T s [] rest (a + seg) true := by
  have hbytes : ∀ u ∈ units, ∀ b ∈ u.1, isUnitByte b = true := by decide +kernel
  have hnum : sign.text ++ t.digits ≠ [] :=
    append_ne_nil_of_right_ne_nil _ t.isDigits.ne_nil
  have hstop : ∀ b ∈ rest.head?, isUnitByte b = false := by
    intro b hb
    have hb := hrest b hb
    rw [isNumeric, Bool.or_comm] at hb
    simp [isUnitByte, hb]
  rw [extendedLoop_sign hsign, Term.text, append_assoc, extendedLoop_digits t.isDigits.digit,
    extendedLoop_unit hnum (isUnits_units.ne_nil _ t.mem_units) (hbytes _ t.mem_units) hstop]

private theorem texts_cons (t : Term units) (later : List (Term units)) :
    texts (t :: later) = Sign.none.text ++ (t.text ++ texts later) := rfl

private theorem fits_none {n : Nat} (h : n < 2 ^ 63) : Fits (Sign.none.apply n) := by
  have hfits : Fits (n : Int) := ⟨by omega, by omega⟩
  exact hfits

private theorem extendedLoop_texts {later : List (Term units)} (h : ∀ t ∈ later, t.value < 2 ^ 63)
    (n : Int) :
    extendedLoop T s [] (texts later) (Int64.ofInt n) true =
      .ok (Int64.ofInt (n + total later)) := by
  induction later generalizing n with
  | nil =>
    rw [texts, flatMap_nil, extendedLoop, total, Nat.cast_zero, Int.add_zero]
    rfl
  | cons t later ih =>
    obtain ⟨ht, hlater⟩ := forall_mem_cons.1 h
    rw [texts_cons, extendedLoop_term (by decide) t (startsNumeric_texts later),
      parseSegment_term (by decide) t (fits_none ht)]
    dsimp only
    rw [← Int64.ofInt_add, ih hlater, total, Nat.cast_add, ← Int.add_assoc]
    rfl

private theorem extendedLoop_texts_error {later : List (Term units)}
    (hle : ∀ t ∈ later, t.value ≤ 2 ^ 63) (h : ∃ t ∈ later, t.value = 2 ^ 63) :
    ∃ e, extendedLoop T s [] (texts later) a saw = .error e := by
  induction later generalizing a saw with
  | nil =>
    obtain ⟨_, hmem, -⟩ := h
    cases hmem
  | cons t later ih =>
    obtain ⟨ht, hlater⟩ := forall_mem_cons.1 hle
    rw [texts_cons, extendedLoop_term (by decide) t (startsNumeric_texts later)]
    by_cases hvalue : t.value = 2 ^ 63
    · obtain ⟨e, he⟩ := parseSegment_term_error (T := T) t hvalue
      rw [Sign.text, nil_append, he]
      exact ⟨e, rfl⟩
    · rw [parseSegment_term (by decide) t (fits_none (by omega))]
      obtain ⟨u, hmem, hu⟩ := h
      rcases mem_cons.1 hmem with rfl | hmem
      · exact absurd hu hvalue
      · exact ih hlater ⟨u, hmem, hu⟩

variable {first : Term units} {later : List (Term units)}

private theorem parseExtendedDuration_cons (hsign : sign ≠ .plus)
    (hfirst : Fits (sign.apply first.value)) :
    parseExtendedDuration T (sign.text ++ texts (first :: later)) =
      extendedLoop T (sign.text ++ texts (first :: later)) [] (texts later)
        (Int64.ofInt (sign.apply first.value)) true := by
  have htexts : texts (first :: later) = first.text ++ texts later := rfl
  rw [parseExtendedDuration, htexts, extendedLoop_term hsign first (startsNumeric_texts later),
    parseSegment_term hsign first hfirst]
  dsimp only
  rw [Int64.zero_add]

example : parseExtendedDuration .basic (lit "-1w2d3h") = .ok (-421200000000000) := by
  decide +kernel

/-- `ParseDuration` returns the sum with its sign, and where both readers accept they agree. -/
def Agrees (T : RuneTables) (sign : Sign) (ts : List (Term units)) : Prop :=
  parseDuration T (sign.text ++ texts ts) = .ok (Int64.ofInt (sign.apply (total ts))) ∧
    ∀ d e, GoDuration.parseDuration (sign.text ++ texts ts) = .ok d →
      parseExtendedDuration T (sign.text ++ texts ts) = .ok e → e = d

private theorem parseDuration_error_of_not_standard (sign : Sign) {ts : List (Term units)}
    (h : ¬ ∀ t ∈ ts, Standard t) :
    ∃ e, GoDuration.parseDuration (sign.text ++ texts ts) = .error e := by
  obtain ⟨t, ht, hnot⟩ : ∃ t ∈ ts, ¬ Standard t := by
    simpa only [not_forall, exists_prop] using h
  exact parseDuration_texts_unknown isUnits_units sign ht
    ((unit_cases t).resolve_left fun hstd => hnot hstd.1).1

section

variable (hfits : Fits (sign.apply (total (first :: later))))

include hfits

private theorem agrees_iff :
    Agrees T sign (first :: later) ↔
      (∀ e, parseExtendedDuration T (sign.text ++ texts (first :: later)) = .ok e →
        e = Int64.ofInt (sign.apply (total (first :: later)))) ∧
      ((∀ t ∈ first :: later, Standard t) ∨
        ∃ e, parseExtendedDuration T (sign.text ++ texts (first :: later)) = .ok e) := by
  have hne : sign.text ++ texts (first :: later) ≠ [] :=
    append_ne_nil_of_right_ne_nil _ (texts_cons_ne_nil first later)
  rw [Agrees, parseDuration, if_neg hne]
  by_cases hstd : ∀ t ∈ first :: later, Standard t
  · rw [parseDuration_texts isUnits_units sign (cons_ne_nil _ _) hstd hfits]
    constructor
    · exact fun h => ⟨fun e he => h.2 _ e rfl he, .inl hstd⟩
    · exact fun h => ⟨rfl, fun d e hd he => (h.1 e he).trans (Except.ok.inj hd)⟩
  · obtain ⟨e, herror⟩ := parseDuration_error_of_not_standard sign hstd
    rw [herror]
    constructor
    · rintro ⟨hslow, -⟩
      exact ⟨fun e he => Except.ok.inj (he.symm.trans hslow), .inr ⟨_, hslow⟩⟩
    · rintro ⟨hsum, haccepts⟩
      obtain ⟨e, he⟩ := haccepts.resolve_left hstd
      refine ⟨?_, fun d e hd _ => by cases hd⟩
      rw [← hsum e he]
      exact he

private theorem agrees_iff_of_small (hsign : sign ≠ .plus) (hfirst : Fits (sign.apply first.value))
    (hlater : ∀ t ∈ later, t.value < 2 ^ 63) :
    Agrees T sign (first :: later) ↔
      Int64.ofInt (sign.apply first.value + total later) =
        Int64.ofInt (sign.apply (total (first :: later))) := by
  rw [agrees_iff hfits, parseExtendedDuration_cons hsign hfirst, extendedLoop_texts hlater]
  constructor
  · exact fun h => h.1 _ rfl
  · exact fun h => ⟨fun e he => (Except.ok.inj he).symm.trans h, .inr ⟨_, rfl⟩⟩

private theorem agrees_iff_of_large (hsign : sign ≠ .plus) (hfirst : Fits (sign.apply first.value))
    (hle : ∀ t ∈ later, t.value ≤ 2 ^ 63) (hlarge : ∃ t ∈ later, t.value = 2 ^ 63) :
    Agrees T sign (first :: later) ↔ ∀ t ∈ first :: later, Standard t := by
  obtain ⟨e, herror⟩ : ∃ e, extendedLoop T (sign.text ++ texts (first :: later)) []
      (texts later) (Int64.ofInt (sign.apply first.value)) true = .error e :=
    extendedLoop_texts_error hle hlarge
  rw [agrees_iff hfits, parseExtendedDuration_cons hsign hfirst, herror]
  constructor
  · exact fun h => h.2.resolve_right fun ⟨d, hd⟩ => by cases hd
  · exact fun h => ⟨fun d hd => (by cases hd), .inl h⟩

end

private theorem ofInt_sign_eq_iff {f r : Nat} (h : f + r ≤ 2 ^ 63) :
    Int64.ofInt (-(f : Int) + r) = Int64.ofInt (-((f + r : Nat) : Int)) ↔ r = 0 ∨ r = 2 ^ 63 := by
  rw [← Int64.toInt_inj, Int64.toInt_ofInt, Int64.toInt_ofInt, Int.bmod_def, Int.bmod_def]
  have hsize : Int64.size = 2 ^ 64 := rfl
  rw [hsize]
  push_cast
  split_ifs <;> omega

private theorem ofInt_apply_eq_iff (hsign : sign ≠ .plus) {f r : Nat} (h : f + r ≤ 2 ^ 63) :
    Int64.ofInt (sign.apply f + r) = Int64.ofInt (sign.apply ((f + r : Nat) : Int)) ↔
      sign = .none ∨ r = 0 ∨ r = 2 ^ 63 := by
  cases sign with
  | none => simp [Sign.apply]
  | plus => exact absurd rfl hsign
  | minus =>
    rw [Sign.apply, Sign.apply, ofInt_sign_eq_iff h]
    simp

end

/-- The readers agree and apply a leading minus to the whole string exactly if there is none, or
nothing but zeros follows the first segment, or what follows is 2⁶³ nanoseconds, which have no
sign in 64 bits; a single such segment after the first is not read if there are days or weeks. -/
theorem parseDuration_agrees_iff (T : RuneTables) (sign : Sign) (hsign : sign ≠ .plus)
    (first : Term units) (later : List (Term units))
    (hfits : Fits (sign.apply (total (first :: later)))) :
    Agrees T sign (first :: later) ↔
      sign = .none ∨ total later = 0 ∨ total later = 2 ^ 63 ∧
        ((∀ t ∈ first :: later, Standard t) ∨ ∀ t ∈ later, t.value < 2 ^ 63) := by
  have hsum : total (first :: later) = first.value + total later := rfl
  have hle : first.value + total later ≤ 2 ^ 63 := by
    unfold Fits at hfits
    cases sign <;> simp only [Sign.apply] at hfits <;> omega
  have hfirst : Fits (sign.apply first.value) := by
    unfold Fits at hfits ⊢
    cases sign <;> simp only [Sign.apply] at hfits ⊢ <;> omega
  by_cases hlater : ∀ t ∈ later, t.value < 2 ^ 63
  · rw [agrees_iff_of_small hfits hsign hfirst hlater, hsum, ofInt_apply_eq_iff hsign hle,
      and_iff_left (Or.inr hlater)]
  · -- A segment of 2⁶³ nanoseconds is all that follows.
    obtain ⟨t, ht, hlarge⟩ : ∃ t ∈ later, ¬ t.value < 2 ^ 63 := by
      simpa only [not_forall, exists_prop] using hlater
    have hone : ∀ t ∈ later, t.value ≤ total later := fun t => value_le_total
    have htotal := hone t ht
    rw [agrees_iff_of_large hfits hsign hfirst (fun u hu => (hone u hu).trans (by omega))
      ⟨t, ht, by omega⟩]
    refine ⟨fun hstd => .inr (.inr ⟨by omega, .inl hstd⟩), ?_⟩
    rintro (rfl | hzero | ⟨-, hstd | hsmall⟩)
    · have := hfits.2
      simp only [Sign.apply] at this
      omega
    · omega
    · exact hstd
    · exact absurd hsmall hlater

/-- A week. -/
def oneWeek : Term units :=
  ⟨lit "1", lit "w", 604800000000000, ⟨by decide, forall_mem_of_all rfl⟩, by decide⟩

/-- Two days. -/
def twoDays : Term units :=
  ⟨lit "2", lit "d", 86400000000000, ⟨by decide, forall_mem_of_all rfl⟩, by decide⟩

/-- Without a sign the two are added. -/
theorem parseDuration_agrees_weeks :
    Sign.none.text ++ texts [oneWeek, twoDays] = lit "1w2d" ∧
      Fits (Sign.none.apply (total [oneWeek, twoDays])) ∧
      Agrees .basic .none [oneWeek, twoDays] :=
  ⟨by decide, by decide, (parseDuration_agrees_iff .basic .none (by decide) oneWeek [twoDays]
    (by decide)).2 (.inl rfl)⟩

/-- The minus is that of the week alone: five days before, not nine. -/
theorem parseDuration_minus_weeks :
    Sign.minus.text ++ texts [oneWeek, twoDays] = lit "-1w2d" ∧
      Sign.minus.apply (total [oneWeek, twoDays]) = -777600000000000 ∧
      parseDuration .basic (lit "-1w2d") = .ok (-432000000000000) ∧
      ¬ Agrees .basic .minus [oneWeek, twoDays] := by
  have htext : Sign.minus.text ++ texts [oneWeek, twoDays] = lit "-1w2d" := by decide
  have hparse : parseDuration .basic (lit "-1w2d") = .ok (-432000000000000) := by decide +kernel
  refine ⟨htext, by decide, hparse, fun hagrees => ?_⟩
  have hsum := hagrees.1
  rw [htext, hparse] at hsum
  exact absurd hsum (by decide)

end Athos.Timeutil
