import Athos.Base.GoDuration

/-!
# Durations with days, weeks and months

`src/internal/duration/duration.go` reads a duration segment by segment. Units of
`time.ParseDuration` are left to that function, which checks that a segment fits. Days, weeks and
months are scanned and multiplied in 64 bits, and segments are added up, without a check.
-/

namespace Athos.Duration

open Base GoDuration List

/-! ### The reader -/

/-- `extendedUnits`; `duration.go:62-66`. -/
def extendedUnits : List (GoString × Int64) :=
  [(lit "d", 86400000000000), (lit "w", 604800000000000), (lit "mo", 2592000000000000)]

/-- `isLetter`; `duration.go:152-154`. -/
def isLetter (b : UInt8) : Bool := (0x61 ≤ b && b ≤ 0x7A) || (0x41 ≤ b && b ≤ 0x5A)

/-- The bytes that `parseSegment` takes for a number. -/
def isNumber (b : UInt8) : Bool := isDigitByte b || b == 0x2D || b == 0x2B

/-- The loop of `scanInt`. It ranges over runes, which are bytes among digits and signs. -/
def scanDigits : Int64 → GoString → Except GoString Int64
  | n, [] => .ok n
  | n, c :: s =>
    if isDigitByte c then scanDigits (n * 10 + Int64.ofNat (c.toNat - 0x30)) s
    else .error (lit "invalid number")

/-- `scanInt`; `duration.go:156-175`. -/
def scanInt (s : GoString) : Except GoString Int64 :=
  let sign : Int64 := if s.head? = some 0x2D then -1 else 1
  let digits := if s.head? = some 0x2D ∨ s.head? = some 0x2B then s.tail else s
  if digits = [] then .error (lit "invalid number")
  else (scanDigits 0 digits).map (· * sign)

variable (T : RuneTables)

/-- `parseSegment`; `duration.go:71-101`. The unit consists of letters, whose lower case is that
of their bytes. -/
def parseSegment (rest : GoString) : Except GoString (GoString × Int64 × Nat) :=
  let num := rest.takeWhile isNumber
  if num = [] then .error (lit "missing number in " ++ goQuote T rest)
  else
    let unit := (rest.dropWhile isNumber).takeWhile isLetter
    if unit = [] then .error (lit "missing unit in " ++ goQuote T rest)
    else
      let segment := num ++ unit
      match extendedUnits.lookup (unit.map asciiLower) with
      | some mult => (scanInt num).map fun n => (segment, n * mult, segment.length)
      | none => (parseDuration segment).map fun parsed => (segment, parsed, segment.length)

variable {rest segment : GoString}

private theorem parseSegment_eq_ok {parsed : Int64} {consumed : Nat}
    (h : parseSegment T rest = .ok (segment, parsed, consumed)) :
    ∃ num unit tail, rest = num ++ unit ++ tail ∧ consumed = (num ++ unit).length ∧
      num ≠ [] ∧ unit ≠ [] ∧ (∀ b ∈ num, isNumber b = true) ∧ (∀ b ∈ unit, isLetter b = true) ∧
      ((∃ mult n, extendedUnits.lookup (unit.map asciiLower) = some mult ∧ scanInt num = .ok n ∧
        parsed = n * mult) ∨
      extendedUnits.lookup (unit.map asciiLower) = none ∧
        parseDuration (num ++ unit) = .ok parsed) := by
  refine ⟨rest.takeWhile isNumber, (rest.dropWhile isNumber).takeWhile isLetter,
    (rest.dropWhile isNumber).dropWhile isLetter, ?_, ?_⟩
  · rw [append_assoc, takeWhile_append_dropWhile, takeWhile_append_dropWhile]
  unfold parseSegment at h
  dsimp only at h
  split at h
  · cases h
  next hnum =>
  split at h
  · cases h
  next hunit =>
  split at h
  · next mult hlookup =>
    cases hscan : scanInt (rest.takeWhile isNumber) with
    | error e =>
      rw [hscan] at h
      cases h
    | ok n =>
      rw [hscan] at h
      cases h
      exact ⟨rfl, hnum, hunit, fun b => mem_takeWhile_imp, fun b => mem_takeWhile_imp,
        .inl ⟨mult, n, hlookup, rfl, rfl⟩⟩
  · next hlookup =>
    cases hparse : parseDuration
        (rest.takeWhile isNumber ++ (rest.dropWhile isNumber).takeWhile isLetter) with
    | error e =>
      rw [hparse] at h
      cases h
    | ok d =>
      rw [hparse] at h
      cases h
      exact ⟨rfl, hnum, hunit, fun b => mem_takeWhile_imp, fun b => mem_takeWhile_imp,
        .inr ⟨hlookup, rfl⟩⟩

private theorem parseSegment_consumed_pos {parsed : Int64} {consumed : Nat}
    (h : parseSegment T rest = .ok (segment, parsed, consumed)) : 0 < consumed := by
  obtain ⟨num, unit, tail, -, rfl, hnum, -⟩ := parseSegment_eq_ok T h
  rw [length_append]
  exact Nat.add_pos_left (length_pos_iff.2 hnum) _

/-- The loop of `Parse`, with the sum so far. -/
def parseRest (total : Int64) (rest : GoString) : Except GoString Int64 :=
  if hrest : rest = [] then .ok total
  else
    match h : parseSegment T rest with
    | .error e => .error (lit "duration: " ++ e)
    | .ok (_, parsed, consumed) =>
      have := length_pos_iff.2 hrest
      have := parseSegment_consumed_pos T h
      parseRest (total + parsed) (rest.drop consumed)
termination_by rest.length

private theorem parseRest_of_ne_nil {total : Int64} (hrest : rest ≠ []) :
    parseRest T total rest =
      match parseSegment T rest with
      | .error e => .error (lit "duration: " ++ e)
      | .ok (_, parsed, consumed) => parseRest T (total + parsed) (rest.drop consumed) := by
  rw [parseRest, dif_neg hrest]
  split
  · next heq => simp only [heq]
  · next heq => simp only [heq]

/-- `Parse`; `duration.go:40-58`. -/
def parse (s : GoString) : Except GoString Int64 :=
  if s = [] then .error (lit "duration: empty input") else parseRest T 0 s

/-! ### Segments -/

/-- The units that are known: those of `time.ParseDuration` in letters, and `extendedUnits` in
any case. -/
def units : List (GoString × Nat) :=
  [(lit "ns", 1), (lit "us", 1000), (lit "ms", 1000000), (lit "s", 1000000000),
    (lit "m", 60000000000), (lit "h", 3600000000000), (lit "d", 86400000000000),
    (lit "D", 86400000000000), (lit "w", 604800000000000), (lit "W", 604800000000000),
    (lit "mo", 2592000000000000), (lit "Mo", 2592000000000000), (lit "mO", 2592000000000000),
    (lit "MO", 2592000000000000)]

private theorem isUnits_units : IsUnits units :=
  ⟨by decide +kernel, by decide +kernel, by decide +kernel, by decide +kernel⟩

/-- A number with a sign and a unit. -/
structure Segment where
  sign : Sign
  term : Term units

namespace Segment

/-- The segment as it is written. -/
def text (seg : Segment) : GoString := seg.sign.text ++ seg.term.text

/-- The nanoseconds of the segment. -/
def value (seg : Segment) : Int := seg.sign.apply seg.term.value

/-- Whether the unit is left to `time.ParseDuration`. -/
def isStandard (seg : Segment) : Bool :=
  (extendedUnits.lookup (seg.term.unit.map asciiLower)).isNone

end Segment

/-- Segments one after another. -/
def texts (segs : List Segment) : GoString := segs.flatMap Segment.text

/-- The nanoseconds of segments. -/
def total : List Segment → Int
  | [] => 0
  | seg :: segs => seg.value + total segs

/-- What ends a unit: nothing, a digit or a sign. -/
def StartsNumber (s : GoString) : Prop := ∀ b ∈ s.head?, isNumber b = true

section

variable {T : RuneTables} {seg : Segment} {segs : List Segment} {rest : GoString}

private theorem isLetter_of_isNumber {b : UInt8} (h : isNumber b = true) : isLetter b = false := by
  rcases Bool.or_eq_true_iff.1 h with h | h
  · rcases Bool.or_eq_true_iff.1 h with h | h
    · have hb := toNat_of_isDigitByte h
      simp only [isLetter, Bool.or_eq_false_iff, Bool.and_eq_false_iff, decide_eq_false_iff_not,
        UInt8.le_iff_toNat_le, UInt8.reduceToNat]
      omega
    · rw [beq_iff_eq.1 h]
      rfl
  · rw [beq_iff_eq.1 h]
    rfl

private theorem isNumber_of_mem (seg : Segment) :
    ∀ b ∈ seg.sign.text ++ seg.term.digits, isNumber b = true := by
  intro b hb
  rcases mem_append.1 hb with hsign | hdigit
  · cases hs : seg.sign <;> rw [hs] at hsign <;> simp [Sign.text] at hsign
    · rw [hsign]
      rfl
    · rw [hsign]
      rfl
  · simp [isNumber, seg.term.isDigits.digit b hdigit]

private theorem number_ne_nil (seg : Segment) : seg.sign.text ++ seg.term.digits ≠ [] :=
  append_ne_nil_of_right_ne_nil _ seg.term.isDigits.ne_nil

private theorem startsNumber_text (seg : Segment) (s : GoString) :
    StartsNumber (seg.text ++ s) := by
  obtain ⟨c, cs, hcons⟩ := exists_cons_of_ne_nil (number_ne_nil seg)
  have htext : seg.text ++ s = c :: (cs ++ seg.term.unit ++ s) := by
    rw [Segment.text, Term.text, ← append_assoc, hcons]
    rfl
  intro b hb
  rw [htext] at hb
  obtain rfl : c = b := by simpa using hb
  exact isNumber_of_mem seg c (hcons ▸ mem_cons_self)

private theorem startsNumber_texts (segs : List Segment) : StartsNumber (texts segs) := by
  cases segs with
  | nil =>
    intro b hb
    cases hb
  | cons seg segs => exact startsNumber_text seg (texts segs)

private theorem scanDigits_digits {digits : GoString} (h : ∀ b ∈ digits, isDigitByte b = true)
    (n : Nat) :
    scanDigits (Int64.ofNat n) digits =
      .ok (Int64.ofNat (n * 10 ^ digits.length + digitsValue digits)) := by
  induction digits generalizing n with
  | nil => simp [scanDigits, digitsValue]
  | cons c digits ih =>
    obtain ⟨hc, hdigits⟩ := forall_mem_cons.1 h
    have hstep : Int64.ofNat n * 10 + Int64.ofNat (c.toNat - 0x30) =
        Int64.ofNat (n * 10 + (c.toNat - 0x30)) := by
      rw [Int64.ofNat_add, Int64.ofNat_mul]
      rfl
    rw [scanDigits, if_pos hc, hstep, ih hdigits, digitsValue_cons, length_cons, Nat.pow_succ]
    congr 2
    ring

private theorem scanInt_sign (sign : Sign) {digits : GoString} (h : IsDigits digits) :
    scanInt (sign.text ++ digits) = .ok (Int64.ofInt (sign.apply (digitsValue digits))) := by
  have hscan : scanDigits 0 digits = .ok (Int64.ofInt (digitsValue digits)) := by
    have := scanDigits_digits h.digit 0
    rwa [Nat.zero_mul, Nat.zero_add, ← Int64.ofInt_eq_ofNat] at this
  have hminus := h.head_ne (b := 0x2D) rfl
  have hplus := h.head_ne (b := 0x2B) rfl
  cases sign with
  | none => simp [scanInt, Sign.text, Sign.apply, hminus, hplus, h.ne_nil, hscan, Except.map]
  | plus => simp [scanInt, Sign.text, Sign.apply, h.ne_nil, hscan, Except.map]
  | minus => simp [scanInt, Sign.text, Sign.apply, h.ne_nil, hscan, Except.map, Int64.ofInt_neg,
      Int64.mul_neg]

private theorem unit_spec : ∀ u ∈ units, (∀ b ∈ u.1, isLetter b = true ∧ isNumber b = false) ∧
    (extendedUnits.lookup (u.1.map asciiLower) = some (Int64.ofInt u.2) ∨
      extendedUnits.lookup (u.1.map asciiLower) = none ∧ unitMap.lookup u.1 = some u.2) := by
  decide +kernel

private theorem parseSegment_text_eq (seg : Segment) (hrest : StartsNumber rest) :
    parseSegment T (seg.text ++ rest) =
      match extendedUnits.lookup (seg.term.unit.map asciiLower) with
      | some mult => (scanInt (seg.sign.text ++ seg.term.digits)).map
          fun n => (seg.text, n * mult, seg.text.length)
      | none => (parseDuration seg.text).map fun parsed => (seg.text, parsed, seg.text.length) := by
  have hunit : ∀ b ∈ seg.term.unit, isLetter b = true ∧ isNumber b = false :=
    (unit_spec _ seg.term.mem_units).1
  have hne : seg.term.unit ≠ [] := isUnits_units.ne_nil _ seg.term.mem_units
  have htext : seg.text = (seg.sign.text ++ seg.term.digits) ++ seg.term.unit :=
    (append_assoc _ _ _).symm
  have hstop : ∀ b ∈ (seg.term.unit ++ rest).head?, isNumber b = false := by
    obtain ⟨c, cs, hcons⟩ := exists_cons_of_ne_nil hne
    intro b hb
    rw [hcons] at hb hunit
    obtain rfl : c = b := by simpa using hb
    exact (hunit c mem_cons_self).2
  obtain ⟨hnum, hafter⟩ := span_append (isNumber_of_mem seg) hstop
  obtain ⟨hletters, -⟩ := span_append (p := isLetter) (t := rest) (fun b hb => (hunit b hb).1)
    fun b hb => isLetter_of_isNumber (hrest b hb)
  simp only [parseSegment, htext, append_assoc _ seg.term.unit, hnum, hafter, hletters,
    number_ne_nil seg, hne, if_false]

private theorem parseSegment_text_append (seg : Segment) (hrest : StartsNumber rest) :
    if seg.isStandard = true ∧ ¬ Fits seg.value then
      ∃ e, parseSegment T (seg.text ++ rest) = .error e
    else parseSegment T (seg.text ++ rest) =
      .ok (seg.text, Int64.ofInt seg.value, seg.text.length) := by
  have hmul : ∀ (sign : Sign) (n m : Int), sign.apply n * m = sign.apply (n * m) := by
    intro sign n m
    cases sign <;> simp [Sign.apply]
  rw [parseSegment_text_eq seg hrest]
  rcases (unit_spec _ seg.term.mem_units).2 with hext | ⟨hnone, hstd⟩
  · have hstandard : ¬ (seg.isStandard = true ∧ ¬ Fits seg.value) := by
      simp [Segment.isStandard, hext]
    rw [if_neg hstandard, hext]
    simp only [scanInt_sign seg.sign seg.term.isDigits, Except.map, ← Int64.ofInt_mul, hmul]
    rw [Segment.value, Term.value, Nat.cast_mul]
  · have hstandard : seg.isStandard = true := by simp [Segment.isStandard, hnone]
    rw [hnone]
    dsimp only
    split_ifs with hcond
    · obtain ⟨e, he⟩ := parseDuration_text_error isUnits_units seg.sign hstd hcond.2
      rw [Segment.text, he]
      exact ⟨e, rfl⟩
    · have hfits : Fits seg.value := by
        by_contra hnot
        exact hcond ⟨hstandard, hnot⟩
      rw [Segment.text, parseDuration_text isUnits_units seg.sign hstd hfits]
      rfl

/-- A standard segment that does not fit. -/
def Misfit (segs : List Segment) : Prop :=
  ∃ seg ∈ segs, seg.isStandard = true ∧ ¬ Fits seg.value

private theorem not_misfit_nil : ¬ Misfit [] := fun ⟨_, hmem, _⟩ => absurd hmem not_mem_nil

private theorem misfit_cons :
    Misfit (seg :: segs) ↔ (seg.isStandard = true ∧ ¬ Fits seg.value) ∨ Misfit segs := by
  simp only [Misfit, exists_mem_cons_iff]

private theorem texts_cons_ne_nil (seg : Segment) (segs : List Segment) :
    texts (seg :: segs) ≠ [] := by
  intro h
  have htext := (append_eq_nil_iff.1 h).1
  have hterm := (append_eq_nil_iff.1 htext).2
  exact seg.term.isDigits.ne_nil (append_eq_nil_iff.1 hterm).1

private theorem texts_eq_nil (h : texts segs = []) : segs = [] := by
  cases segs with
  | nil => rfl
  | cons seg segs => exact absurd h (texts_cons_ne_nil seg segs)

private theorem parseRest_texts (h : ¬ Misfit segs) (a : Int) :
    parseRest T (Int64.ofInt a) (texts segs) = .ok (Int64.ofInt (a + total segs)) := by
  induction segs generalizing a with
  | nil => rw [texts, flatMap_nil, parseRest, dif_pos rfl, total, Int.add_zero]
  | cons seg segs ih =>
    rw [misfit_cons, not_or] at h
    have hparse := parseSegment_text_append (T := T) seg (startsNumber_texts segs)
    rw [if_neg h.1] at hparse
    rw [parseRest_of_ne_nil T (texts_cons_ne_nil seg segs), texts, flatMap_cons, ← texts, hparse]
    dsimp only
    rw [drop_left, ← Int64.ofInt_add, ih h.2, total, Int.add_assoc]

private theorem parseRest_texts_misfit (h : Misfit segs) (a : Int64) :
    ∃ e, parseRest T a (texts segs) = .error e := by
  induction segs generalizing a with
  | nil => exact absurd h not_misfit_nil
  | cons seg segs ih =>
    have hparse := parseSegment_text_append (T := T) seg (startsNumber_texts segs)
    rw [parseRest_of_ne_nil T (texts_cons_ne_nil seg segs), texts, flatMap_cons, ← texts]
    by_cases hseg : seg.isStandard = true ∧ ¬ Fits seg.value
    · rw [if_pos hseg] at hparse
      obtain ⟨e, he⟩ := hparse
      rw [he]
      exact ⟨_, rfl⟩
    · rw [if_neg hseg] at hparse
      rw [hparse]
      dsimp only
      rw [drop_left]
      exact ih ((misfit_cons.1 h).resolve_left hseg) _

/-- `Parse` on segments. -/
theorem parse_texts (hne : segs ≠ []) (h : ¬ Misfit segs) :
    parse T (texts segs) = .ok (Int64.ofInt (total segs)) := by
  have hrest := parseRest_texts (T := T) h 0
  rw [Int.zero_add] at hrest
  rw [parse, if_neg (mt texts_eq_nil hne), ← hrest]
  rfl

example : parse .basic (lit "2W3d") = .ok 1468800000000000 := by decide +kernel

private theorem parse_texts_misfit (h : Misfit segs) : ∃ e, parse T (texts segs) = .error e := by
  have hne : segs ≠ [] := by
    rintro rfl
    exact not_misfit_nil h
  rw [parse, if_neg (mt texts_eq_nil hne)]
  exact parseRest_texts_misfit h 0

end

/-! ### What is accepted -/

section

variable {T : RuneTables} {num unit rest : GoString}

variable {n d : Int64}

private theorem isDigitByte_of_scanDigits {m : Int64} {s : GoString} (h : scanDigits n s = .ok m) :
    ∀ b ∈ s, isDigitByte b = true := by
  induction s generalizing n with
  | nil => simp
  | cons c s ih =>
    rw [scanDigits] at h
    split_ifs at h with hc
    exact forall_mem_cons.2 ⟨hc, ih h⟩

private theorem exists_sign_of_scanInt (h : scanInt num = .ok n) :
    ∃ (sign : Sign) (digits : GoString), num = sign.text ++ digits ∧ IsDigits digits := by
  obtain ⟨sign, digits, heq, hdigits⟩ := exists_sign num
  refine ⟨sign, digits, heq, ?_⟩
  simp only [scanInt, hdigits] at h
  split at h
  · cases h
  next hne =>
    cases hscan : scanDigits 0 digits with
    | error e =>
      rw [hscan] at h
      cases h
    | ok m => exact ⟨hne, isDigitByte_of_scanDigits hscan⟩

private theorem mem_units_of_lookup {mult : Int64}
    (h : extendedUnits.lookup (unit.map asciiLower) = some mult) :
    ∃ scale, (unit, scale) ∈ units := by
  have hlower : ∀ {b c : UInt8}, asciiLower b = c → b = c ∨ b = c - 0x20 := by
    intro b c hb
    unfold asciiLower at hb
    split_ifs at hb
    · exact .inr (hb ▸ (UInt8.add_sub_cancel b 0x20).symm)
    · exact .inl hb
  obtain ⟨l₁, l₂, heq, -⟩ := lookup_eq_some_iff.1 h
  have hmem : (unit.map asciiLower, mult) ∈ extendedUnits := by simp [heq]
  have hnames : unit.map asciiLower ∈ [[0x64], [0x77], [0x6D, 0x6F]] :=
    mem_map_of_mem (f := Prod.fst) hmem
  match unit, hnames with
  | [], hnames => simp at hnames
  | [b], hnames =>
    have hb : asciiLower b = 0x64 ∨ asciiLower b = 0x77 := by simpa using hnames
    rcases hb with hb | hb
    · rcases hlower hb with rfl | rfl
      · exact ⟨86400000000000, by decide⟩
      · exact ⟨86400000000000, by decide⟩
    · rcases hlower hb with rfl | rfl
      · exact ⟨604800000000000, by decide⟩
      · exact ⟨604800000000000, by decide⟩
  | [b, c], hnames =>
    have hbc : asciiLower b = 0x6D ∧ asciiLower c = 0x6F := by simpa using hnames
    refine ⟨2592000000000000, ?_⟩
    rcases hlower hbc.1 with rfl | rfl
    · rcases hlower hbc.2 with rfl | rfl
      · decide
      · decide
    · rcases hlower hbc.2 with rfl | rfl
      · decide
      · decide
  | b :: c :: d :: rest, hnames => simp at hnames

private theorem exists_number_of_sign {sign : Sign} {body : GoString} (hne : num ≠ [])
    (h : num ++ unit = sign.text ++ body) :
    ∃ tail, num = sign.text ++ tail ∧ body = tail ++ unit := by
  rcases append_eq_append_iff.1 h with ⟨extra, hsign, hunit⟩ | ⟨tail, hnum, hbody⟩
  · have hlength : sign.text.length ≤ 1 := by cases sign <;> decide
    have hpos := length_pos_iff.2 hne
    have hextra : extra = [] := by
      have := congrArg List.length hsign
      rw [length_append] at this
      exact length_eq_zero_iff.1 (by omega)
    subst hextra
    exact ⟨[], by rw [hsign, append_nil, append_nil], hunit.symm⟩
  · exact ⟨tail, hnum, hbody⟩

private theorem rest_eq_nil_of_term {t : Term unitMap} (hnum : ∀ b ∈ num, isNumber b = true)
    (hunit : ∀ b ∈ unit, isLetter b = true) (h : num ++ unit = t.text ++ rest)
    (hrest : ∀ b ∈ rest.head?, isNumber b = true) : rest = [] := by
  cases rest with
  | nil => rfl
  | cons b rest =>
    exfalso
    rcases append_eq_append_iff.1 h with ⟨extra, htext, hletters⟩ | ⟨extra, hnumber, _⟩
    · have hletter := hunit b (by simp [hletters])
      rw [isLetter_of_isNumber (hrest b rfl)] at hletter
      cases hletter
    · have hmap : ∀ u ∈ unitMap, ∀ b ∈ u.1, isNumber b = false := by decide +kernel
      have hne : t.unit ≠ [] := isUnits_unitMap.ne_nil _ t.mem_units
      obtain ⟨c, hc⟩ := exists_mem_of_ne_nil _ hne
      have hnumber := hnum c (by simp [hnumber, Term.text, hc])
      rw [hmap _ t.mem_units c hc] at hnumber
      cases hnumber

private theorem exists_segment_of_parseDuration (hnum : ∀ b ∈ num, isNumber b = true)
    (hunit : ∀ b ∈ unit, isLetter b = true) (hne : num ≠ []) (hne' : unit ≠ [])
    (h : parseDuration (num ++ unit) = .ok d) :
    ∃ seg : Segment, num ++ unit = seg.text ∧ ¬ (seg.isStandard = true ∧ ¬ Fits seg.value) := by
  obtain ⟨sign, body, hs, hbody⟩ := exists_sign_of_parseDuration h
  obtain ⟨tail, rfl, rfl⟩ := exists_number_of_sign hne hs
  have htail : ∀ b ∈ tail, isNumber b = true := fun b hb => hnum b (mem_append_right _ hb)
  have hbytes : ∀ b ∈ tail ++ unit, isNumber b = true ∨ isLetter b = true := fun b hb =>
    (mem_append.1 hb).imp (htail b) (hunit b)
  have hzero : tail ++ unit ≠ lit "0" := by
    intro heq
    obtain ⟨c, hc⟩ := exists_mem_of_ne_nil unit hne'
    have hmem : c ∈ lit "0" := heq ▸ mem_append_right _ hc
    have hletter := hunit c hc
    rw [mem_singleton.1 hmem] at hletter
    cases hletter
  have hpoint : 0x2E ∉ tail ++ unit := fun hmem => absurd (hbytes _ hmem) (by decide)
  obtain ⟨v, rest, hterm⟩ := hbody.resolve_left hzero
  obtain ⟨t, ht, -, hrest⟩ := exists_term_of_readTerm hpoint hterm
  have hnil : rest = [] := by
    refine rest_eq_nil_of_term htail hunit ht fun b hb => ?_
    have hb' : b ∈ tail ++ unit := ht ▸ mem_append_right _ (mem_of_mem_head? hb)
    rcases Bool.or_eq_true_iff.1 (hrest b hb) with hpt | hdigit
    · exact absurd (beq_iff_eq.1 hpt ▸ hb') hpoint
    · simp [isNumber, hdigit]
  rw [hnil, append_nil] at ht
  have hmap : ∀ u ∈ unitMap, (∀ b ∈ u.1, isNumber b = true ∨ isLetter b = true) → u ∈ units := by
    decide +kernel
  have hmem := hmap _ t.mem_units fun b hb => hbytes b (ht ▸ mem_append_right _ hb)
  refine ⟨⟨sign, t.digits, t.unit, t.scale, t.isDigits, hmem⟩, ?_, fun hmisfit => ?_⟩
  · rw [append_assoc, ht]
    rfl
  · obtain ⟨e, he⟩ := parseDuration_text_error isUnits_unitMap sign
      (isUnits_unitMap.lookup _ t.mem_units) hmisfit.2
    rw [append_assoc, ht, he] at h
    cases h

private theorem exists_segment_of_parseSegment {segment : GoString} {parsed : Int64}
    {consumed : Nat} (h : parseSegment T rest = .ok (segment, parsed, consumed)) :
    ∃ seg : Segment, rest = seg.text ++ rest.drop consumed ∧
      ¬ (seg.isStandard = true ∧ ¬ Fits seg.value) := by
  obtain ⟨num, unit, tail, heq, rfl, hne, hne', hnum, hunit, hcases⟩ := parseSegment_eq_ok T h
  have hdrop : rest.drop (num ++ unit).length = tail := by rw [heq, drop_left]
  have hseg : ∃ seg : Segment, num ++ unit = seg.text ∧
      ¬ (seg.isStandard = true ∧ ¬ Fits seg.value) := by
    rcases hcases with ⟨mult, n, hlookup, hscan, -⟩ | ⟨-, hparse⟩
    · obtain ⟨sign, digits, rfl, hdigits⟩ := exists_sign_of_scanInt hscan
      obtain ⟨scale, hmem⟩ := mem_units_of_lookup hlookup
      refine ⟨⟨sign, digits, unit, scale, hdigits, hmem⟩, append_assoc _ _ _, ?_⟩
      simp [Segment.isStandard, hlookup]
    · exact exists_segment_of_parseDuration hnum hunit hne hne' hparse
  obtain ⟨seg, htext, hfits⟩ := hseg
  exact ⟨seg, by rw [hdrop, ← htext, heq], hfits⟩

private theorem exists_segments_of_parseRest {a : Int64} (h : parseRest T a rest = .ok d) :
    ∃ segs, rest = texts segs ∧ ¬ Misfit segs := by
  fun_induction parseRest T a rest with
  | case1 a => exact ⟨[], rfl, not_misfit_nil⟩
  | case2 => cases h
  | case3 a rest hne segment parsed consumed hparse _ _ ih =>
    obtain ⟨segs, htexts, hsegs⟩ := ih h
    obtain ⟨seg, htext, hseg⟩ := exists_segment_of_parseSegment hparse
    refine ⟨seg :: segs, ?_, ?_⟩
    · rw [texts, flatMap_cons, ← texts, ← htexts, ← htext]
    · rw [misfit_cons]
      exact not_or.2 ⟨hseg, hsegs⟩

private theorem exists_segments_of_parse {s : GoString} (h : parse T s = .ok d) :
    ∃ segs, s = texts segs ∧ segs ≠ [] ∧ ¬ Misfit segs := by
  rw [parse] at h
  split_ifs at h with hne
  obtain ⟨segs, hs, hsegs⟩ := exists_segments_of_parseRest h
  refine ⟨segs, hs, ?_, hsegs⟩
  rintro rfl
  exact hne hs

example : parse .basic (lit "5y") =
    .error (lit "duration: time: unknown unit \"y\" in duration \"5y\"") := by decide +kernel

end

/-! ### The theorem -/

/-- `Parse` is exact or fails: what it returns is the sum of the segments, and a sum that does
not fit is rejected. -/
def Exact (T : RuneTables) (s : GoString) : Prop :=
  (∀ d, parse T s = .ok d → ∃ segs, s = texts segs ∧ d.toInt = total segs) ∧
    ∀ segs, s = texts segs → ¬ Fits (total segs) → ∃ e, parse T s = .error e

/-- `Parse` is exact or fails on exactly the strings whose sum fits or that have a standard
segment which does not fit by itself. -/
theorem parse_exact_iff (T : RuneTables) (s : GoString) :
    Exact T s ↔ ∀ segs, s = texts segs → Fits (total segs) ∨ Misfit segs := by
  constructor
  · rintro ⟨-, hreject⟩ segs rfl
    by_contra hnot
    obtain ⟨hfits, hmisfit⟩ := not_or.1 hnot
    have hne : segs ≠ [] := by
      rintro rfl
      exact hfits (by decide)
    obtain ⟨e, he⟩ := hreject segs rfl hfits
    rw [parse_texts hne hmisfit] at he
    cases he
  · intro h
    refine ⟨fun d hd => ?_, ?_⟩
    · obtain ⟨segs, rfl, hne, hsegs⟩ := exists_segments_of_parse hd
      rw [parse_texts hne hsegs] at hd
      obtain rfl := Except.ok.inj hd
      obtain ⟨hlow, hhigh⟩ := (h segs rfl).resolve_right hsegs
      exact ⟨segs, rfl, Int64.toInt_ofInt_of_le hlow hhigh⟩
    · rintro segs rfl hfits
      exact parse_texts_misfit ((h segs rfl).resolve_left hfits)

/-- Days are multiplied without a check: 200000 of them are more than 2⁶³ nanoseconds, and what
comes out is negative. -/
theorem parse_wraps_days :
    ∃ segs, lit "200000d" = texts segs ∧ total segs = 17280000000000000000 ∧
      parse .basic (lit "200000d") = .ok (-1166744073709551616) ∧
      ¬ Exact .basic (lit "200000d") := by
  let term : Term units :=
    ⟨lit "200000", lit "d", 86400000000000, ⟨by decide, forall_mem_of_all rfl⟩, by decide⟩
  have hs : lit "200000d" = texts [⟨.none, term⟩] := by decide
  have hparse : parse .basic (lit "200000d") = .ok (-1166744073709551616) := by decide +kernel
  refine ⟨[⟨.none, term⟩], hs, by decide, hparse, fun hexact => ?_⟩
  obtain ⟨e, he⟩ := hexact.2 _ hs (by decide)
  rw [hparse] at he
  cases he

end Athos.Duration
