import Athos.Base.Float64

/-!
# Reading durations

`ParseDuration` of the Go package `time`: an optional sign and terms, each of a decimal number and a
unit. The terms are added up in 64 bits without a sign, of which a sum may use all values up to 2⁶³.
Strings without a point have integers as terms.
-/

namespace Athos.Base

open List

namespace GoDuration

/-! ### Units and errors -/

/-- `unitMap`, in nanoseconds; the two signs for micro are U+00B5 and U+03BC. -/
def unitMap : List (GoString × Nat) :=
  [(lit "ns", 1), (lit "us", 1000), (lit "µs", 1000), (lit "μs", 1000), (lit "ms", 1000000),
    (lit "s", 1000000000), (lit "m", 60000000000), (lit "h", 3600000000000)]

/-- What can be wrong with a string. -/
inductive Flaw where
  | invalid
  | missingUnit
  | unknownUnit (unit : GoString)
  deriving DecidableEq

/-- A hexadecimal digit of `quote`. -/
def hexDigit (n : Nat) : UInt8 := UInt8.ofNat (if n < 10 then 0x30 + n else 0x57 + n)

/-- `quote`. -/
def quote (s : GoString) : GoString :=
  0x22 :: (s.flatMap fun b =>
    if 0x80 ≤ b ∨ b < 0x20 then lit "\\x" ++ [hexDigit (b.toNat / 16), hexDigit (b.toNat % 16)]
    else if b = 0x22 ∨ b = 0x5C then [0x5C, b]
    else [b]) ++ [0x22]

/-- The text of the error. -/
def Flaw.text (orig : GoString) : Flaw → GoString
  | invalid => lit "time: invalid duration " ++ quote orig
  | missingUnit => lit "time: missing unit in duration " ++ quote orig
  | unknownUnit u => lit "time: unknown unit " ++ quote u ++ lit " in duration " ++ quote orig

/-! ### Terms -/

/-- `leadingInt`, with the number read so far; `none` is an overflow. -/
def leadingInt : Nat → GoString → Option (Nat × GoString)
  | x, [] => some (x, [])
  | x, c :: s =>
    if isDigitByte c then
      if 2 ^ 63 / 10 < x then none
      else if 2 ^ 63 < 10 * x + (c.toNat - 0x30) then none
      else leadingInt (10 * x + (c.toNat - 0x30)) s
    else some (x, c :: s)

/-- `leadingFraction`, with the digits read so far, their scale and whether digits are being
dropped. -/
def leadingFraction : Nat → Option Rat → Bool → GoString → Nat × Option Rat × GoString
  | x, scale, _, [] => (x, scale, [])
  | x, scale, overflow, c :: s =>
    if isDigitByte c then
      if overflow ∨ (2 ^ 63 - 1) / 10 < x ∨ 2 ^ 63 < 10 * x + (c.toNat - 0x30) then
        leadingFraction x scale true s
      else
        leadingFraction (10 * x + (c.toNat - 0x30)) (scale.bind fun q => Float64.round (q * 10))
          false s
    else (x, scale, c :: s)

/-- What a fraction adds, in `float64`; an infinite scale leaves nothing. -/
def fractionValue (f unit : Nat) (scale : Option Rat) : Nat :=
  let quotient := scale.bind fun q => Float64.round (unit / q)
  let product := (Float64.round f).bind fun f => quotient.bind fun q => Float64.round (f * q)
  match product with
  | none => 0
  | some q => (q.num.tdiv q.den).toNat

/-- The bytes that end a unit. -/
def isNumeric (b : UInt8) : Bool := b == 0x2E || isDigitByte b

/-- The fraction after a whole number: its digits, their scale, what follows, and whether there
are any. -/
def readFraction : GoString → Nat × Option Rat × GoString × Bool
  | [] => (0, some 1, [], false)
  | c :: s =>
    if c = 0x2E then
      let (f, scale, rest) := leadingFraction 0 (some 1) false s
      (f, scale, rest, rest.length ≠ s.length)
    else (0, some 1, c :: s, false)

/-- The unit after a number: the value of the two and what follows. -/
def readUnit (v f : Nat) (scale : Option Rat) (s : GoString) : Except Flaw (Nat × GoString) :=
  let u := s.takeWhile (!isNumeric ·)
  let rest := s.dropWhile (!isNumeric ·)
  if u = [] then .error .missingUnit
  else
    match unitMap.lookup u with
    | none => .error (.unknownUnit u)
    | some unit =>
      if 2 ^ 63 / unit < v then .error .invalid
      else if f = 0 then .ok (v * unit, rest)
      else if 2 ^ 63 < v * unit + fractionValue f unit scale then .error .invalid
      else .ok (v * unit + fractionValue f unit scale, rest)

/-- One turn of the loop: the value of the first term and what follows it. -/
def readTerm (s : GoString) : Except Flaw (Nat × GoString) :=
  if ¬ s.head?.any isNumeric then .error .invalid
  else
    match leadingInt 0 s with
    | none => .error .invalid
    | some (v, rest) =>
      let (f, scale, tail, post) := readFraction rest
      if rest.length = s.length ∧ post = false then .error .invalid
      else readUnit v f scale tail

variable {x v w d : Nat} {s rest : GoString}

private theorem leadingInt_length (h : leadingInt x s = some (v, rest)) :
    rest.length ≤ s.length := by
  fun_induction leadingInt x s with
  | case1 x =>
    cases h
    exact Nat.le_refl _
  | case2 => cases h
  | case3 => cases h
  | case4 x c s hdigit _ _ ih => exact Nat.le_succ_of_le (ih h)
  | case5 x c s hdigit =>
    cases h
    exact Nat.le_refl _

private theorem leadingFraction_length (x : Nat) (scale : Option Rat) (overflow : Bool)
    (s : GoString) :
    (leadingFraction x scale overflow s).2.2.length ≤ s.length := by
  fun_induction leadingFraction x scale overflow s with
  | case1 => exact Nat.le_refl _
  | case2 x scale overflow c s hdigit hdrop ih => exact Nat.le_succ_of_le ih
  | case3 x scale overflow c s hdigit hkeep ih => exact Nat.le_succ_of_le ih
  | case4 => exact Nat.le_refl _

private theorem readFraction_length (s : GoString) : (readFraction s).2.2.1.length ≤ s.length := by
  cases s with
  | nil => exact Nat.le_refl _
  | cons c s =>
    rw [readFraction]
    split_ifs
    · exact Nat.le_succ_of_le (leadingFraction_length 0 (some 1) false s)
    · exact Nat.le_refl _

private theorem readUnit_length {f : Nat} {scale : Option Rat}
    (h : readUnit v f scale s = .ok (w, rest)) :
    rest.length < s.length := by
  have hsplit : s.takeWhile (!isNumeric ·) ≠ [] ∧ rest = s.dropWhile (!isNumeric ·) := by
    unfold readUnit at h
    dsimp only at h
    split at h
    · cases h
    next hne =>
      refine ⟨hne, ?_⟩
      split at h
      · cases h
      · split_ifs at h
        · exact (congrArg Prod.snd (Except.ok.inj h)).symm
        · exact (congrArg Prod.snd (Except.ok.inj h)).symm
  have hlength := congrArg List.length
    (takeWhile_append_dropWhile (p := (!isNumeric ·)) (l := s))
  have hpos := length_pos_iff.2 hsplit.1
  rw [length_append] at hlength
  rw [hsplit.2]
  omega

private theorem readTerm_length (h : readTerm s = .ok (v, rest)) : rest.length < s.length := by
  unfold readTerm at h
  split_ifs at h
  split at h
  · cases h
  next v' tail hlead =>
    have hle := leadingInt_length hlead
    have hfraction := readFraction_length tail
    simp only at h
    split_ifs at h
    exact Nat.lt_of_lt_of_le (readUnit_length h) (hfraction.trans hle)

/-! ### Sums -/

/-- The loop of `ParseDuration`, with the sum so far. -/
def sumTerms (d : Nat) (s : GoString) : Except Flaw Nat :=
  if s = [] then .ok d
  else
    match h : readTerm s with
    | .error flaw => .error flaw
    | .ok (v, rest) =>
      if 2 ^ 63 < (d + v) % 2 ^ 64 then .error .invalid
      else
        have := readTerm_length h
        sumTerms ((d + v) % 2 ^ 64) rest
termination_by s.length

private theorem sumTerms_of_ne_nil (hs : s ≠ []) :
    sumTerms d s =
      match readTerm s with
      | .error flaw => .error flaw
      | .ok (v, rest) =>
        if 2 ^ 63 < (d + v) % 2 ^ 64 then .error .invalid
        else sumTerms ((d + v) % 2 ^ 64) rest := by
  rw [sumTerms, if_neg hs]
  split
  · next heq => simp only [heq]
  · next heq => simp only [heq]

private theorem sumTerms_le {e : Nat} (hd : d ≤ 2 ^ 63) (h : sumTerms d s = .ok e) :
    e ≤ 2 ^ 63 := by
  fun_induction sumTerms d s with
  | case1 d =>
    cases h
    exact hd
  | case2 => cases h
  | case3 => cases h
  | case4 d s _ v rest _ hle _ ih => exact ih (by omega) h

/-- `ParseDuration`. -/
def parseDuration (s : GoString) : Except GoString Int64 :=
  let body := if s.head? = some 0x2D ∨ s.head? = some 0x2B then s.tail else s
  if body = lit "0" then .ok 0
  else if body = [] then .error (Flaw.invalid.text s)
  else
    match sumTerms 0 body with
    | .error flaw => .error (flaw.text s)
    | .ok d =>
      if s.head? = some 0x2D then .ok (Int64.ofInt (-d))
      else if 2 ^ 63 - 1 < d then .error (Flaw.invalid.text s)
      else .ok (Int64.ofInt d)

/-! ### Integers as terms -/

private theorem leadingInt_eq (hx : x ≤ 2 ^ 63) (s : GoString) :
    leadingInt x s =
      let digits := s.takeWhile isDigitByte
      let v := x * 10 ^ digits.length + digitsValue digits
      if v ≤ 2 ^ 63 then some (v, s.dropWhile isDigitByte) else none := by
  induction s generalizing x with
  | nil =>
    simp only [leadingInt, takeWhile_nil, dropWhile_nil, length_nil, Nat.pow_zero,
      Nat.mul_one, digitsValue, foldl_nil, Nat.add_zero, if_pos hx]
  | cons c s ih =>
    cases hdigit : isDigitByte c with
    | false =>
      simp only [leadingInt, hdigit, takeWhile_cons_of_neg, dropWhile_cons_of_neg,
        Bool.false_eq_true, not_false_eq_true, if_false, length_nil, Nat.pow_zero,
        Nat.mul_one, digitsValue, foldl_nil, Nat.add_zero, if_pos hx]
    | true =>
      have hvalue : x * 10 ^ (s.takeWhile isDigitByte).length.succ +
          digitsValue (c :: s.takeWhile isDigitByte) =
          (10 * x + (c.toNat - 0x30)) * 10 ^ (s.takeWhile isDigitByte).length +
            digitsValue (s.takeWhile isDigitByte) := by
        rw [digitsValue_cons, Nat.pow_succ]
        ring
      have hle : 10 * x + (c.toNat - 0x30) ≤
          (10 * x + (c.toNat - 0x30)) * 10 ^ (s.takeWhile isDigitByte).length :=
        Nat.le_mul_of_pos_right _ (Nat.pow_pos (by decide))
      simp only [leadingInt, hdigit, if_true, takeWhile_cons_of_pos,
        dropWhile_cons_of_pos, length_cons, hvalue]
      by_cases hsmall : 10 * x + (c.toNat - 0x30) ≤ 2 ^ 63
      · rw [if_neg (by omega), if_neg (by omega), ih hsmall]
      · have hover : ¬ (10 * x + (c.toNat - 0x30)) * 10 ^ (s.takeWhile isDigitByte).length +
            digitsValue (s.takeWhile isDigitByte) ≤ 2 ^ 63 := by omega
        rw [if_neg hover, if_pos (Nat.lt_of_not_le hsmall), ite_self]

private theorem readTerm_eq (hpoint : 0x2E ∉ s) :
    readTerm s =
      let digits := s.takeWhile isDigitByte
      if digits = [] ∨ 2 ^ 63 < digitsValue digits then .error .invalid
      else readUnit (digitsValue digits) 0 (some 1) (s.dropWhile isDigitByte) := by
  have hhead : s.head?.any isNumeric = false ↔ s.takeWhile isDigitByte = [] := by
    cases s with
    | nil => simp
    | cons c s =>
      have hc : c ≠ 0x2E := fun heq => hpoint (heq ▸ mem_cons_self)
      cases hdigit : isDigitByte c <;> simp [isNumeric, hdigit, hc]
  have hfraction : readFraction (s.dropWhile isDigitByte) =
      (0, some 1, s.dropWhile isDigitByte, false) := by
    cases hrest : s.dropWhile isDigitByte with
    | nil => rfl
    | cons c rest =>
      have hc : c ∈ s := (dropWhile_suffix _).mem (hrest ▸ mem_cons_self)
      have hne : c ≠ 0x2E := fun heq => hpoint (heq ▸ hc)
      rw [readFraction, if_neg hne]
  by_cases hdigits : s.takeWhile isDigitByte = []
  · rw [readTerm, hhead.2 hdigits]
    simp [hdigits]
  · have hany : s.head?.any isNumeric = true :=
      Bool.eq_true_of_not_eq_false (mt hhead.1 hdigits)
    have hlength := congrArg List.length
      (takeWhile_append_dropWhile (p := isDigitByte) (l := s))
    have hpos := length_pos_iff.2 hdigits
    rw [length_append] at hlength
    have hshort : ¬ ((s.dropWhile isDigitByte).length = s.length ∧ True) := by omega
    rw [readTerm, hany, leadingInt_eq (Nat.zero_le _)]
    simp only [hdigits, Nat.zero_mul, Nat.zero_add, false_or, not_true_eq_false, if_false]
    by_cases hle : digitsValue (s.takeWhile isDigitByte) ≤ 2 ^ 63
    · rw [if_pos hle, if_neg (Nat.not_lt.2 hle)]
      simp only [hfraction]
      exact if_neg hshort
    · rw [if_neg hle, if_pos (Nat.lt_of_not_le hle)]

/-- What a scan over bytes of one kind takes, and what it leaves. -/
theorem span_append {p : UInt8 → Bool} {t : GoString} (hs : ∀ b ∈ s, p b = true)
    (ht : ∀ b ∈ t.head?, p b = false) : (s ++ t).takeWhile p = s ∧ (s ++ t).dropWhile p = t := by
  rw [takeWhile_append_of_pos hs, dropWhile_append_of_pos hs]
  cases t with
  | nil => simp
  | cons b t =>
    have hb : ¬ p b = true := Bool.eq_false_iff.1 (ht b rfl)
    rw [takeWhile_cons_of_neg hb, dropWhile_cons_of_neg hb, append_nil]
    exact ⟨rfl, rfl⟩

/-- An integer and a unit. -/
structure Term (units : List (GoString × Nat)) where
  digits : GoString
  unit : GoString
  scale : Nat
  isDigits : IsDigits digits
  mem_units : (unit, scale) ∈ units

/-- Units that can be told from numbers and from each other. -/
structure IsUnits (units : List (GoString × Nat)) : Prop where
  ne_nil : ∀ u ∈ units, u.1 ≠ []
  not_numeric : ∀ u ∈ units, ∀ b ∈ u.1, isNumeric b = false
  lookup : ∀ u ∈ units, units.lookup u.1 = some u.2
  pos : ∀ u ∈ units, 0 < u.2

/-- The units of `time.ParseDuration` can be told apart. -/
theorem isUnits_unitMap : IsUnits unitMap :=
  ⟨by decide +kernel, by decide +kernel, by decide +kernel, by decide +kernel⟩

/-- Nothing, or what ends a unit. -/
def StartsNumeric (s : GoString) : Prop := ∀ b ∈ s.head?, isNumeric b = true

namespace Term

variable {units : List (GoString × Nat)}

/-- The term as it is written. -/
def text (t : Term units) : GoString := t.digits ++ t.unit

/-- The nanoseconds of the term. -/
def value (t : Term units) : Nat := digitsValue t.digits * t.scale

private theorem startsNumeric_text (t : Term units) (s : GoString) :
    StartsNumeric (t.text ++ s) := by
  obtain ⟨hne, hdigit⟩ := t.isDigits
  unfold text
  intro b hb
  cases hdigits : t.digits with
  | nil => exact absurd hdigits hne
  | cons c digits =>
    rw [hdigits] at hb hdigit
    obtain rfl : c = b := by simpa using hb
    simp [isNumeric, hdigit c mem_cons_self]

private theorem point_not_mem_text (hu : IsUnits units) (t : Term units) : 0x2E ∉ t.text := by
  intro hmem
  rcases mem_append.1 hmem with h | h
  · exact absurd (t.isDigits.digit _ h) (by decide)
  · exact absurd (hu.not_numeric _ t.mem_units _ h) (by decide)

end Term

variable {units : List (GoString × Nat)}

private theorem readTerm_text_append (hu : IsUnits units) (t : Term units) (hpoint : 0x2E ∉ rest)
    (hrest : StartsNumeric rest) :
    readTerm (t.text ++ rest) =
      if 2 ^ 63 < digitsValue t.digits then .error .invalid
      else
        match unitMap.lookup t.unit with
        | none => .error (.unknownUnit t.unit)
        | some scale =>
          if 2 ^ 63 / scale < digitsValue t.digits then .error .invalid
          else .ok (digitsValue t.digits * scale, rest) := by
  have hunit : ∀ b ∈ t.unit, (!isNumeric b) = true := fun b hb => by
    rw [hu.not_numeric _ t.mem_units b hb]
    rfl
  have hstop : ∀ b ∈ (t.unit ++ rest).head?, isDigitByte b = false := by
    cases hcons : t.unit with
    | nil => exact absurd hcons (hu.ne_nil _ t.mem_units)
    | cons c unit =>
      intro b hb
      obtain rfl : c = b := by simpa using hb
      have hc := hu.not_numeric _ t.mem_units c (hcons ▸ mem_cons_self)
      exact (Bool.or_eq_false_iff.1 hc).2
  obtain ⟨hdigits, hafter⟩ := span_append t.isDigits.digit hstop
  obtain ⟨hu₁, hu₂⟩ := span_append hunit (t := rest) fun b hb => by
    rw [hrest b hb]
    rfl
  have hpoint' : 0x2E ∉ t.text ++ rest := by
    rw [mem_append, not_or]
    exact ⟨t.point_not_mem_text hu, hpoint⟩
  rw [readTerm_eq hpoint', Term.text, append_assoc]
  simp only [hdigits, hafter, t.isDigits.ne_nil, false_or, readUnit, hu₁, hu₂,
    hu.ne_nil _ t.mem_units, if_false, if_true]

private theorem exists_unit_of_readUnit {scale : Option Rat}
    (h : readUnit v 0 scale s = .ok (w, rest)) :
    ∃ u ∈ unitMap, s = u.1 ++ rest ∧ w = v * u.2 ∧ StartsNumeric rest := by
  unfold readUnit at h
  dsimp only at h
  split at h
  · cases h
  split at h
  · cases h
  next unit hlookup =>
    split at h
    · cases h
    obtain ⟨rfl, rfl⟩ := Prod.mk.inj (Except.ok.inj h)
    obtain ⟨l₁, l₂, heq, -⟩ := lookup_eq_some_iff.1 hlookup
    refine ⟨(s.takeWhile (!isNumeric ·), unit), by simp [heq],
      takeWhile_append_dropWhile.symm, rfl, fun b hb => ?_⟩
    have hstop := head?_dropWhile_not (!isNumeric ·) s
    rw [hb] at hstop
    simpa using hstop

/-- What is read as a term is one. -/
theorem exists_term_of_readTerm (hpoint : 0x2E ∉ s) (h : readTerm s = .ok (v, rest)) :
    ∃ t : Term unitMap, s = t.text ++ rest ∧ v = t.value ∧ StartsNumeric rest := by
  rw [readTerm_eq hpoint] at h
  dsimp only at h
  split at h
  · cases h
  next hdigits =>
    obtain ⟨u, hmem, heq, rfl, hrest⟩ := exists_unit_of_readUnit h
    have hall : ∀ b ∈ s.takeWhile isDigitByte, isDigitByte b = true :=
      fun b hb => mem_takeWhile_imp hb
    refine ⟨⟨_, u.1, u.2, ⟨(not_or.1 hdigits).1, hall⟩, hmem⟩, ?_, rfl, hrest⟩
    rw [Term.text, append_assoc, ← heq, takeWhile_append_dropWhile]

/-! ### Strings of terms -/

/-- Terms one after another. -/
def texts (ts : List (Term units)) : GoString := ts.flatMap Term.text

/-- The nanoseconds of terms. -/
def total : List (Term units) → Nat
  | [] => 0
  | t :: ts => t.value + total ts

variable {t : Term units} {ts : List (Term units)}

/-- A term is at most the sum. -/
theorem value_le_total (h : t ∈ ts) : t.value ≤ total ts := by
  induction ts with
  | nil => cases h
  | cons u ts ih =>
    rw [total]
    rcases mem_cons.1 h with rfl | h
    · exact Nat.le_add_right _ _
    · exact Nat.le_add_left_of_le (ih h)

private theorem point_not_mem_texts (hu : IsUnits units) (ts : List (Term units)) :
    0x2E ∉ texts ts := by
  intro hmem
  obtain ⟨t, -, ht⟩ := mem_flatMap.1 hmem
  exact t.point_not_mem_text hu ht

/-- Terms start with a digit. -/
theorem startsNumeric_texts (ts : List (Term units)) : StartsNumeric (texts ts) := by
  cases ts with
  | nil =>
    intro b hb
    cases hb
  | cons t ts => exact t.startsNumeric_text (texts ts)

/-- Terms have a text. -/
theorem texts_cons_ne_nil (t : Term units) (ts : List (Term units)) : texts (t :: ts) ≠ [] := by
  intro h
  have hnil := (append_eq_nil_iff.1 (append_eq_nil_iff.1 h).1).1
  exact t.isDigits.ne_nil hnil

private theorem sumTerms_texts_cons (hu : IsUnits units) (d : Nat) (t : Term units)
    (ts : List (Term units)) :
    sumTerms d (texts (t :: ts)) =
      if 2 ^ 63 < digitsValue t.digits then .error .invalid
      else
        match unitMap.lookup t.unit with
        | none => .error (.unknownUnit t.unit)
        | some scale =>
          if 2 ^ 63 / scale < digitsValue t.digits ∨
              2 ^ 63 < (d + digitsValue t.digits * scale) % 2 ^ 64 then .error .invalid
          else sumTerms ((d + digitsValue t.digits * scale) % 2 ^ 64) (texts ts) := by
  rw [sumTerms_of_ne_nil (texts_cons_ne_nil t ts), texts, flatMap_cons, ← texts,
    readTerm_text_append hu t (point_not_mem_texts hu ts) (startsNumeric_texts ts)]
  by_cases hlarge : 2 ^ 63 < digitsValue t.digits
  · simp only [if_pos hlarge]
  · simp only [if_neg hlarge]
    cases unitMap.lookup t.unit with
    | none => rfl
    | some scale =>
      by_cases hover : 2 ^ 63 / scale < digitsValue t.digits
      · simp only [hover, true_or, if_true]
      · simp only [hover, false_or, if_false]

private theorem sumTerms_texts (hu : IsUnits units)
    (hknown : ∀ t ∈ ts, unitMap.lookup t.unit = some t.scale) (hd : d + total ts ≤ 2 ^ 63) :
    sumTerms d (texts ts) = .ok (d + total ts) := by
  induction ts generalizing d with
  | nil => rw [texts, flatMap_nil, sumTerms, if_pos rfl, total, Nat.add_zero]
  | cons t ts ih =>
    obtain ⟨ht, hts⟩ := forall_mem_cons.1 hknown
    rw [total] at hd ⊢
    have hpos := hu.pos _ t.mem_units
    have hvalue : digitsValue t.digits * t.scale = t.value := rfl
    have hle : digitsValue t.digits ≤ t.value := Nat.le_mul_of_pos_right _ hpos
    have hmod : (d + t.value) % 2 ^ 64 = d + t.value := Nat.mod_eq_of_lt (by omega)
    have hfits : ¬ (2 ^ 63 / t.scale < digitsValue t.digits ∨ 2 ^ 63 < d + t.value) := by
      rw [Nat.div_lt_iff_lt_mul hpos, hvalue]
      omega
    rw [sumTerms_texts_cons hu, if_neg (by omega), ht]
    dsimp only
    rw [hvalue, hmod, if_neg hfits, ih hts (by omega), Nat.add_assoc]

private theorem sumTerms_texts_unknown (hu : IsUnits units) (hmem : t ∈ ts)
    (ht : unitMap.lookup t.unit = none) (d : Nat) :
    ∃ flaw, sumTerms d (texts ts) = .error flaw := by
  induction ts generalizing d with
  | nil => cases hmem
  | cons first ts ih =>
    rw [sumTerms_texts_cons hu]
    split_ifs with hlarge
    · exact ⟨_, rfl⟩
    cases hlookup : unitMap.lookup first.unit with
    | none => exact ⟨_, rfl⟩
    | some scale =>
      rcases mem_cons.1 hmem with rfl | hmem
      · rw [ht] at hlookup
        cases hlookup
      · dsimp only
        split_ifs
        · exact ⟨_, rfl⟩
        · exact ih hmem _

private theorem sumTerms_text_of_lt (hu : IsUnits units) (ht : unitMap.lookup t.unit = some t.scale)
    (hlt : 2 ^ 63 < t.value) : sumTerms 0 (texts [t]) = .error .invalid := by
  have hover : 2 ^ 63 / t.scale < digitsValue t.digits :=
    (Nat.div_lt_iff_lt_mul (hu.pos _ t.mem_units)).2 hlt
  rw [sumTerms_texts_cons hu, ht]
  split_ifs
  · rfl
  · simp only [hover, true_or, if_true]

/-! ### Signs -/

/-- The sign of a number. -/
inductive Sign where
  | none
  | plus
  | minus
  deriving DecidableEq

/-- The sign as it is written. -/
def Sign.text : Sign → GoString
  | none => []
  | plus => [0x2B]
  | minus => [0x2D]

/-- The number with its sign. -/
def Sign.apply : Sign → Int → Int
  | none, n => n
  | plus, n => n
  | minus, n => -n

/-- In the range of 64 bits with a sign. -/
def Fits (n : Int) : Prop := -2 ^ 63 ≤ n ∧ n < 2 ^ 63

instance (n : Int) : Decidable (Fits n) := inferInstanceAs (Decidable (_ ∧ _))

private theorem parseDuration_sign {sign : Sign} {body : GoString} (hne : body ≠ [])
    (hzero : body ≠ lit "0") (hbody : StartsNumeric body) :
    parseDuration (sign.text ++ body) =
      match sumTerms 0 body with
      | .error flaw => .error (flaw.text (sign.text ++ body))
      | .ok d =>
        if Fits (sign.apply d) then .ok (Int64.ofInt (sign.apply d))
        else .error (Flaw.invalid.text (sign.text ++ body)) := by
  have hhead : ∀ b, isNumeric b = false → body.head? ≠ some b := by
    intro b hb heq
    rw [hbody b heq] at hb
    cases hb
  have hminus := hhead 0x2D rfl
  have hplus := hhead 0x2B rfl
  have hstrip : (if (sign.text ++ body).head? = some 0x2D ∨ (sign.text ++ body).head? = some 0x2B
      then (sign.text ++ body).tail else sign.text ++ body) = body := by
    cases sign <;> simp [Sign.text, hminus, hplus]
  have hsign : (sign.text ++ body).head? = some 0x2D ↔ sign = .minus := by
    cases sign <;> simp [Sign.text, hminus]
  simp only [parseDuration, hstrip, hne, hzero, if_false]
  simp only [hsign]
  cases hsum : sumTerms 0 body with
  | error flaw => rfl
  | ok d =>
    have hd := sumTerms_le (by decide) hsum
    have hpositive : ∀ e r : Except GoString Int64,
        (if 2 ^ 63 - 1 < d then e else r) = if Fits (d : Int) then r else e := by
      intro e r
      by_cases hlarge : 2 ^ 63 - 1 < d
      · have hfits : ¬ Fits (d : Int) := fun h => by
          have := h.2
          omega
        rw [if_pos hlarge, if_neg hfits]
      · rw [if_neg hlarge, if_pos ⟨by omega, by omega⟩]
    cases sign with
    | none => exact hpositive _ _
    | plus => exact hpositive _ _
    | minus =>
      have hfits : Fits (-(d : Int)) := ⟨by omega, by omega⟩
      exact (if_pos hfits).symm

private theorem texts_ne_zero (hu : IsUnits units) (ts : List (Term units)) :
    texts ts ≠ lit "0" := by
  intro h
  cases ts with
  | nil => cases h
  | cons t ts =>
    have hlength := congrArg List.length h
    have hdigits := length_pos_iff.2 t.isDigits.ne_nil
    have hunit : 0 < t.unit.length := length_pos_iff.2 (hu.ne_nil _ t.mem_units)
    have hone : (lit "0").length = 1 := by decide
    simp only [texts, flatMap_cons, Term.text, length_append, hone] at hlength
    omega

/-- Terms are added up and the sign is that of the sum. -/
theorem parseDuration_texts (hu : IsUnits units) (sign : Sign) (hne : ts ≠ [])
    (hknown : ∀ t ∈ ts, unitMap.lookup t.unit = some t.scale)
    (hfits : Fits (sign.apply (total ts))) :
    parseDuration (sign.text ++ texts ts) = .ok (Int64.ofInt (sign.apply (total ts))) := by
  have hnil : texts ts ≠ [] := by
    obtain ⟨t, ts, rfl⟩ := exists_cons_of_ne_nil hne
    exact texts_cons_ne_nil t ts
  have hle : total ts ≤ 2 ^ 63 := by
    unfold Fits at hfits
    cases sign <;> simp only [Sign.apply] at hfits <;> omega
  rw [parseDuration_sign hnil (texts_ne_zero hu ts) (startsNumeric_texts ts),
    sumTerms_texts hu hknown (by omega), Nat.zero_add]
  exact if_pos hfits

example : parseDuration (lit "-1h20us") = .ok (-3600000020000) := by decide +kernel

/-- A unit that is not known is an error. -/
theorem parseDuration_texts_unknown (hu : IsUnits units) (sign : Sign) (hmem : t ∈ ts)
    (ht : unitMap.lookup t.unit = none) :
    ∃ e, parseDuration (sign.text ++ texts ts) = .error e := by
  have hnil : texts ts ≠ [] := by
    obtain ⟨t, ts, rfl⟩ := exists_cons_of_ne_nil (ne_nil_of_mem hmem)
    exact texts_cons_ne_nil t ts
  obtain ⟨flaw, hflaw⟩ := sumTerms_texts_unknown hu hmem ht 0
  rw [parseDuration_sign hnil (texts_ne_zero hu ts) (startsNumeric_texts ts), hflaw]
  exact ⟨_, rfl⟩

example : parseDuration (lit "3x") =
    .error (lit "time: unknown unit \"x\" in duration \"3x\"") := by decide +kernel

private theorem texts_singleton (t : Term units) : texts [t] = t.text := append_nil t.text

/-- A single term with its sign. -/
theorem parseDuration_text (hu : IsUnits units) (sign : Sign)
    (ht : unitMap.lookup t.unit = some t.scale) (hfits : Fits (sign.apply t.value)) :
    parseDuration (sign.text ++ t.text) = .ok (Int64.ofInt (sign.apply t.value)) := by
  rw [← texts_singleton]
  exact parseDuration_texts hu sign (cons_ne_nil t []) (by simpa using ht) hfits

/-- A term that does not fit is an error. -/
theorem parseDuration_text_error (hu : IsUnits units) (sign : Sign)
    (ht : unitMap.lookup t.unit = some t.scale) (hfits : ¬ Fits (sign.apply t.value)) :
    ∃ e, parseDuration (sign.text ++ t.text) = .error e := by
  rw [← texts_singleton, parseDuration_sign (texts_cons_ne_nil t []) (texts_ne_zero hu _)
    (startsNumeric_texts _)]
  by_cases hlt : 2 ^ 63 < t.value
  · rw [sumTerms_text_of_lt hu ht hlt]
    exact ⟨_, rfl⟩
  · have htotal : total [t] = t.value := rfl
    rw [sumTerms_texts hu (by simpa using ht) (by omega), Nat.zero_add, htotal]
    exact ⟨_, if_neg hfits⟩

/-- Every string has a sign, if only none. -/
theorem exists_sign (s : GoString) : ∃ (sign : Sign) (body : GoString), s = sign.text ++ body ∧
    (if s.head? = some 0x2D ∨ s.head? = some 0x2B then s.tail else s) = body := by
  cases s with
  | nil => exact ⟨.none, [], rfl, by simp⟩
  | cons c s =>
    by_cases hminus : c = 0x2D
    · exact ⟨.minus, s, by rw [hminus]; rfl, by simp [hminus]⟩
    · by_cases hplus : c = 0x2B
      · exact ⟨.plus, s, by rw [hplus]; rfl, by simp [hplus]⟩
      · exact ⟨.none, c :: s, rfl, by simp [hminus, hplus]⟩

/-- What is accepted is a zero or begins with a term, after its sign. -/
theorem exists_sign_of_parseDuration {d : Int64} (h : parseDuration s = .ok d) :
    ∃ (sign : Sign) (body : GoString), s = sign.text ++ body ∧
      (body = lit "0" ∨ ∃ v rest, readTerm body = .ok (v, rest)) := by
  obtain ⟨sign, body, hs, hbody⟩ := exists_sign s
  refine ⟨sign, body, hs, or_iff_not_imp_left.2 fun hzero => ?_⟩
  simp only [parseDuration, hbody, hzero, if_false] at h
  split at h
  · cases h
  next hne =>
    rw [sumTerms_of_ne_nil hne] at h
    cases hterm : readTerm body with
    | error flaw =>
      rw [hterm] at h
      cases h
    | ok p => exact ⟨p.1, p.2, rfl⟩

end GoDuration

end Athos.Base
