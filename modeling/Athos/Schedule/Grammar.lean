import Athos.Base.Decimal
import Athos.Schedule.Agreement

/-!
# The grammar of cron expressions

What the webhook accepts, as a grammar. The numbers of an expression are strings of digits;
`Validate` of `src/internal/cronexpr/cronexpr.go` reads them with `strconv.Atoi`, which also takes
signs.
-/

namespace Athos.Schedule

open Base List

/-- A number: digits, and with signs also digits after a plus sign. -/
inductive IsNumber (signs : Bool) : GoString → Nat → Prop where
  | digits {p : GoString} (h : IsDigits p) : IsNumber signs p (digitsValue p)
  | plus {p : GoString} (hsigns : signs = true) (h : IsDigits p) :
    IsNumber signs (0x2B :: p) (digitsValue p)

/-- An upper bound: a number, and with signs also zero after a minus sign. -/
inductive IsUpper (signs : Bool) : GoString → Nat → Prop where
  | number {p : GoString} {n : Nat} (h : IsNumber signs p n) : IsUpper signs p n
  | minus {p : GoString} (hsigns : signs = true) (h : IsDigits p) (hzero : digitsValue p = 0) :
    IsUpper signs (0x2D :: p) 0

/-- A wildcard, a number or a range. -/
inductive IsBase (signs : Bool) (min max : Int) : GoString → Prop where
  | star : IsBase signs min max (lit "*")
  | number {p : GoString} {n : Nat} (h : IsNumber signs p n) (hmin : min ≤ n) (hmax : n ≤ max) :
    IsBase signs min max p
  | range {p q : GoString} {a b : Nat} (hp : IsNumber signs p a) (hq : IsUpper signs q b)
    (hmin : min ≤ a) (hle : a ≤ b) (hmax : b ≤ max) : IsBase signs min max (p ++ 0x2D :: q)

/-- One of these, alone or with a step. -/
inductive IsAtom (signs : Bool) (min max : Int) : GoString → Prop where
  | base {p : GoString} (h : IsBase signs min max p) : IsAtom signs min max p
  | step {p q : GoString} {k : Nat} (h : IsBase signs min max p) (hk : IsNumber signs q k)
    (hpos : 1 ≤ k) (hlt : k < 2 ^ 63) : IsAtom signs min max (p ++ 0x2F :: q)

/-- Atoms between commas. -/
def IsField (signs : Bool) (min max : Int) (f : GoString) : Prop :=
  ∀ part ∈ f.splitOn 0x2C, IsAtom signs min max part

/-- Five fields between spaces. -/
def IsFields (signs : Bool) (expr : GoString) : Prop :=
  ∃ minute hour dom month dow, fields expr = [minute, hour, dom, month, dow] ∧
    IsField signs 0 59 minute ∧ IsField signs 0 23 hour ∧ IsField signs 1 31 dom ∧
    IsField signs 1 12 month ∧ IsField signs 0 7 dow

/-- An alias or five fields. -/
def IsExpression (signs : Bool) (s : GoString) : Prop :=
  trimSpace s ∈ aliases.map Prod.fst ∨ IsFields signs (trimSpace s)

/-- No plus sign, and no minus sign right after another one. -/
def Unsigned (part : GoString) : Prop := 0x2B ∉ part ∧ ¬ [0x2D, 0x2D] <:+: part

section

variable {T : RuneTables} {signs : Bool} {p q : GoString} {n : Nat} {v min max : Int}

private theorem atoi_of_isNumber (h : IsNumber signs p n) (hn : n < 2 ^ 63) :
    atoi p = some (n : Int) := by
  cases h with
  | digits h => rw [h.atoi, if_pos hn]
  | plus _ h => rw [h.atoi_plus, if_pos hn]

private theorem atoi_of_isUpper (h : IsUpper signs p n) (hn : n < 2 ^ 63) :
    atoi p = some (n : Int) := by
  cases h with
  | number h => exact atoi_of_isNumber h hn
  | minus _ h hzero =>
    rw [h.atoi_minus, hzero]
    rfl

private theorem isUpper_of_atoi (h : atoi p = some v) (hv : 0 ≤ v) :
    ∃ n : Nat, v = n ∧ IsUpper true p n ∧ (0x2D ∉ p ∨ 0 < v → IsNumber true p n) := by
  obtain ⟨sign, digits, rfl, hsign, hne, hdigit⟩ := atoi_shape h
  have hdigits : IsDigits digits := ⟨hne, hdigit⟩
  rcases hsign with rfl | rfl | rfl
  · rw [nil_append, hdigits.atoi] at h
    split_ifs at h with hlt
    exact ⟨_, (Option.some.inj h).symm, .number (.digits hdigits), fun _ => .digits hdigits⟩
  · rw [singleton_append, hdigits.atoi_minus] at h
    split_ifs at h with hle
    have hv' := Option.some.inj h
    have hzero : digitsValue digits = 0 := by omega
    refine ⟨0, by omega, .minus rfl hdigits hzero, ?_⟩
    rintro (hmem | hpos)
    · exact absurd mem_cons_self hmem
    · omega
  · rw [singleton_append, hdigits.atoi_plus] at h
    split_ifs at h with hlt
    exact ⟨_, (Option.some.inj h).symm, .number (.plus rfl hdigits), fun _ => .plus rfl hdigits⟩

private theorem IsNumber.not_mem (h : IsNumber signs p n) : 0x2A ∉ p ∧ 0x2D ∉ p ∧ 0x2F ∉ p := by
  have hdigits : ∀ {s : GoString}, IsDigits s → 0x2A ∉ s ∧ 0x2D ∉ s ∧ 0x2F ∉ s := by
    intro s hs
    refine ⟨fun hm => ?_, fun hm => ?_, fun hm => ?_⟩
    · exact absurd (hs.digit _ hm) (by decide)
    · exact absurd (hs.digit _ hm) (by decide)
    · exact absurd (hs.digit _ hm) (by decide)
  cases h with
  | digits h => exact hdigits h
  | plus _ h =>
    simp only [mem_cons, not_or]
    obtain ⟨hstar, hminus, hslash⟩ := hdigits h
    exact ⟨⟨by decide, hstar⟩, ⟨by decide, hminus⟩, by decide, hslash⟩

private theorem IsUpper.slash_not_mem (h : IsUpper signs p n) : 0x2F ∉ p := by
  cases h with
  | number h => exact h.not_mem.2.2
  | minus _ h _ =>
    simp only [mem_cons, not_or]
    have hnumber : IsNumber true _ _ := .digits h
    exact ⟨by decide, hnumber.not_mem.2.2⟩

private theorem validateRangeAtom_eq_ok :
    validateRangeAtom T p min max = .ok () ↔
      ∃ a b, atoi (cutByte 0x2D p).1 = some a ∧ atoi (cutByte 0x2D p).2 = some b ∧
        min ≤ a ∧ a ≤ b ∧ b ≤ max := by
  simp only [validateRangeAtom]
  cases ha : atoi (cutByte 0x2D p).1 with
  | none => simp
  | some a =>
    cases hb : atoi (cutByte 0x2D p).2 with
    | none => simp
    | some b =>
      simp only [Option.some.injEq, exists_and_left, exists_eq_left']
      split_ifs with hout
      · simp only [false_iff]
        omega
      · simp only [true_iff]
        omega

private theorem validateBase_star : validateBase T (lit "*") min max = .ok () := if_pos rfl

private theorem validateBase_nil : validateBase T [] min max ≠ .ok () := by
  intro h
  have hsingle : validateSingleValue T [] min max = .ok () := h
  obtain ⟨n, hn, -⟩ := validateSingleValue_eq_ok.1 hsingle
  cases hn

private theorem validateStepAtom_eq_ok :
    validateStepAtom T p min max = .ok () ↔
      validateBase T (cutByte 0x2F p).1 min max = .ok () ∧
        ∃ k, atoi (cutByte 0x2F p).2 = some k ∧ 0 < k := by
  simp only [validateStepAtom]
  generalize (cutByte 0x2F p).1 = left
  generalize (cutByte 0x2F p).2 = right
  have hleft : (if left ≠ lit "*" then validateBase T left min max else .ok ()) =
      validateBase T left min max := by
    split_ifs with hstar
    · rfl
    · rw [not_not.1 hstar, validateBase_star]
  rw [hleft]
  split_ifs with hempty
  · simp only [false_iff]
    rintro ⟨hbase, k, hk, -⟩
    rcases hempty with rfl | rfl
    · exact validateBase_nil hbase
    · cases hk
  · cases validateBase T left min max with
    | error e => simp
    | ok _ =>
      cases atoi right with
      | none => simp
      | some k =>
        by_cases hk : 0 < k
        · simp [hk]
        · simp [hk, Int.not_lt.1 hk]

variable (hmin : 0 ≤ min) (hmax : max < 2 ^ 63)

include hmin hmax

private theorem validateBase_eq_ok : validateBase T p min max = .ok () ↔ IsBase true min max p := by
  constructor
  · intro h
    unfold validateBase at h
    split_ifs at h with hstar hminus
    · rw [hstar]
      exact .star
    · obtain ⟨a, b, ha, hb, hmina, hle, hmaxb⟩ := validateRangeAtom_eq_ok.1 h
      obtain ⟨m, rfl, -, hm⟩ := isUpper_of_atoi ha (by omega)
      obtain ⟨n, rfl, hn, -⟩ := isUpper_of_atoi hb (by omega)
      rw [cutByte_append hminus]
      exact .range (hm (.inl (not_mem_cutByte_fst _ _))) hn hmina (by omega) hmaxb
    · obtain ⟨v, hv, hminv, hmaxv⟩ := validateSingleValue_eq_ok.1 h
      obtain ⟨n, rfl, -, hn⟩ := isUpper_of_atoi hv (by omega)
      exact .number (hn (.inl hminus)) hminv hmaxv
  · intro h
    unfold validateBase
    cases h with
    | star => exact if_pos rfl
    | @number _ n h hminn hmaxn =>
      obtain ⟨hstar, hminus, -⟩ := h.not_mem
      rw [if_neg, if_neg hminus]
      · exact validateSingleValue_eq_ok.2
          ⟨n, atoi_of_isNumber h (by omega), hminn, hmaxn⟩
      · rintro rfl
        exact hstar (by decide)
    | @range p q a b hp hq hmina hle hmaxb =>
      rw [if_neg, if_pos (mem_append_right _ mem_cons_self)]
      · rw [validateRangeAtom_eq_ok, cutByte_append_cons hp.not_mem.2.1]
        exact ⟨a, b, atoi_of_isNumber hp (by omega), atoi_of_isUpper hq (by omega), hmina,
          by omega, hmaxb⟩
      · intro hstar
        have hmem : 0x2D ∈ lit "*" := by
          rw [← hstar]
          exact mem_append_right _ mem_cons_self
        exact absurd hmem (by decide)

omit hmin hmax in
private theorem IsBase.slash_not_mem (h : IsBase signs min max p) : 0x2F ∉ p := by
  cases h with
  | star => decide
  | number h _ _ => exact h.not_mem.2.2
  | range hp hq _ _ _ =>
    simp only [mem_append, mem_cons, not_or]
    exact ⟨hp.not_mem.2.2, by decide, hq.slash_not_mem⟩

private theorem validateAtom_eq_ok : validateAtom T p min max = .ok () ↔ IsAtom true min max p := by
  by_cases hslash : 0x2F ∈ p
  · have hstar : p ≠ lit "*" := by
      rintro rfl
      exact absurd hslash (by decide)
    rw [validateAtom, if_neg hstar, if_pos hslash, validateStepAtom_eq_ok,
      validateBase_eq_ok hmin hmax]
    constructor
    · rintro ⟨hbase, v, hv, hpos⟩
      have hrange := (atoi_range hv).2
      obtain ⟨k, rfl, -, hk⟩ := isUpper_of_atoi hv (by omega)
      rw [cutByte_append hslash]
      exact .step hbase (hk (.inr hpos)) (by omega) (by omega)
    · intro h
      cases h with
      | base h => exact absurd hslash h.slash_not_mem
      | @step p q k h hk hpos hlt =>
        rw [cutByte_append_cons h.slash_not_mem]
        exact ⟨h, k, atoi_of_isNumber hk hlt, by omega⟩
  · have hbase : validateAtom T p min max = validateBase T p min max := by
      rw [validateAtom, if_neg hslash, validateBase]
    rw [hbase, validateBase_eq_ok hmin hmax]
    constructor
    · exact .base
    · intro h
      cases h with
      | base h => exact h
      | step => exact absurd (mem_append_right _ mem_cons_self) hslash

private theorem validateField_eq_ok_iff :
    validateField T p min max = .ok () ↔ IsField true min max p := by
  rw [validateField, IsField]
  by_cases hstar : p = lit "*"
  · rw [if_pos hstar, hstar]
    refine iff_of_true rfl ?_
    intro part hpart
    obtain rfl : part = lit "*" := mem_singleton.1 hpart
    exact .base .star
  · rw [if_neg hstar, firstError_eq_ok, forall_mem_map]
    simp only [validateAtom_eq_ok hmin hmax]

omit hmin hmax in
private theorem isFields_iff {expr : GoString} :
    IsFields true expr ↔ (fields expr).length = 5 ∧
      validateFields T 1 ((fields expr).zip fieldRanges) = .ok () := by
  have hzip : ∀ minute hour dom month dow : GoString,
      validateFields T 1 ([minute, hour, dom, month, dow].zip fieldRanges) = .ok () ↔
        IsField true 0 59 minute ∧ IsField true 0 23 hour ∧ IsField true 1 31 dom ∧
          IsField true 1 12 month ∧ IsField true 0 7 dow := by
    intro minute hour dom month dow
    rw [validateFields_eq_ok, ← validateField_eq_ok_iff (T := T) (p := minute) (by decide)
      (by decide), ← validateField_eq_ok_iff (T := T) (p := hour) (by decide) (by decide),
      ← validateField_eq_ok_iff (T := T) (p := dom) (by decide) (by decide),
      ← validateField_eq_ok_iff (T := T) (p := month) (by decide) (by decide),
      ← validateField_eq_ok_iff (T := T) (p := dow) (by decide) (by decide)]
    simp [fieldRanges]
  constructor
  · rintro ⟨minute, hour, dom, month, dow, hfields, h⟩
    rw [hfields, hzip]
    exact ⟨rfl, h⟩
  · rintro ⟨hlength, h⟩
    obtain ⟨minute, hour, dom, month, dow, hfields⟩ :
        ∃ minute hour dom month dow, fields expr = [minute, hour, dom, month, dow] := by
      rcases hfields : fields expr with
        _ | ⟨minute, _ | ⟨hour, _ | ⟨dom, _ | ⟨month, _ | ⟨dow, _ | ⟨extra, rest⟩⟩⟩⟩⟩⟩
      all_goals simp [hfields] at hlength ⊢
    rw [hfields, hzip] at h
    exact ⟨minute, hour, dom, month, dow, hfields, h⟩

end

private theorem isFields_of_alias {a : GoString × GoString} (h : a ∈ aliases) :
    IsFields true a.2 := by
  have hall : ∀ a ∈ aliases, (fields a.2).length = 5 ∧
      validateFields .basic 1 ((fields a.2).zip fieldRanges) = .ok () := by decide +kernel
  exact isFields_iff.2 (hall a h)

private theorem validate_eq_ok {T : RuneTables} {s : GoString} :
    validate T s = .ok () ↔ IsExpression true s := by
  have hfields : ∀ expr, (if (fields expr).length ≠ 5 then
      .error (lit "cronexpr: expected 5 fields, got " ++ decimalNat (fields expr).length)
      else validateFields T 1 ((fields expr).zip fieldRanges)) = .ok () ↔ IsFields true expr := by
    intro expr
    rw [isFields_iff (T := T)]
    split_ifs with hlength
    · simp [hlength]
    · simp [not_not.1 hlength]
  rw [IsExpression, validate, expand]
  by_cases hempty : trimSpace s = []
  · rw [if_pos hempty, hempty]
    refine iff_of_false (by simp) ?_
    rintro (halias | ⟨_, _, _, _, _, hnil, _⟩)
    · exact absurd halias (by decide)
    · rw [show fields [] = [] by decide +kernel] at hnil
      exact absurd hnil (cons_ne_nil _ _).symm
  rw [if_neg hempty]
  dsimp only
  rw [hfields]
  cases hlookup : aliases.lookup (trimSpace s) with
  | none =>
    have hnot : trimSpace s ∉ aliases.map Prod.fst := by
      intro hmem
      obtain ⟨a, ha, heq⟩ := mem_map.1 hmem
      exact absurd (List.lookup_eq_none_iff.1 hlookup a ha) (by simp [heq])
    rw [Option.getD_none, or_iff_right hnot]
  | some expr =>
    obtain ⟨l₁, l₂, heq, -⟩ := lookup_eq_some_iff.1 hlookup
    have hmem : (trimSpace s, expr) ∈ aliases := by simp [heq]
    exact iff_of_true (isFields_of_alias hmem) (.inl (mem_map_of_mem hmem))

example : validate .basic (lit " @daily ") = .ok () := by decide +kernel

example : validate .basic (lit "*/5 0-6,22 * * 8") =
    .error (lit "cronexpr: field 5: value 8 outside [0,7]") := by decide +kernel

section

variable {p q : GoString} {n : Nat} {min max : Int}

private theorem isNumber_unsigned_iff : IsNumber false p n ↔ IsNumber true p n ∧ 0x2B ∉ p := by
  constructor
  · rintro (h | h)
    · exact ⟨.digits h, fun hm => absurd (h.digit _ hm) (by decide)⟩
    · cases h
  · rintro ⟨h | h, hplus⟩
    · exact .digits h
    · exact absurd mem_cons_self hplus

private theorem isUpper_unsigned_iff : IsUpper false p n ↔ IsNumber false p n := by
  constructor
  · rintro (h | h)
    · exact h
    · cases h
  · exact .number

private theorem IsBase.signed (h : IsBase false min max p) :
    IsBase true min max p ∧ 0x2B ∉ p ∧ p.count 0x2D ≤ 1 := by
  cases h with
  | star => exact ⟨.star, by decide, by decide⟩
  | number h hmin hmax =>
    obtain ⟨htrue, hplus⟩ := isNumber_unsigned_iff.1 h
    exact ⟨.number htrue hmin hmax, hplus, by simp [count_eq_zero.2 h.not_mem.2.1]⟩
  | range hp hq hmin hle hmax =>
    obtain ⟨hp', hplus⟩ := isNumber_unsigned_iff.1 hp
    have hq := isUpper_unsigned_iff.1 hq
    obtain ⟨hq', hplus'⟩ := isNumber_unsigned_iff.1 hq
    refine ⟨.range hp' (.number hq') hmin hle hmax, by simp [hplus, hplus'], ?_⟩
    simp [count_eq_zero.2 hp.not_mem.2.1, count_eq_zero.2 hq.not_mem.2.1]

private theorem IsBase.unsigned (h : IsBase true min max p) (hu : Unsigned p) :
    IsBase false min max p := by
  obtain ⟨hplus, hminus⟩ := hu
  cases h with
  | star => exact .star
  | number h hmin hmax => exact .number (isNumber_unsigned_iff.2 ⟨h, hplus⟩) hmin hmax
  | @range p q a b hp hq hmin hle hmax =>
    have hplus : 0x2B ∉ p ∧ 0x2B ∉ q := by simpa using hplus
    refine .range (isNumber_unsigned_iff.2 ⟨hp, hplus.1⟩) ?_ hmin hle hmax
    cases hq with
    | number hq => exact .number (isNumber_unsigned_iff.2 ⟨hq, hplus.2⟩)
    | @minus digits => exact absurd ⟨p, digits, by simp⟩ hminus

private theorem isAtom_unsigned_iff :
    IsAtom false min max p ↔ IsAtom true min max p ∧ Unsigned p := by
  have hcount : ∀ {s : GoString}, s.count 0x2D ≤ 1 → ¬ [0x2D, 0x2D] <:+: s := by
    intro s hle hwithin
    have htwo := hwithin.sublist.count_le (a := 0x2D)
    have : List.count (0x2D : UInt8) [0x2D, 0x2D] = 2 := rfl
    omega
  constructor
  · rintro (h | ⟨h, hk, hpos, hlt⟩)
    · obtain ⟨htrue, hplus, hle⟩ := h.signed
      exact ⟨.base htrue, hplus, hcount hle⟩
    · obtain ⟨htrue, hplus, hle⟩ := h.signed
      obtain ⟨hk', hplus'⟩ := isNumber_unsigned_iff.1 hk
      refine ⟨.step htrue hk' hpos hlt, by simp [hplus, hplus'], hcount ?_⟩
      simpa [count_eq_zero.2 hk.not_mem.2.1] using hle
  · rintro ⟨h | @⟨p, q, k, h, hk, hpos, hlt⟩, hu⟩
    · exact .base (h.unsigned hu)
    · obtain ⟨hplus, hminus⟩ := hu
      have hplus : 0x2B ∉ p ∧ 0x2B ∉ q := by simpa using hplus
      have hu : Unsigned p :=
        ⟨hplus.1, fun hwithin => hminus (hwithin.trans (prefix_append _ _).isInfix)⟩
      exact .step (h.unsigned hu) (isNumber_unsigned_iff.2 ⟨hk, hplus.2⟩) hpos hlt

private theorem isField_unsigned_iff :
    IsField false min max p ↔
      IsField true min max p ∧ ∀ part ∈ p.splitOn 0x2C, Unsigned part := by
  simp only [IsField, isAtom_unsigned_iff, forall_and]

private theorem isFields_unsigned_iff :
    IsFields false p ↔
      IsFields true p ∧ ∀ f ∈ fields p, ∀ part ∈ f.splitOn 0x2C, Unsigned part := by
  simp only [IsFields, isField_unsigned_iff]
  constructor
  · rintro ⟨minute, hour, dom, month, dow, hfields, ⟨h₁, hu₁⟩, ⟨h₂, hu₂⟩, ⟨h₃, hu₃⟩, ⟨h₄, hu₄⟩,
      h₅, hu₅⟩
    refine ⟨⟨minute, hour, dom, month, dow, hfields, h₁, h₂, h₃, h₄, h₅⟩, ?_⟩
    simpa [hfields] using ⟨hu₁, hu₂, hu₃, hu₄, hu₅⟩
  · rintro ⟨⟨minute, hour, dom, month, dow, hfields, h₁, h₂, h₃, h₄, h₅⟩, hu⟩
    simp only [hfields, forall_mem_cons] at hu
    obtain ⟨hu₁, hu₂, hu₃, hu₄, hu₅, -⟩ := hu
    exact ⟨minute, hour, dom, month, dow, hfields, ⟨h₁, hu₁⟩, ⟨h₂, hu₂⟩, ⟨h₃, hu₃⟩, ⟨h₄, hu₄⟩,
      h₅, hu₅⟩

private theorem isExpression_unsigned_iff :
    IsExpression false p ↔ IsExpression true p ∧
      ∀ f ∈ fields (trimSpace p), ∀ part ∈ f.splitOn 0x2C, Unsigned part := by
  have halias : ∀ name ∈ aliases.map Prod.fst, ∀ f ∈ fields name, ∀ part ∈ f.splitOn 0x2C,
      Unsigned part := by
    unfold Unsigned
    decide +kernel
  rw [IsExpression, IsExpression, isFields_unsigned_iff, or_and_right]
  refine or_congr_left ⟨fun h => ⟨h, halias _ h⟩, And.left⟩

end

/-- `Validate` accepts the grammar of unsigned numbers and nothing else, on exactly the
strings that do not become an expression of it by leaving out signs. -/
theorem validate_grammar_iff (T : RuneTables) (s : GoString) :
    (validate T s = .ok () ↔ IsExpression false s) ↔
      (IsExpression true s →
        ∀ f ∈ fields (trimSpace s), ∀ part ∈ f.splitOn 0x2C, Unsigned part) := by
  rw [validate_eq_ok, isExpression_unsigned_iff]
  constructor
  · intro h hsigned
    exact (h.1 hsigned).2
  · intro h
    exact ⟨fun hsigned => ⟨hsigned, h hsigned⟩, And.left⟩

/-- Signs are accepted: before a number, and before the upper bound of a range. -/
theorem validate_accepts_signs :
    (validate .basic (lit "+5 * * * *") = .ok () ∧
      ¬ IsExpression false (lit "+5 * * * *")) ∧
    validate .basic (lit "0--0 * * * *") = .ok () ∧
      ¬ IsExpression false (lit "0--0 * * * *") := by
  have hsign : ∀ {s : GoString}, ¬ (∀ f ∈ fields (trimSpace s), ∀ part ∈ f.splitOn 0x2C,
      Unsigned part) → ¬ IsExpression false s :=
    fun h hs => h (isExpression_unsigned_iff.1 hs).2
  refine ⟨⟨by decide +kernel, hsign ?_⟩, by decide +kernel, hsign ?_⟩
  · unfold Unsigned
    decide +kernel
  · unfold Unsigned
    decide +kernel

end Athos.Schedule
