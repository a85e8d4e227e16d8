import Athos.Base.Strings

/-!
# The schedule parser

`src/internal/scheduler/scheduler.go`: the parser for cron expressions that the operator's scheduler
evaluates, and for retention policies. Errors are their texts.
-/

namespace Athos.Scheduler

open Base List

/-- `RetentionPolicy`; `scheduler.go:45-50`. -/
structure RetentionPolicy where
  days : Int := 0
  count : Int := 0
  deriving DecidableEq

/-- `Schedule`; `scheduler.go:91-100`. -/
structure Schedule where
  raw : GoString
  minute : GoString
  hour : GoString
  dom : GoString
  month : GoString
  dow : GoString
  deriving DecidableEq

variable (T : RuneTables)

/-- The number of a retention policy, which is named in the error. -/
def retentionNumber (number policy kind : GoString) : Except GoString Int :=
  match atoi number with
  | none => .error (lit "invalid " ++ kind ++ lit " retention policy " ++ goQuote T policy)
  | some n =>
    if n ≤ 0 then .error (lit "invalid " ++ kind ++ lit " retention policy " ++ goQuote T policy)
    else .ok n

/-- `ParseRetentionPolicy`; `scheduler.go:53-70`. -/
def parseRetentionPolicy (s : GoString) : Except GoString RetentionPolicy :=
  let s := trimSpace s
  if s = [] then .error (lit "empty retention policy")
  else if s.getLast? = some 0x64 then do
    let days ← retentionNumber T s.dropLast s (lit "day-based")
    return { days := days }
  else do
    let count ← retentionNumber T s s (lit "count-based")
    return { count := count }

/-- The loop of `validateField`. -/
def validateParts (min max : Int) (name : GoString) : List GoString → Except GoString Unit
  | [] => .ok ()
  | part :: parts =>
    match atoi (trimSpace part) with
    | none =>
      .error (lit "cron field " ++ goQuote T name ++ lit " has invalid value " ++
        goQuote T part ++ lit ": " ++ atoiError T (trimSpace part))
    | some v =>
      if v < min ∨ max < v then
        .error (lit "cron field " ++ goQuote T name ++ lit " value " ++ decimal v ++
          lit " is out of range [" ++ decimal min ++ lit ", " ++ decimal max ++ lit "]")
      else validateParts min max name parts

/-- `validateField`; `scheduler.go:140-155`. -/
def validateField (field : GoString) (min max : Int) (name : GoString) : Except GoString Unit :=
  if field = lit "*" then .ok () else validateParts T min max name (field.splitOn 0x2C)

/-- `Parse`; `scheduler.go:105-133`. -/
def parse (expr : GoString) : Except GoString Schedule :=
  match fields expr with
  | [minute, hour, dom, month, dow] => do
    validateField T minute 0 59 (lit "minute")
    validateField T hour 0 23 (lit "hour")
    validateField T dom 1 31 (lit "day-of-month")
    validateField T month 1 12 (lit "month")
    validateField T dow 0 7 (lit "day-of-week")
    return ⟨expr, minute, hour, dom, month, dow⟩
  | _ => .error (lit "cron expression " ++ goQuote T expr ++ lit " must have exactly 5 fields")

section Accepted

variable {T} {min max : Int} {name field : GoString}

/-- A part of a field is a number in the range of the field. -/
def InRange (min max : Int) (part : GoString) : Prop :=
  ∃ v, atoi (trimSpace part) = some v ∧ min ≤ v ∧ v ≤ max

private theorem validateParts_eq_ok {parts : List GoString} :
    validateParts T min max name parts = .ok () ↔ ∀ part ∈ parts, InRange min max part := by
  induction parts with
  | nil => simp [validateParts]
  | cons part parts ih =>
    rw [forall_mem_cons, ← ih, validateParts, InRange]
    cases hv : atoi (trimSpace part) with
    | none => simp
    | some v =>
      by_cases hr : v < min ∨ max < v
      · simp only [hr, ↓reduceIte, reduceCtorEq, Option.some.injEq, false_iff, not_and]
        rintro ⟨_, rfl, h₁, h₂⟩
        omega
      · simp only [hr, ↓reduceIte, Option.some.injEq, exists_eq_left', iff_and_self]
        intro _
        omega

/-- A field is accepted if it is a star or a list of numbers in range. -/
theorem validateField_eq_ok :
    validateField T field min max name = .ok () ↔
      field = lit "*" ∨ ∀ part ∈ field.splitOn 0x2C, InRange min max part := by
  rw [validateField]
  by_cases h : field = lit "*"
  · rw [if_pos h]
    exact ⟨fun _ => .inl h, fun _ => rfl⟩
  · rw [if_neg h, validateParts_eq_ok, or_iff_right h]

/-- Five fields are parsed exactly if each is accepted in its range. -/
theorem parse_isOk {expr minute hour dom month dow : GoString}
    (hf : fields expr = [minute, hour, dom, month, dow]) :
    (∃ s, parse T expr = .ok s) ↔
      validateField T minute 0 59 (lit "minute") = .ok () ∧
      validateField T hour 0 23 (lit "hour") = .ok () ∧
      validateField T dom 1 31 (lit "day-of-month") = .ok () ∧
      validateField T month 1 12 (lit "month") = .ok () ∧
      validateField T dow 0 7 (lit "day-of-week") = .ok () := by
  simp only [parse, hf, bind_eq_ok]
  simp [pure, Except.pure, Unique.exists_iff]

example : parse .basic (lit "0 2 * * 0,6") =
    .ok ⟨lit "0 2 * * 0,6", lit "0", lit "2", lit "*", lit "*", lit "0,6"⟩ := by decide +kernel

/-- What an accepted retention policy looks like: a positive number, or one of days. -/
def IsRetention (s : GoString) : Prop :=
  ∃ n : Int, 0 < n ∧
    (atoi (trimSpace s) = some n ∨ ∃ number, trimSpace s = number ++ [0x64] ∧ atoi number = some n)

private theorem exists_retentionNumber {number policy kind : GoString} {f : Int → RetentionPolicy} :
    (∃ r, (do return f (← retentionNumber T number policy kind)) = .ok r) ↔
      ∃ n : Int, 0 < n ∧ atoi number = some n := by
  cases hn : atoi number with
  | none => simp [retentionNumber, hn, bind, Except.bind]
  | some n =>
    by_cases hpos : n ≤ 0
    · simp only [retentionNumber, hn, if_pos hpos, bind, Except.bind, reduceCtorEq, exists_false,
        Option.some.injEq, false_iff, not_exists, not_and]
      omega
    · simp only [retentionNumber, hn, if_neg hpos, bind, Except.bind, pure, Except.pure,
        Except.ok.injEq, exists_eq', Option.some.injEq, true_iff]
      exact ⟨n, by omega, rfl⟩

/-- Retention policies are accepted exactly if they have this form. -/
theorem parseRetentionPolicy_isOk {s : GoString} :
    (∃ r, parseRetentionPolicy T s = .ok r) ↔ IsRetention s := by
  simp only [parseRetentionPolicy, IsRetention]
  generalize trimSpace s = t
  by_cases hnil : t = []
  · subst hnil
    simp [atoi]
  · rw [if_neg hnil]
    by_cases hd : t.getLast? = some 0x64
    · -- A number does not end in the letter, so only the days are left.
      obtain ⟨number, rfl⟩ := getLast?_eq_some_iff.1 hd
      rw [if_pos hd, exists_retentionNumber, dropLast_concat]
      have hno : ∀ n, atoi (number ++ [0x64]) ≠ some n := by
        intro n hn
        obtain ⟨sign, digits, heq, hsign, hne, hdigits⟩ := atoi_shape hn
        have hlast : (sign ++ digits).getLast? = some 0x64 := heq ▸ hd
        rw [getLast?_append_of_ne_nil _ hne] at hlast
        have hdig := hdigits _ (mem_of_getLast? hlast)
        exact absurd hdig (by decide)
      simp [hno]
    · rw [if_neg hd, exists_retentionNumber]
      have hno : ∀ number, t ≠ number ++ [0x64] := by
        rintro number rfl
        exact hd (by simp)
      simp [hno]

end Accepted

end Athos.Scheduler
