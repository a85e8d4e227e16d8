import Athos.Base.Strings

/-!
# Cron expressions

`src/internal/cronexpr/cronexpr.go`: the check that the webhook makes on a backup schedule. Errors
are their texts.
-/

namespace Athos.Schedule

open Base

/-- `aliases`; `cronexpr.go:32-40`. -/
def aliases : List (GoString × GoString) :=
  [(lit "@yearly", lit "0 0 1 1 *"),
    (lit "@annually", lit "0 0 1 1 *"),
    (lit "@monthly", lit "0 0 1 * *"),
    (lit "@weekly", lit "0 0 * * 0"),
    (lit "@daily", lit "0 0 * * *"),
    (lit "@midnight", lit "0 0 * * *"),
    (lit "@hourly", lit "0 * * * *")]

/-- `Expand`; `cronexpr.go:44-53`. -/
def expand (s : GoString) : Except GoString GoString :=
  if trimSpace s = [] then .error (lit "cronexpr: empty expression")
  else .ok ((aliases.lookup (trimSpace s)).getD (trimSpace s))

variable (T : RuneTables)

/-- `validateSingleValue`; `cronexpr.go:144-153`. -/
def validateSingleValue (p : GoString) (min max : Int) : Except GoString Unit :=
  match atoi p with
  | none => .error (lit "invalid value " ++ goQuote T p)
  | some n =>
    if n < min ∨ max < n then
      .error (lit "value " ++ decimal n ++ lit " outside [" ++ decimal min ++ lit "," ++
        decimal max ++ lit "]")
    else .ok ()

/-- `validateRangeAtom`; `cronexpr.go:127-142`. -/
def validateRangeAtom (p : GoString) (min max : Int) : Except GoString Unit :=
  let (left, right) := cutByte 0x2D p
  match atoi left with
  | none => .error (lit "invalid range bound " ++ goQuote T left)
  | some a =>
    match atoi right with
    | none => .error (lit "invalid range bound " ++ goQuote T right)
    | some b =>
      if a < min ∨ max < b ∨ b < a then
        .error (lit "range " ++ decimal a ++ lit "-" ++ decimal b ++ lit " outside [" ++
          decimal min ++ lit "," ++ decimal max ++ lit "]")
      else .ok ()

/-- `validateAtom` on a text without a step. -/
def validateBase (p : GoString) (min max : Int) : Except GoString Unit :=
  if p = lit "*" then .ok ()
  else if 0x2D ∈ p then validateRangeAtom T p min max
  else validateSingleValue T p min max

/-- `validateStepAtom`; `cronexpr.go:108-125`. What stands before the first slash has no
slash, so the recursive `validateAtom` is `validateBase`. -/
def validateStepAtom (p : GoString) (min max : Int) : Except GoString Unit :=
  let (left, right) := cutByte 0x2F p
  if left = [] ∨ right = [] then .error (lit "invalid step " ++ goQuote T p)
  else
    match (if left ≠ lit "*" then validateBase T left min max else .ok ()) with
    | .error e => .error e
    | .ok _ =>
      match atoi right with
      | none => .error (lit "invalid step " ++ goQuote T p)
      | some n => if n ≤ 0 then .error (lit "invalid step " ++ goQuote T p) else .ok ()

/-- `validateAtom`; `cronexpr.go:95-106`. -/
def validateAtom (p : GoString) (min max : Int) : Except GoString Unit :=
  if p = lit "*" then .ok ()
  else if 0x2F ∈ p then validateStepAtom T p min max
  else if 0x2D ∈ p then validateRangeAtom T p min max
  else validateSingleValue T p min max

/-- The loops of the package stop at the first error. -/
def firstError : List (Except GoString Unit) → Except GoString Unit
  | [] => .ok ()
  | .error e :: _ => .error e
  | .ok _ :: rest => firstError rest

/-- `validateField`; `cronexpr.go:83-93`. -/
def validateField (f : GoString) (min max : Int) : Except GoString Unit :=
  if f = lit "*" then .ok ()
  else firstError ((f.splitOn 0x2C).map fun part => validateAtom T part min max)

/-- The ranges of the five fields. -/
def fieldRanges : List (Int × Int) := [(0, 59), (0, 23), (1, 31), (1, 12), (0, 7)]

/-- The loop of `Validate` over the fields, counted from one. -/
def validateFields : Nat → List (GoString × (Int × Int)) → Except GoString Unit
  | _, [] => .ok ()
  | i, (f, min, max) :: rest =>
    match validateField T f min max with
    | .error e => .error (lit "cronexpr: field " ++ decimalNat i ++ lit ": " ++ e)
    | .ok _ => validateFields (i + 1) rest

/-- `Validate`; `cronexpr.go:59-81`. -/
def validate (s : GoString) : Except GoString Unit :=
  match expand s with
  | .error e => .error e
  | .ok expr =>
    if (fields expr).length ≠ 5 then
      .error (lit "cronexpr: expected 5 fields, got " ++ decimalNat (fields expr).length)
    else validateFields T 1 ((fields expr).zip fieldRanges)

end Athos.Schedule
