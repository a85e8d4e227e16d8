import Athos.Schedule.Cronexpr
import Athos.Schedule.Scheduler

/-!
# Two grammars for schedules

The webhook checks schedules with `cronexpr`, which knows ranges, steps and wildcards in lists; the
scheduler parses numbers and the wildcard alone. On a field that the webhook accepts the two agree
exactly if the field uses none of what only the webhook knows.
-/

namespace Athos.Schedule

open Base Scheduler List

/-- The field is the wildcard, or has no wildcard, range or step in it. -/
def PlainField (f : GoString) : Prop :=
  f = lit "*" ∨ ∀ b ∈ f, b ≠ 0x2A ∧ b ≠ 0x2D ∧ b ≠ 0x2F

instance (f : GoString) : Decidable (PlainField f) := inferInstanceAs (Decidable (_ ∨ _))

variable {T : RuneTables} {p f : GoString} {min max : Int}

private theorem bytes_of_atoi {n : Int} (h : atoi p = some n) :
    ∀ b ∈ p, IsGraphic b ∧ b ≠ 0x2A ∧ b ≠ 0x2F := by
  obtain ⟨sign, digits, rfl, hsign, -, hdigits⟩ := atoi_shape h
  intro b hb
  rcases mem_append.1 hb with hb | hb
  · rcases hsign with rfl | rfl | rfl
    · cases hb
    · rw [mem_singleton.1 hb]
      decide
    · rw [mem_singleton.1 hb]
      decide
  · have hd := hdigits b hb
    refine ⟨?_, ?_, ?_⟩
    · simp only [isDigitByte, Bool.and_eq_true, decide_eq_true_eq, UInt8.le_iff_toNat_le,
        UInt8.reduceToNat] at hd
      simp only [IsGraphic, UInt8.le_iff_toNat_le, UInt8.reduceToNat]
      omega
    · rintro rfl
      exact absurd hd (by decide)
    · rintro rfl
      exact absurd hd (by decide)

private theorem head_of_atoi {n : Int} (h : atoi p = some n) (hm : 0x2D ∈ p) :
    p.head? = some 0x2D := by
  obtain ⟨sign, digits, rfl, hsign, -, hdigits⟩ := atoi_shape h
  rcases mem_append.1 hm with hm | hm
  · rcases hsign with rfl | rfl | rfl
    · cases hm
    · rfl
    · exact absurd (mem_singleton.1 hm) (by decide)
  · exact absurd (hdigits _ hm) (by decide)

private theorem atoi_of_validateRangeAtom (h : validateRangeAtom T p min max = .ok ()) :
    (∃ a, atoi (cutByte 0x2D p).1 = some a) ∧ ∃ b, atoi (cutByte 0x2D p).2 = some b := by
  simp only [validateRangeAtom] at h
  split at h
  · cases h
  · rename_i a ha
    split at h
    · cases h
    · rename_i b hb
      exact ⟨⟨a, ha⟩, b, hb⟩

/-- A single value is accepted if it is a number in range. -/
theorem validateSingleValue_eq_ok :
    validateSingleValue T p min max = .ok () ↔ ∃ n, atoi p = some n ∧ min ≤ n ∧ n ≤ max := by
  simp only [validateSingleValue]
  cases hn : atoi p with
  | none => simp
  | some n =>
    by_cases hr : n < min ∨ max < n
    · simp only [hr, ↓reduceIte, reduceCtorEq, Option.some.injEq, exists_eq_left', false_iff]
      omega
    · simp only [hr, ↓reduceIte, Option.some.injEq, exists_eq_left', true_iff]
      omega

private theorem isGraphic_of_cutByte {sep : UInt8} (hsep : IsGraphic sep) (hm : sep ∈ p)
    (hl : ∀ b ∈ (cutByte sep p).1, IsGraphic b) (hr : ∀ b ∈ (cutByte sep p).2, IsGraphic b) :
    ∀ b ∈ p, IsGraphic b := by
  rw [cutByte_append hm]
  intro b hb
  rcases mem_append.1 hb with hb | hb
  · exact hl b hb
  · rcases mem_cons.1 hb with rfl | hb
    · exact hsep
    · exact hr b hb

private theorem isGraphic_of_validateBase (h : validateBase T p min max = .ok ()) :
    ∀ b ∈ p, IsGraphic b := by
  simp only [validateBase] at h
  split at h
  · rename_i hstar
    rw [hstar]
    exact forall_mem_of_all (by decide)
  · split at h
    · rename_i hdash
      obtain ⟨⟨a, ha⟩, c, hc⟩ := atoi_of_validateRangeAtom h
      exact isGraphic_of_cutByte (by decide) hdash (fun b hb => (bytes_of_atoi ha b hb).1)
        fun b hb => (bytes_of_atoi hc b hb).1
    · obtain ⟨n, hn, -⟩ := validateSingleValue_eq_ok.1 h
      exact fun b hb => (bytes_of_atoi hn b hb).1

private theorem of_validateStepAtom (h : validateStepAtom T p min max = .ok ()) :
    ((cutByte 0x2F p).1 = lit "*" ∨ validateBase T (cutByte 0x2F p).1 min max = .ok ()) ∧
      ∃ n, atoi (cutByte 0x2F p).2 = some n := by
  simp only [validateStepAtom] at h
  split at h
  · cases h
  · split at h
    · cases h
    · rename_i hleft
      constructor
      · by_cases he : (cutByte 0x2F p).1 = lit "*"
        · exact .inl he
        · rw [if_pos he] at hleft
          exact .inr hleft
      · split at h
        · cases h
        · exact ⟨_, by assumption⟩

private theorem isGraphic_of_validateAtom (h : validateAtom T p min max = .ok ()) :
    ∀ b ∈ p, IsGraphic b := by
  by_cases hslash : 0x2F ∈ p
  · have hstar : p ≠ lit "*" := by
      rintro rfl
      exact absurd hslash (by decide)
    simp only [validateAtom, if_neg hstar, if_pos hslash] at h
    obtain ⟨hleft, n, hn⟩ := of_validateStepAtom h
    refine isGraphic_of_cutByte (by decide) hslash ?_ fun b hb => (bytes_of_atoi hn b hb).1
    rcases hleft with he | hbase
    · rw [he]
      exact forall_mem_of_all (by decide)
    · exact isGraphic_of_validateBase hbase
  · simp only [validateAtom, if_neg hslash] at h
    exact isGraphic_of_validateBase h

private theorem inRange_iff (h : validateAtom T p min max = .ok ()) :
    InRange min max p ↔ ∀ b ∈ p, b ≠ 0x2A ∧ b ≠ 0x2D ∧ b ≠ 0x2F := by
  rw [InRange, trimSpace_of_isGraphic (isGraphic_of_validateAtom h)]
  constructor
  · rintro ⟨n, hn, -⟩ b hb
    obtain ⟨-, hstar, hslash⟩ := bytes_of_atoi hn b hb
    refine ⟨hstar, ?_, hslash⟩
    -- The number would start with its sign, but an accepted range has a number before its dash.
    rintro rfl
    have hnostar : p ≠ lit "*" := fun he => (bytes_of_atoi hn 0x2A (he ▸ by decide)).2.1 rfl
    have hnoslash : 0x2F ∉ p := fun hm => (bytes_of_atoi hn 0x2F hm).2.2 rfl
    simp only [validateAtom, if_neg hnostar, if_neg hnoslash, if_pos hb] at h
    obtain ⟨⟨a, ha⟩, -⟩ := atoi_of_validateRangeAtom h
    have hleft : (cutByte 0x2D p).1 = [] := by
      cases p with
      | nil => cases hb
      | cons c p =>
        obtain rfl : c = 0x2D := by simpa using head_of_atoi hn hb
        rfl
    rw [hleft] at ha
    cases ha
  · intro hplain
    have hnostar : p ≠ lit "*" := fun he => (hplain 0x2A (he ▸ by decide)).1 rfl
    have hnodash : 0x2D ∉ p := fun hm => (hplain 0x2D hm).2.1 rfl
    have hnoslash : 0x2F ∉ p := fun hm => (hplain 0x2F hm).2.2 rfl
    simp only [validateAtom, if_neg hnostar, if_neg hnoslash, if_neg hnodash] at h
    exact validateSingleValue_eq_ok.1 h

/-- There is no first error if there is none. -/
theorem firstError_eq_ok {l : List (Except GoString Unit)} :
    firstError l = .ok () ↔ ∀ r ∈ l, r = .ok () := by
  induction l with
  | nil => simp [firstError]
  | cons r l ih =>
    rw [forall_mem_cons, ← ih]
    cases r with
    | error e => simp [firstError]
    | ok _ => simp [firstError]

private theorem scheduler_validateField_iff {name : GoString}
    (h : validateField T f min max = .ok ()) :
    Scheduler.validateField T f min max name = .ok () ↔ PlainField f := by
  rw [validateField_eq_ok, PlainField]
  by_cases hstar : f = lit "*"
  · simp [hstar]
  · rw [or_iff_right hstar, or_iff_right hstar]
    simp only [validateField, if_neg hstar, firstError_eq_ok, forall_mem_map] at h
    have hcomma : (0x2C : UInt8) ≠ 0x2A ∧ (0x2C : UInt8) ≠ 0x2D ∧ (0x2C : UInt8) ≠ 0x2F := by
      decide
    rw [← forall_mem_splitOn hcomma f]
    constructor
    · intro hr part hpart
      exact (inRange_iff (h part hpart)).1 (hr part hpart)
    · intro hp part hpart
      exact (inRange_iff (h part hpart)).2 (hp part hpart)

/-- Fields are accepted if each of them is. -/
theorem validateFields_eq_ok {i : Nat} {l : List (GoString × (Int × Int))} :
    validateFields T i l = .ok () ↔ ∀ x ∈ l, validateField T x.1 x.2.1 x.2.2 = .ok () := by
  induction l generalizing i with
  | nil => simp [validateFields]
  | cons x l ih =>
    obtain ⟨f, min, max⟩ := x
    rw [forall_mem_cons, validateFields]
    cases hf : validateField T f min max with
    | error e => simp
    | ok _ => simp [ih]

/-- The fields of an accepted expression. -/
theorem fields_of_validate {s : GoString} (h : validate T s = .ok ()) :
    ∃ expr minute hour dom month dow, expand s = .ok expr ∧
      fields expr = [minute, hour, dom, month, dow] ∧
      validateField T minute 0 59 = .ok () ∧ validateField T hour 0 23 = .ok () ∧
      validateField T dom 1 31 = .ok () ∧ validateField T month 1 12 = .ok () ∧
      validateField T dow 0 7 = .ok () := by
  simp only [validate] at h
  split at h
  · cases h
  · rename_i expr he
    split at h
    · cases h
    · rename_i hlen
      rw [not_not] at hlen
      obtain ⟨minute, hour, dom, month, dow, hf⟩ :
          ∃ minute hour dom month dow, fields expr = [minute, hour, dom, month, dow] := by
        match hfs : fields expr, hlen with
        | [minute, hour, dom, month, dow], _ => exact ⟨minute, hour, dom, month, dow, rfl⟩
      rw [hf, validateFields_eq_ok] at h
      refine ⟨expr, minute, hour, dom, month, dow, he, hf, ?_⟩
      simpa [fieldRanges] using h

/-- An accepted expression is parsed by the scheduler exactly if its fields are plain. -/
theorem parse_iff_plain {s expr : GoString} (h : validate T s = .ok ())
    (he : expand s = .ok expr) :
    (∃ schedule, parse T expr = .ok schedule) ↔ ∀ f ∈ fields expr, PlainField f := by
  obtain ⟨expr', minute, hour, dom, month, dow, he', hf, h₁, h₂, h₃, h₄, h₅⟩ :=
    fields_of_validate h
  obtain rfl : expr' = expr := by simpa [he'] using he
  rw [parse_isOk hf, hf, scheduler_validateField_iff h₁, scheduler_validateField_iff h₂,
    scheduler_validateField_iff h₃, scheduler_validateField_iff h₄, scheduler_validateField_iff h₅]
  simp

end Athos.Schedule
