import Athos.Base.Calendar
import Athos.Schedule.Scheduler

/-!
# When a schedule is due

`DueAt` of `src/internal/scheduler/scheduler.go` reads the fields of a schedule again at every time.
Sunday is 0, and 7 only if the field for the day of the week is nothing but that digit.
-/

namespace Athos.Scheduler

open Base

/-- `matchField`; `scheduler.go:184-195`. -/
def matchField (field : GoString) (value : Int) : Bool :=
  if field = lit "*" then true
  else (field.splitOn 0x2C).any fun part => atoi (trimSpace part) = some value

/-- `DueAt`; `scheduler.go:159-182`. -/
def Schedule.dueAt (s : Schedule) (t : GoTime) : Bool :=
  if !matchField s.minute t.minute then false
  else if !matchField s.hour t.hour then false
  else if !matchField s.dom t.date.day then false
  else if !matchField s.month t.date.month then false
  else if !matchField s.dow t.weekday then
    if s.dow = lit "7" ∧ t.weekday = 0 then true else false
  else true

/-- The numbers of a field. -/
def numbers (field : GoString) : List Int :=
  (field.splitOn 0x2C).filterMap fun part => atoi (trimSpace part)

/-- A field stands for everything, or for its numbers. -/
def Denotes (field : GoString) (value : Int) : Prop := field = lit "*" ∨ value ∈ numbers field

/-- The day of the week that a number stands for. -/
def dayOfWeek (n : Int) : Int := if n = 7 then 0 else n

/-- The field for the day of the week. -/
def DenotesDay (field : GoString) (weekday : Int) : Prop :=
  field = lit "*" ∨ weekday ∈ (numbers field).map dayOfWeek

/-- The fields of an expression other than the day of the week contain a time. -/
structure InFields (minute hour dom month : GoString) (t : GoTime) : Prop where
  minute : Denotes minute t.minute
  hour : Denotes hour t.hour
  dom : Denotes dom t.date.day
  month : Denotes month t.date.month

/-- The expression contains a time. -/
def Contains (expr : GoString) (t : GoTime) : Prop :=
  ∃ minute hour dom month dow, fields expr = [minute, hour, dom, month, dow] ∧
    InFields minute hour dom month t ∧ DenotesDay dow t.weekday

/-- The expression contains a Sunday, but only by a 7 that is not the whole field. -/
def MissesSunday (expr : GoString) (t : GoTime) : Prop :=
  ∃ minute hour dom month dow, fields expr = [minute, hour, dom, month, dow] ∧
    InFields minute hour dom month t ∧ t.weekday = 0 ∧
    7 ∈ numbers dow ∧ 0 ∉ numbers dow ∧ dow ≠ lit "7"

section

variable {T : RuneTables} {expr : GoString} {s : Schedule} {field : GoString} {t : GoTime}

private theorem matchField_iff {value : Int} :
    matchField field value = true ↔ Denotes field value := by
  unfold matchField Denotes numbers
  split_ifs with h
  · simp [h]
  · simp [h]

private theorem fields_of_parse (h : parse T expr = .ok s) :
    fields expr = [s.minute, s.hour, s.dom, s.month, s.dow] := by
  unfold parse at h
  split at h
  next minute hour dom month dow hfields =>
    simp only [bind_eq_ok] at h
    obtain ⟨-, -, -, -, -, -, -, -, -, -, hs⟩ := h
    cases hs
    exact hfields
  next => cases h

private theorem dueAt_iff :
    s.dueAt t = true ↔ InFields s.minute s.hour s.dom s.month t ∧
      (Denotes s.dow t.weekday ∨ s.dow = lit "7" ∧ t.weekday = 0) := by
  have hfields : InFields s.minute s.hour s.dom s.month t ↔ matchField s.minute t.minute = true ∧
      matchField s.hour t.hour = true ∧ matchField s.dom t.date.day = true ∧
      matchField s.month t.date.month = true := by
    simp only [matchField_iff]
    exact ⟨fun h => ⟨h.minute, h.hour, h.dom, h.month⟩,
      fun h => ⟨h.1, h.2.1, h.2.2.1, h.2.2.2⟩⟩
  rw [hfields, ← matchField_iff, Schedule.dueAt]
  cases matchField s.minute t.minute
  · simp
  cases matchField s.hour t.hour
  · simp
  cases matchField s.dom t.date.day
  · simp
  cases matchField s.month t.date.month
  · simp
  cases matchField s.dow t.weekday
  · simp
  · simp

private theorem denotesDay_iff {weekday : Int} (h : weekday ≠ 7) :
    DenotesDay field weekday ↔ Denotes field weekday ∨ 7 ∈ numbers field ∧ weekday = 0 := by
  simp only [DenotesDay, Denotes, List.mem_map, dayOfWeek, or_assoc]
  refine or_congr_right ?_
  constructor
  · rintro ⟨n, hn, heq⟩
    split_ifs at heq with hseven
    · exact .inr ⟨hseven ▸ hn, heq.symm⟩
    · exact .inl (heq ▸ hn)
  · rintro (hmem | ⟨hseven, hzero⟩)
    · exact ⟨weekday, hmem, if_neg h⟩
    · exact ⟨7, hseven, hzero.symm⟩

private theorem weekday_ne_seven (t : GoTime) : (t.weekday : Int) ≠ 7 := by
  unfold GoTime.weekday
  omega

private theorem exists_fields_iff {minute hour dom month dow : GoString}
    {P : GoString → GoString → GoString → GoString → GoString → Prop}
    (h : fields expr = [minute, hour, dom, month, dow]) :
    (∃ minute hour dom month dow, fields expr = [minute, hour, dom, month, dow] ∧
      P minute hour dom month dow) ↔ P minute hour dom month dow := by
  constructor
  · rintro ⟨minute', hour', dom', month', dow', h', hp⟩
    rw [h] at h'
    cases h'
    exact hp
  · exact fun hp => ⟨minute, hour, dom, month, dow, h, hp⟩

end

/-- A schedule is due when its expression says so, except on Sundays that only a 7 in a longer
field stands for. -/
theorem cron_matching_iff {T : RuneTables} {expr : GoString} {s : Schedule}
    (h : parse T expr = .ok s) (t : GoTime) :
    (s.dueAt t = true ↔ Contains expr t) ↔ ¬ MissesSunday expr t := by
  have hfields := fields_of_parse h
  rw [dueAt_iff, Contains, exists_fields_iff hfields, MissesSunday, exists_fields_iff hfields,
    denotesDay_iff (weekday_ne_seven t)]
  constructor
  · rintro hiff ⟨hin, hsunday, hseven, hzero, hne⟩
    rcases (hiff.2 ⟨hin, .inr ⟨hseven, by omega⟩⟩).2 with (hstar | hmem) | ⟨hdow, -⟩
    · rw [hstar] at hseven
      exact absurd hseven (by decide)
    · rw [hsunday] at hmem
      exact hzero hmem
    · exact hne hdow
  · intro hnot
    refine and_congr_right fun hin => ⟨?_, ?_⟩
    · rintro (hday | ⟨hdow, hsunday⟩)
      · exact .inl hday
      · refine .inr ⟨?_, by omega⟩
        rw [hdow]
        decide
    · rintro (hday | ⟨hseven, hsunday⟩)
      · exact .inl hday
      by_cases hzero : 0 ∈ numbers s.dow
      · exact .inl (.inr (hsunday ▸ hzero))
      by_cases hdow : s.dow = lit "7"
      · exact .inr ⟨hdow, by omega⟩
      · exact absurd ⟨hin, by omega, hseven, hzero, hdow⟩ hnot

/-- Sunday, 3 May 2026, at midnight. -/
def sampleSunday : GoTime := GoTime.ofDate 2026 5 3 0 0 0 0

/-- Seven alone stands for Sunday. -/
theorem cron_matching_seven :
    parse .basic (lit "0 0 * * 7") =
        .ok ⟨lit "0 0 * * 7", lit "0", lit "0", lit "*", lit "*", lit "7"⟩ ∧
      (Schedule.dueAt ⟨lit "0 0 * * 7", lit "0", lit "0", lit "*", lit "*", lit "7"⟩
        sampleSunday = true ↔ Contains (lit "0 0 * * 7") sampleSunday) := by
  have hparse : parse .basic (lit "0 0 * * 7") =
      .ok ⟨lit "0 0 * * 7", lit "0", lit "0", lit "*", lit "*", lit "7"⟩ := by decide +kernel
  refine ⟨hparse, (cron_matching_iff hparse sampleSunday).2 ?_⟩
  rw [MissesSunday, exists_fields_iff (fields_of_parse hparse)]
  exact fun h => h.2.2.2.2 rfl

/-- A schedule for weekends is not due on Sundays. -/
theorem cron_matching_weekend :
    parse .basic (lit "0 0 * * 6,7") =
        .ok ⟨lit "0 0 * * 6,7", lit "0", lit "0", lit "*", lit "*", lit "6,7"⟩ ∧
      sampleSunday.weekday = 0 ∧ Contains (lit "0 0 * * 6,7") sampleSunday ∧
      Schedule.dueAt ⟨lit "0 0 * * 6,7", lit "0", lit "0", lit "*", lit "*", lit "6,7"⟩
        sampleSunday = false := by
  have hparse : parse .basic (lit "0 0 * * 6,7") =
      .ok ⟨lit "0 0 * * 6,7", lit "0", lit "0", lit "*", lit "*", lit "6,7"⟩ := by decide +kernel
  refine ⟨hparse, by decide +kernel, ?_, by decide +kernel⟩
  rw [Contains, exists_fields_iff (fields_of_parse hparse)]
  exact ⟨⟨.inr (by decide +kernel), .inr (by decide +kernel), .inl rfl, .inl rfl⟩,
    .inr (by decide +kernel)⟩

end Athos.Scheduler
