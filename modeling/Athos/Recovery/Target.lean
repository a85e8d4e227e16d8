import Athos.Base.Hex
import Athos.Base.TimeLayout
import Athos.Kube.Meta

/-!
# Recovery targets

`src/internal/recovery/recovery.go`: the target of a point-in-time recovery, how it is checked, and
the settings that are written for it. The text of a time in an error message is a parameter, and so
are the zones of the machine.
-/

namespace Athos.Recovery

open Base Kube List TimeLayout

/-- `TargetKind`. The type is a text, so that values beside the five named ones exist. -/
inductive TargetKind where
  | time
  | lsn
  | xid
  | name
  | immediate
  | other (text : GoString)
  deriving DecidableEq

/-- `Target`; `recovery.go:30-45`. -/
structure Target where
  kind : TargetKind
  time : ZonedTime := ⟨⟨0, 0, by decide⟩, lit "UTC", 0⟩
  lsn : GoString := []
  xid : UInt64 := 0
  name : GoString := []
  inclusive : Bool := false
  timeline : GoString := []
  deriving DecidableEq

/-- `TimeLayout`; `recovery.go:64`. -/
def timeLayoutText : GoString := lit "2006-01-02 15:04:05 MST"

open TimeLayout.Item in
/-- The fields of `TimeLayout`. -/
def timeLayout : List Item :=
  [longYear, literal 0x2D, zeroMonth, literal 0x2D, zeroDay, literal 0x20, hour, literal 0x3A,
    zeroMinute, literal 0x3A, zeroSecond, literal 0x20, zone]

/-- `isValidLSN`; `recovery.go:158-174`. -/
def isValidLSN (s : GoString) : Bool :=
  -- `SplitN` gives two parts if there is a slash at all.
  s.contains 0x2F &&
    [(cutByte 0x2F s).1, (cutByte 0x2F s).2].all fun p =>
      p.length != 0 && p.length ≤ 8 && (runes p).all isHexDigit

/-- `parseUint`, whose error is never shown; `recovery.go:176-188`. -/
def parseUint (s : GoString) : Option UInt64 :=
  match (runes s).foldlM (fun (n : UInt64) c =>
    if c < 0x30 ∨ 0x39 < c then none else some (n * 10 + UInt64.ofNat (c - 0x30))) 0 with
  | none => none
  | some n => if s.length = 0 then none else some n

section

variable (T : RuneTables) (render : ZonedTime → GoString) (now : GoTime)

/-- The check of the field that a kind needs; `recovery.go:68-92`. -/
def Target.validateKind (t : Target) : Except GoString Unit :=
  match t.kind with
  | .time =>
    if t.time.utc.sec = 0 ∧ t.time.utc.nsec = 0 then
      .error (lit "recovery target kind " ++ goQuote T (lit "time") ++
        lit " requires a non-zero time")
    else if t.time.utc.after (now.add 60000000000) then
      .error (lit "recovery target time " ++ render t.time ++ lit " is in the future")
    else .ok ()
  | .lsn =>
    if !isValidLSN t.lsn then
      .error (lit "recovery target LSN " ++ goQuote T t.lsn ++
        lit " is not in the form XXXXXXXX/XXXXXXXX")
    else .ok ()
  | .xid => if t.xid = 0 then .error (lit "recovery target XID must be non-zero") else .ok ()
  | .name =>
    if trimSpace t.name = [] then .error (lit "recovery target name must not be empty")
    else .ok ()
  | .immediate => .ok ()
  | .other text => .error (lit "unknown recovery target kind " ++ goQuote T text)

/-- `Target.Validate`; `recovery.go:66-99`. -/
def Target.validate (t : Target) : Except GoString Unit := do
  t.validateKind T render now
  if t.timeline ≠ [] ∧ t.timeline ≠ lit "latest" then
    if (parseUint t.timeline).isNone then
      .error (lit "recovery target timeline must be \"latest\" or a positive integer")

/-- `Target.RecoveryParams`; `recovery.go:101-134`. -/
def Target.recoveryParams (t : Target) : StringMap :=
  let timeline := if t.timeline = [] then lit "latest" else t.timeline
  let params := (∅ : StringMap).insert (lit "recovery_target_timeline") timeline
  let inclusive := if !t.inclusive then lit "false" else lit "true"
  match t.kind with
  | .time =>
    (params.insert (lit "recovery_target_time") (format timeLayout t.time.toUTC)).insert
      (lit "recovery_target_inclusive") inclusive
  | .lsn =>
    (params.insert (lit "recovery_target_lsn") t.lsn).insert
      (lit "recovery_target_inclusive") inclusive
  | .xid =>
    (params.insert (lit "recovery_target_xid") (decimalNat t.xid.toNat)).insert
      (lit "recovery_target_inclusive") inclusive
  | .name => params.insert (lit "recovery_target_name") t.name
  | .immediate => params.insert (lit "recovery_target") (lit "immediate")
  | .other _ => params

/-- `ParseTime`; `recovery.go:149-155`. -/
def parseTime (Z : Zones) (s : GoString) : Except GoString GoTime :=
  match parse Z timeLayout s with
  | none =>
    .error (lit "parsing recovery target time " ++ goQuote T s ++ lit ": use format " ++
      goQuote T timeLayoutText)
  | some t => .ok t

end

section

variable {T : RuneTables} {render : ZonedTime → GoString} {now : GoTime} {t : Target}

private theorem separated_timeLayout {z : ZonedTime} (hzone : z.zone = lit "UTC") :
    Separated z timeLayout := by
  have hhour : ∀ s, (appendInt 2 z.civil.hour ++ s).head? ≠ some 0x20 := by
    intro s
    rw [appendInt_natCast]
    exact head?_padded_append_ne 2 _ s rfl
  have hutc : ∀ s, (lit "UTC" ++ s).head? ≠ some 0x20 := by
    intro s
    have hhead : (lit "UTC").head? = some 0x55 := by decide
    rw [head?_append, hhead]
    simp
  simp only [timeLayout, Separated, Ends, format_cons, formatItem, hzone]
  refine ⟨trivial, fun h => absurd h (by decide), trivial, fun h => absurd h (by decide), trivial,
    fun _ => hhour _, trivial, fun h => absurd h (by decide), trivial,
    fun h => absurd h (by decide), ⟨by simp, by simp⟩, fun _ => hutc _, trivial, trivial⟩

private theorem recoveryParams_time (h : t.kind = .time) :
    t.recoveryParams.getD (lit "recovery_target_time") [] =
      format timeLayout t.time.toUTC := by
  simp only [Target.recoveryParams, h]
  rw [Std.ExtTreeMap.getD_insert, if_neg (by decide), Std.ExtTreeMap.getD_insert_self]

private theorem parse_recoveryParams (Z : Zones) (h : t.kind = .time) :
    parse Z timeLayout (t.recoveryParams.getD (lit "recovery_target_time") []) =
      if FourDigits t.time.utc.date.year then
        some { t.time.utc with nsec := 0, nsec_lt := Nat.succ_pos _ }
      else none := by
  have hcivil := t.time.civil_toUTC
  rw [recoveryParams_time h]
  split_ifs with hyear
  · rw [← hcivil] at hyear
    rw [parse_format hyear rfl (separated_timeLayout rfl) fun p => rfl, hcivil]
  · rw [← hcivil] at hyear
    exact parse_format_eq_none hyear rfl (by decide)

/-- The setting denotes the time of the target if that is a whole second of a year of four
digits, as UTC counts. -/
theorem recoveryParams_time_exact_iff (T : RuneTables) (Z : Zones) (t : Target)
    (hkind : t.kind = .time) :
    (∃ u, parseTime T Z (t.recoveryParams.getD (lit "recovery_target_time") []) = .ok u ∧
        u.instant = t.time.utc.instant) ↔
      t.time.utc.nsec = 0 ∧ 0 ≤ t.time.utc.date.year ∧ t.time.utc.date.year ≤ 9999 := by
  rw [parseTime, parse_recoveryParams Z hkind]
  by_cases hyear : FourDigits t.time.utc.date.year
  · simp only [if_pos hyear, Except.ok.injEq, exists_eq_left', GoTime.instant]
    have := hyear.1
    have := hyear.2
    omega
  · rw [if_neg hyear]
    simp only [reduceCtorEq, false_and, exists_false, false_iff, not_and]
    exact fun _ hlow hhigh => hyear ⟨hlow, hhigh⟩

/-- A target of the first of May 2026 at noon, so many nanoseconds later. -/
def sampleTarget (nsec : Nat) (h : nsec < 1000000000) : Target where
  kind := .time
  time := ⟨{ GoTime.ofDate 2026 5 1 12 0 0 0 with nsec := nsec, nsec_lt := h }, lit "CEST", 7200⟩

/-- No zones but UTC. -/
def noZones : Zones := ⟨fun _ => none, fun _ _ => 0⟩

/-- A time without a fraction. -/
theorem whole_second_survives :
    (sampleTarget 0 (by decide)).kind = .time ∧
      ∃ u, parseTime .basic noZones ((sampleTarget 0 (by decide)).recoveryParams.getD
          (lit "recovery_target_time") []) = .ok u ∧
        u.instant = (sampleTarget 0 (by decide)).time.utc.instant :=
  ⟨rfl, (recoveryParams_time_exact_iff .basic noZones _ rfl).2 (by decide)⟩

/-- Half a second is lost. -/
theorem half_second_lost :
    let t := sampleTarget 500000000 (by decide)
    let u := sampleTarget 0 (by decide)
    t.validate .basic (fun _ => []) (GoTime.ofDate 2026 6 1 0 0 0 0) = .ok () ∧
      t.recoveryParams.getD (lit "recovery_target_time") [] = lit "2026-05-01 12:00:00 UTC" ∧
      parseTime .basic noZones (lit "2026-05-01 12:00:00 UTC") = .ok u.time.utc ∧
      u.time.utc.instant ≠ t.time.utc.instant := by
  decide

/-- One to eight hexadecimal digits. -/
structure IsHexGroup (s : GoString) : Prop where
  ne_nil : s ≠ []
  length_le : s.length ≤ 8
  digit : ∀ b ∈ s, isHexDigit b.toNat = true

/-- A location in the WAL. -/
def IsLsn (s : GoString) : Prop :=
  ∃ high low, s = high ++ 0x2F :: low ∧ IsHexGroup high ∧ IsHexGroup low

/-- What PostgreSQL takes for a timeline, or nothing. -/
def IsTimeline (s : GoString) : Prop :=
  s = [] ∨ s = lit "latest" ∨ IsDigits s ∧ 1 ≤ digitsValue s ∧ digitsValue s < 2 ^ 32

/-- The field that the kind of a target needs is valid. -/
def FieldValid (now : GoTime) (t : Target) : Prop :=
  match t.kind with
  | .time => ¬ (t.time.utc.sec = 0 ∧ t.time.utc.nsec = 0) ∧
      t.time.utc.instant ≤ (now.add 60000000000).instant
  | .lsn => IsLsn t.lsn
  | .xid => t.xid ≠ 0
  | .name => trimSpace t.name ≠ []
  | .immediate => True
  | .other _ => False

private theorem isHexGroup_iff {s : GoString} :
    (s.length != 0 && decide (s.length ≤ 8) && (runes s).all isHexDigit) = true ↔
      IsHexGroup s := by
  have hdigits : (∀ r ∈ runes s, isHexDigit r = true) ↔ ∀ b ∈ s, isHexDigit b.toNat = true :=
    forall_mem_runes_iff fun r hr => Nat.lt_of_le_of_lt (le_of_isHexDigit hr) (by decide)
  simp only [Bool.and_eq_true, bne_iff_ne, decide_eq_true_eq, all_eq_true, hdigits]
  constructor
  · rintro ⟨⟨hne, hle⟩, hall⟩
    exact ⟨fun hnil => hne (by rw [hnil]; rfl), hle, hall⟩
  · rintro ⟨hne, hle, hall⟩
    exact ⟨⟨fun hzero => hne (length_eq_zero_iff.1 hzero), hle⟩, hall⟩

private theorem isValidLSN_iff {s : GoString} : isValidLSN s = true ↔ IsLsn s := by
  rw [isValidLSN, Bool.and_eq_true, contains_iff_mem, all_eq_true]
  simp only [forall_mem_cons, not_mem_nil, false_imp_iff, implies_true, and_true, isHexGroup_iff]
  constructor
  · rintro ⟨hslash, hhigh, hlow⟩
    exact ⟨_, _, cutByte_append hslash, hhigh, hlow⟩
  · rintro ⟨high, low, rfl, hhigh, hlow⟩
    have hslash : 0x2F ∉ high := fun hmem => absurd (hhigh.digit _ hmem) (by decide)
    rw [cutByte_append_cons hslash]
    exact ⟨by simp, hhigh, hlow⟩

private theorem isSome_parseUint_iff {s : GoString} : (parseUint s).isSome = true ↔ IsDigits s := by
  rw [parseUint, foldlM_digits (fun (n : UInt64) d => n * 10 + UInt64.ofNat d)]
  by_cases hall : s.all isDigitByte = true
  · rw [if_pos hall]
    by_cases hnil : s = []
    · subst hnil
      exact iff_of_false (by simp) fun h => h.ne_nil rfl
    · simp only [length_eq_zero_iff, if_neg hnil]
      exact iff_of_true rfl ⟨hnil, all_eq_true.1 hall⟩
  · rw [if_neg hall]
    exact iff_of_false (by simp) fun h => hall (all_eq_true.2 h.digit)

variable (T render now t) in
private theorem validateKind_eq_ok_iff :
    t.validateKind T render now = .ok () ↔ FieldValid now t := by
  unfold Target.validateKind FieldValid
  cases t.kind with
  | time =>
    simp only
    split_ifs with hzero hafter
    · simp [hzero]
    · rw [GoTime.after_iff] at hafter
      exact iff_of_false (by simp) fun h => by omega
    · rw [GoTime.after_iff] at hafter
      exact iff_of_true rfl ⟨hzero, by omega⟩
  | lsn =>
    simp only [← isValidLSN_iff]
    cases isValidLSN t.lsn <;> simp
  | xid => simp
  | name => simp
  | immediate => simp
  | other text => simp

variable (T render now t) in
private theorem validate_eq_ok_iff :
    t.validate T render now = .ok () ↔
      FieldValid now t ∧
        (t.timeline = [] ∨ t.timeline = lit "latest" ∨ IsDigits t.timeline) := by
  rw [← validateKind_eq_ok_iff T render now t, ← isSome_parseUint_iff]
  simp only [Target.validate, bind, Except.bind]
  cases t.validateKind T render now with
  | error e => simp
  | ok u =>
    simp only [true_and]
    by_cases hset : t.timeline ≠ [] ∧ t.timeline ≠ lit "latest"
    · rw [if_pos hset, or_iff_right hset.1, or_iff_right hset.2]
      cases parseUint t.timeline <;> simp [pure, Except.pure]
    · rw [if_neg hset]
      refine iff_of_true rfl ?_
      by_cases hnil : t.timeline = []
      · exact .inl hnil
      · exact .inr (.inl (by_contra fun hlatest => hset ⟨hnil, hlatest⟩))

/-- Validation is exact but for timelines of digits that are zero or too large. -/
theorem validate_exact_iff (T : RuneTables) (render : ZonedTime → GoString) (now : GoTime)
    (t : Target) :
    (t.validate T render now = .ok () →
        IsTimeline t.timeline ∧ (t.kind = .lsn → IsLsn t.lsn)) ∧
      (IsTimeline t.timeline → FieldValid now t → t.validate T render now = .ok ()) ↔
    (FieldValid now t → IsDigits t.timeline →
      1 ≤ digitsValue t.timeline ∧ digitsValue t.timeline < 2 ^ 32) := by
  rw [validate_eq_ok_iff T render now t]
  constructor
  · rintro ⟨hform, -⟩ hfield hdigits
    obtain ⟨hnil | hlatest | ⟨-, hrange⟩, -⟩ := hform ⟨hfield, .inr (.inr hdigits)⟩
    · exact absurd hnil hdigits.ne_nil
    · -- The word is no string of digits.
      exact absurd (hdigits.digit 0x6C (hlatest ▸ by decide)) (by decide)
    · exact hrange
  · intro hrange
    refine ⟨?_, ?_⟩
    · rintro ⟨hfield, htimeline⟩
      refine ⟨?_, fun hkind => by simpa [FieldValid, hkind] using hfield⟩
      rcases htimeline with hnil | hlatest | hdigits
      · exact .inl hnil
      · exact .inr (.inl hlatest)
      · exact .inr (.inr ⟨hdigits, hrange hfield hdigits⟩)
    · rintro (hnil | hlatest | ⟨hdigits, -⟩) hfield
      · exact ⟨hfield, .inl hnil⟩
      · exact ⟨hfield, .inr (.inl hlatest)⟩
      · exact ⟨hfield, .inr (.inr hdigits)⟩

/-- Timelines that PostgreSQL refuses. -/
theorem bad_timelines_accepted :
    Target.validate .basic (fun _ => []) ⟨0, 0, by decide⟩
        { kind := .immediate, timeline := lit "0" } = .ok () ∧
      ¬ IsTimeline (lit "0") ∧
      Target.validate .basic (fun _ => []) ⟨0, 0, by decide⟩
        { kind := .immediate, timeline := lit "4294967296" } = .ok () ∧
      ¬ IsTimeline (lit "4294967296") := by
  have hzero : ¬ IsTimeline (lit "0") := by
    rintro (h | h | ⟨-, h, -⟩)
    · exact absurd h (by decide)
    · exact absurd h (by decide)
    · exact absurd h (by decide)
  have hlarge : ¬ IsTimeline (lit "4294967296") := by
    rintro (h | h | ⟨-, -, h⟩)
    · exact absurd h (by decide)
    · exact absurd h (by decide)
    · exact absurd h (by decide)
  exact ⟨by decide, hzero, by decide, hlarge⟩

end

end Athos.Recovery
