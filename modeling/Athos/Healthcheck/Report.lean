import Athos.Base.GoString
import Athos.Base.GoTime

/-!
# Health reports

`Report.Status` and `CombineReports` of `src/internal/healthcheck/healthcheck.go`, and the four
rules that the former documents. The second rule asks whether every critical check passes, and the
code never does.
-/

namespace Athos.Healthcheck

open Base List

/-- `Status`. The type is a text, so that values beside the three named ones exist. -/
inductive Status where
  | passing
  | failing
  | unknown
  | other (text : GoString)
  deriving DecidableEq

/-- `Check`; `healthcheck.go:49-63`. -/
structure Check where
  name : GoString
  status : Status
  message : GoString
  observedAt : GoTime
  duration : Int64
  critical : Bool
  deriving DecidableEq

/-- `Report`; `healthcheck.go:107-112`. -/
structure Report where
  instance_ : GoString
  checks : List Check
  deriving DecidableEq

/-- The two flags of the second loop, after one more check. -/
def observe (flags : Bool × Bool) (c : Check) : Bool × Bool :=
  match c.status with
  | .failing => (true, flags.2)
  | .unknown => (flags.1, true)
  | .passing | .other _ => flags

/-- `Report.Status`; `healthcheck.go:128-154`. -/
def Report.status (r : Report) : Status :=
  if r.checks.length = 0 then .unknown
  else if r.checks.any fun c => c.critical && c.status == .failing then .failing
  else
    let (hasFailing, hasUnknown) := r.checks.foldl observe (false, false)
    if hasFailing then .failing else if hasUnknown then .unknown else .passing

/-- `CombineReports`; `healthcheck.go:217-225`. -/
def combineReports (instance_ : GoString) (reports : List Report) : Report :=
  reports.foldl (fun out r => { out with checks := out.checks ++ r.checks }) ⟨instance_, []⟩

section

variable {checks checks' : List Check} {flags : Bool × Bool}

/-- A critical check fails. -/
def CriticalFails (checks : List Check) : Prop :=
  ∃ c ∈ checks, c.critical = true ∧ c.status = .failing

/-- All critical checks pass. -/
def CriticalPass (checks : List Check) : Prop :=
  ∀ c ∈ checks, c.critical = true → c.status = .passing

/-- Some check has the status. -/
def Has (status : Status) (checks : List Check) : Prop := ∃ c ∈ checks, c.status = status

instance : Decidable (CriticalFails checks) := inferInstanceAs (Decidable (∃ c ∈ checks, _))

instance : Decidable (CriticalPass checks) := inferInstanceAs (Decidable (∀ c ∈ checks, _))

instance (status : Status) : Decidable (Has status checks) :=
  inferInstanceAs (Decidable (∃ c ∈ checks, _))

/-- The comment on `Report.Status`; `healthcheck.go:122-127`. -/
def rule (checks : List Check) : Status :=
  if CriticalFails checks then .failing
  else if Has .failing checks ∧ CriticalPass checks then .failing
  else if Has .unknown checks then .unknown
  else .passing

private theorem has_nil {status : Status} : ¬ Has status [] := by simp [Has]

private theorem has_cons {status : Status} {c : Check} :
    Has status (c :: checks) ↔ c.status = status ∨ Has status checks := by simp [Has]

private theorem foldl_observe :
    checks.foldl observe flags =
      (flags.1 || decide (Has .failing checks), flags.2 || decide (Has .unknown checks)) := by
  induction checks generalizing flags with
  | nil => simp [has_nil]
  | cons c checks ih =>
    rw [foldl_cons, ih]
    cases hc : c.status <;> simp [observe, hc, has_cons]

private theorem any_critical :
    (checks.any fun c => c.critical && c.status == .failing) = decide (CriticalFails checks) := by
  rw [Bool.eq_iff_iff, decide_eq_true_iff]
  simp [CriticalFails]

private theorem status_eq {r : Report} (h : r.checks ≠ []) :
    r.status =
      if Has .failing r.checks then .failing
      else if Has .unknown r.checks then .unknown
      else .passing := by
  rw [Report.status, if_neg (by simpa using h), any_critical, foldl_observe]
  by_cases hcritical : CriticalFails r.checks
  · obtain ⟨c, hc, -, hfail⟩ := hcritical
    have hfailing : Has .failing r.checks := ⟨c, hc, hfail⟩
    simp [hfailing]
  · simp [hcritical]

private theorem has_congr_perm (h : checks.Perm checks') (status : Status) :
    Has status checks ↔ Has status checks' := by
  unfold Has
  simp only [h.mem_iff]

private theorem status_congr_perm {r r' : Report} (h : r.checks.Perm r'.checks) :
    r.status = r'.status := by
  by_cases hnil : r.checks = []
  · have hnil' : r'.checks = [] := (hnil ▸ h).nil_eq.symm
    simp [Report.status, hnil, hnil']
  · have hnil' : r'.checks ≠ [] := fun he => hnil (he ▸ h).eq_nil
    simp only [status_eq hnil, status_eq hnil', has_congr_perm h]

private theorem checks_combineReports (instance_ : GoString) (reports : List Report) :
    (combineReports instance_ reports).checks = reports.flatMap Report.checks := by
  have hfold : ∀ out : Report,
      (reports.foldl (fun out r => { out with checks := out.checks ++ r.checks }) out).checks =
        out.checks ++ reports.flatMap Report.checks := by
    induction reports with
    | nil => simp
    | cons r reports ih =>
      intro out
      rw [foldl_cons, ih, flatMap_cons, append_assoc]
  exact hfold ⟨instance_, []⟩

/-- No check fails, or one fails that is critical, or all of these pass. -/
def Undisputed (checks : List Check) : Prop :=
  ¬ Has .failing checks ∨ CriticalFails checks ∨ CriticalPass checks

private theorem status_eq_rule_iff {r : Report} (h : r.checks ≠ []) :
    r.status = rule r.checks ↔ Undisputed r.checks := by
  rw [status_eq h, rule, Undisputed]
  by_cases hfailing : Has .failing r.checks
  · by_cases hfails : CriticalFails r.checks
    · simp [hfailing, hfails]
    · by_cases hpass : CriticalPass r.checks
      · simp [hfailing, hpass]
      · -- Neither of the last two rules gives a failing report.
        by_cases hunknown : Has .unknown r.checks <;> simp [hfailing, hfails, hpass, hunknown]
  · have hfails : ¬ CriticalFails r.checks := fun ⟨c, hc, _, hfail⟩ => hfailing ⟨c, hc, hfail⟩
    simp [hfailing, hfails]

/-- The status is that of the rules for the reports that leave no doubt, and it is one for all
orders of the checks and all ways to spread them over reports. -/
theorem status_follows_rules_iff (r : Report) (h : r.checks ≠ []) :
    (r.status = rule r.checks ↔ Undisputed r.checks) ∧
      (∀ r' : Report, r.checks.Perm r'.checks → r'.status = r.status) ∧
      ∀ instance_ reports, reports.flatMap Report.checks = r.checks →
        ((combineReports instance_ reports).status = rule r.checks ↔ Undisputed r.checks) := by
  refine ⟨status_eq_rule_iff h, fun r' hperm => (status_congr_perm hperm).symm, ?_⟩
  intro instance_ reports hall
  have hchecks := checks_combineReports instance_ reports
  rw [hall] at hchecks
  rw [← hchecks]
  exact status_eq_rule_iff (hchecks ▸ h)

end

/-- A check with the given outcome. -/
def sampleCheck (status : Status) (critical : Bool) : Check where
  name := lit "lag"
  status := status
  message := []
  observedAt := ⟨0, 0, by decide⟩
  duration := 0
  critical := critical

/-- A check that fails, though it is not critical. -/
theorem failing_check_decides :
    [sampleCheck .failing false, sampleCheck .passing true] ≠ [] ∧
      Report.status ⟨lit "pod-0", [sampleCheck .failing false, sampleCheck .passing true]⟩ =
        rule [sampleCheck .failing false, sampleCheck .passing true] :=
  ⟨by decide, (status_follows_rules_iff ⟨lit "pod-0", _⟩ (by decide)).1.2
    (.inr (.inr (by decide)))⟩

/-- A check that is not critical fails while a critical one is unknown. -/
theorem failing_hides_unknown :
    Report.status ⟨lit "pod-0", [sampleCheck .failing false, sampleCheck .unknown true]⟩ =
        .failing ∧
      rule [sampleCheck .failing false, sampleCheck .unknown true] = .unknown := by
  decide

end Athos.Healthcheck
