import Athos.Cluster.Convergence
import Athos.Cluster.Webhook
import Athos.Schedule.Agreement

/-!
# Backup settings of admitted clusters

Whether the scheduler can use the backup settings that the webhooks let through.
-/

namespace Athos.Cluster

open Base Kube Api Schedule Option

/-- There is a schedule, the scheduler parses its expansion, and it parses the retention
policy. -/
structure Usable (T : RuneTables) (b : BackupSpec) : Prop where
  schedule : b.schedule ≠ []
  parsed : ∃ expr schedule, expand b.schedule = .ok expr ∧ Scheduler.parse T expr = .ok schedule
  retention : ∃ r, Scheduler.parseRetentionPolicy T b.retentionPolicy = .ok r

/-- There is a schedule without ranges, steps or wildcards in lists, and the retention policy is
left out, a positive number, or a positive number of days. -/
structure Readable (b : BackupSpec) : Prop where
  schedule : b.schedule ≠ []
  plain : ∀ expr, expand b.schedule = .ok expr → ∀ f ∈ fields expr, PlainField f
  retention : b.retentionPolicy = [] ∨ Scheduler.IsRetention b.retentionPolicy

section

variable {T : RuneTables} {cluster : PostgresCluster} {b : BackupSpec}

private theorem backup_setDefaults (hb : cluster.spec.backup = some b) :
    ∃ b', (setDefaults cluster).spec.backup = some b' ∧ b'.enabled = b.enabled ∧
      b'.schedule = b.schedule ∧
      b'.retentionPolicy = if b.retentionPolicy = [] then lit "7d" else b.retentionPolicy := by
  simp only [setDefaults, hb, map_some]
  split
  · exact ⟨_, rfl, rfl, rfl, rfl⟩
  · exact ⟨_, rfl, rfl, rfl, rfl⟩

private theorem validate_schedule (h : validate T cluster = []) (hb : cluster.spec.backup = some b)
    (he : b.enabled = true) (hs : b.schedule ≠ []) : Schedule.validate T b.schedule = .ok () := by
  simp only [validate, List.append_eq_nil_iff] at h
  have hv := h.2
  simp only [validateBackup, hb, he, hs, ne_eq, not_false_eq_true, and_self, ↓reduceIte] at hv
  split at hv
  · cases hv
  · rename_i h'
    exact h'

end

/-- The backup settings of an admitted cluster with backups are usable exactly if they are
readable. -/
theorem backup_usable_iff (T : RuneTables) (cluster : PostgresCluster) (b : BackupSpec)
    (hb : cluster.spec.backup = some b) (he : b.enabled = true)
    (hadmitted : validate T (setDefaults cluster) = []) :
    (∃ b', (setDefaults cluster).spec.backup = some b' ∧ Usable T b') ↔ Readable b := by
  obtain ⟨b', hb', henabled, hschedule, hretention⟩ := backup_setDefaults hb
  have hvalid (hs : b.schedule ≠ []) : Schedule.validate T b.schedule = .ok () := by
    rw [← hschedule] at hs ⊢
    exact validate_schedule hadmitted hb' (henabled.trans he) hs
  have hdefault : Scheduler.IsRetention (lit "7d") := ⟨7, by decide, .inr ⟨lit "7", by decide⟩⟩
  constructor
  · rintro ⟨b'', hb'', hs, ⟨expr, schedule, hexpr, hparse⟩, hr⟩
    obtain rfl : b' = b'' := some.inj (hb'.symm.trans hb'')
    rw [hschedule] at hs hexpr
    refine ⟨hs, ?_, ?_⟩
    · intro expr' hexpr'
      obtain rfl : expr = expr' := by simpa [hexpr] using hexpr'
      exact (parse_iff_plain (hvalid hs) hexpr).1 ⟨schedule, hparse⟩
    · by_cases hnil : b.retentionPolicy = []
      · exact .inl hnil
      · rw [Scheduler.parseRetentionPolicy_isOk, hretention, if_neg hnil] at hr
        exact .inr hr
  · rintro ⟨hs, hplain, hr⟩
    obtain ⟨expr, -, -, -, -, -, hexpr, -⟩ := fields_of_validate (hvalid hs)
    have hparse := (parse_iff_plain (hvalid hs) hexpr).2 (hplain expr hexpr)
    refine ⟨b', hb', hschedule ▸ hs, ?_, ?_⟩
    · obtain ⟨schedule, hparse⟩ := hparse
      exact ⟨expr, schedule, hschedule ▸ hexpr, hparse⟩
    · rw [Scheduler.parseRetentionPolicy_isOk, hretention]
      split
      · exact hdefault
      · rename_i hnil
        exact hr.resolve_left hnil

/-- The sample cluster with backups. -/
def sampleBackups (schedule retentionPolicy : GoString) : PostgresCluster :=
  { sampleCluster with spec := { sampleCluster.spec with
    backup := some
      { enabled := true, retentionPolicy := retentionPolicy, schedule := schedule } } }

/-- A schedule without a retention policy, which is set by default. -/
theorem backup_usable_sampleBackups :
    ∃ b', (setDefaults (sampleBackups (lit "0 2 * * *") [])).spec.backup = some b' ∧
      Usable .basic b' := by
  refine (backup_usable_iff .basic (sampleBackups (lit "0 2 * * *") []) _ rfl rfl
    (by decide +kernel)).2 ⟨by decide, ?_, .inl rfl⟩
  intro expr hexpr
  obtain rfl : lit "0 2 * * *" = expr := by
    have he : expand (lit "0 2 * * *") = .ok (lit "0 2 * * *") := by decide +kernel
    simpa [he] using hexpr
  exact forall_mem_of_all (by decide +kernel)

/-- The cluster is admitted with settings that are not usable. -/
def AdmitsUnusable (T : RuneTables) (cluster : PostgresCluster) : Prop :=
  validate T (setDefaults cluster) = [] ∧
    ¬ ∃ b, (setDefaults cluster).spec.backup = some b ∧ Usable T b

/-- The webhooks let through backups without a schedule, every five minutes, and with an
unreadable retention policy. -/
theorem backup_admitted_unusable :
    AdmitsUnusable .basic (sampleBackups [] []) ∧
      AdmitsUnusable .basic (sampleBackups (lit "*/5 * * * *") []) ∧
      AdmitsUnusable .basic (sampleBackups (lit "0 2 * * *") (lit "one week")) := by
  refine ⟨⟨by decide +kernel, ?_⟩, ⟨by decide +kernel, ?_⟩, ⟨by decide +kernel, ?_⟩⟩
  · rintro ⟨b', hb', hu⟩
    have hs : (setDefaults (sampleBackups [] [])).spec.backup.map (·.schedule) = some [] := rfl
    rw [hb'] at hs
    exact hu.schedule (some.inj hs)
  · rintro ⟨b', hb', hu⟩
    have hs : (setDefaults (sampleBackups (lit "*/5 * * * *") [])).spec.backup.map (·.schedule) =
        some (lit "*/5 * * * *") := rfl
    rw [hb', map_some, some.injEq] at hs
    obtain ⟨expr, schedule, hexpr, hparse⟩ := hu.parsed
    have he : expand (lit "*/5 * * * *") = .ok (lit "*/5 * * * *") := by decide +kernel
    rw [hs, he, Except.ok.injEq] at hexpr
    have hnone : (Scheduler.parse .basic (lit "*/5 * * * *")).toOption = none := by decide +kernel
    rw [hexpr, hparse] at hnone
    cases hnone
  · rintro ⟨b', hb', hu⟩
    have hs : (setDefaults (sampleBackups (lit "0 2 * * *") (lit "one week"))).spec.backup.map
        (·.retentionPolicy) = some (lit "one week") := rfl
    rw [hb', map_some, some.injEq] at hs
    obtain ⟨r, hr⟩ := hu.retention
    have hnone : (Scheduler.parseRetentionPolicy .basic (lit "one week")).toOption = none := by
      decide +kernel
    rw [hs] at hr
    rw [hr] at hnone
    cases hnone

end Athos.Cluster
