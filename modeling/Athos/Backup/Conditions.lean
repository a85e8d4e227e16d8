import Athos.Backup.Controller
import Athos.Kube.Evolution

/-!
# Conditions of a backup over time

What a reconcile makes of the conditions it finds. Each outcome sets a condition of its own type and
leaves the others, also when the backup ends.
-/

namespace Athos.Backup

open Base Base.Prog Kube Api Postgres

/-- The backup was started, and that was stored. -/
def Started (backup backup' : PostgresBackup) : Prop :=
  backup'.status.phase = .running ∧ marks backup'.status.conditions =
    putMark (lit "Running", .true, lit "JobCreated") (marks backup.status.conditions)

/-- The backup has ended, and that was stored. -/
def Ended (backup backup' : PostgresBackup) : Prop :=
  ∃ status reason, marks backup'.status.conditions =
    putMark (lit "Complete", status, reason) (marks backup.status.conditions)

/-- The cluster of the backup, if there is a backup, exists and is running. -/
def FindsRunning (key : NamespacedName) (w : World) : Prop :=
  ∀ backup, w.objects.get .postgresBackup key = some backup →
    ∃ c, w.objects.get .postgresCluster ⟨backup.metadata.namespace_, backup.spec.clusterName⟩ =
      some c ∧ isClusterRunning c = true

/-- The Job of the backup exists. -/
def FindsJob (key : NamespacedName) (w : World) : Prop :=
  ∀ backup, w.objects.get .postgresBackup key = some backup →
    (w.objects.get .job ⟨backup.metadata.namespace_, backupJobName backup⟩).isSome

/-- What a call makes of the stored backup. -/
def Becomes (key : NamespacedName) (w w' : World) : Prop :=
  ∀ backup', w'.objects.get .postgresBackup key = some backup' →
    ∃ backup, w.objects.get .postgresBackup key = some backup ∧
      (backup'.status = backup.status ∨ (¬ FindsJob key w ∧ Started backup backup') ∨
        Ended backup backup')

section

variable {T : RuneTables} {key : NamespacedName} {backup : PostgresBackup} {w w₁ : World}

private theorem becomes_of_get (w₁ : World)
    (h : w₁.objects.get .postgresBackup key = w.objects.get .postgresBackup key) :
    Becomes key w w₁ := by
  intro backup' hb'
  rw [h] at hb'
  exact ⟨backup', hb', .inl rfl⟩

variable {A : Ambient → Prop}

section

variable (hget : w.objects.get .postgresBackup key = some backup)

include hget

private theorem wp_store {o : PostgresBackup}
    {res : Except ApiError PostgresBackup → Result × Option GoError}
    (hget₁ : w₁.objects.get .postgresBackup key = some backup) (hkey : o.key = backup.key)
    (hv : o.metadata.resourceVersion = backup.metadata.resourceVersion)
    (h : ∀ v, (¬ FindsJob key w ∧ Started backup (backup.withStatus o.status v)) ∨
      Ended backup (backup.withStatus o.status v)) :
    wp (within A) (do return res (← Client.updateStatus o)) (fun _ w' => Becomes key w w') w₁ := by
  have hbkey : backup.key = key := w.objects.keyed hget
  have hok : o.key = key := hkey.trans hbkey
  refine wp_updateStatus_of_get (hok ▸ hget₁) hv ?_ ?_
  · exact fun e _ t => becomes_of_get (w₁.advance t) (hget₁.trans hget.symm)
  · intro v w' hstored _ backup' hb'
    rw [hok] at hstored
    have heq := Option.some.inj (hb'.symm.trans hstored)
    rw [heq]
    exact ⟨backup, hget, .inr (h v)⟩

private theorem wp_createBackupJob_becomes {cluster : PostgresCluster} (hjob : ¬ FindsJob key w)
    (hw₁ : w₁.objects = w.objects) :
    wp (within A) (createBackupJob backup cluster) (fun _ w' => Becomes key w w') w₁ := by
  have hget₁ : w₁.objects.get .postgresBackup key = w.objects.get .postgresBackup key := by
    rw [hw₁]
  unfold createBackupJob
  split
  · exact becomes_of_get _ hget₁
  · next job hjob' =>
    refine wp_create ?_ ?_
    · exact fun e _ t => becomes_of_get (w₁.advance t) hget₁
    · intro t
      -- A new Job is not the backup.
      have hother : ((w₁.advance t).create job).2.objects.get .postgresBackup key =
          w.objects.get .postgresBackup key :=
        (World.create_sameExcept (w₁.advance t) job _ _ (by simp)).trans hget₁
      cases hres : ((w₁.advance t).create job).1 with
      | error e => exact becomes_of_get _ hother
      | ok _ =>
        refine wp_now fun u => wp_now fun v => ?_
        refine wp_store hget (hother.trans hget) rfl rfl fun v' => .inl ⟨hjob, rfl, ?_⟩
        exact marks_setCondition ..

private theorem wp_finishBackup_becomes {phase : BackupPhase} {status : ConditionStatus}
    {reason message : GoString} (hw₁ : w₁.objects = w.objects) :
    wp (within A) (finishBackup backup phase status reason message)
      (fun _ w' => Becomes key w w') w₁ := by
  refine wp_now fun t => wp_now fun u => ?_
  refine wp_store hget (by rw [← hget, ← hw₁]; rfl) rfl rfl fun v => .inr ⟨status, reason, ?_⟩
  exact marks_setCondition ..

private theorem wp_syncBackupStatus_becomes {conds : List JobCondition}
    (hw₁ : w₁.objects = w.objects) :
    wp (within A) (syncBackupStatus backup conds) (fun _ w' => Becomes key w w') w₁ := by
  induction conds with
  | nil => exact becomes_of_get _ (by rw [hw₁])
  | cons cond conds ih =>
    unfold syncBackupStatus
    split_ifs
    · exact wp_finishBackup_becomes hget hw₁
    · exact wp_finishBackup_becomes hget hw₁
    · exact ih

private theorem wp_running {cluster : PostgresCluster} (hrunning : isClusterRunning cluster = true)
    (hw₁ : w₁.objects = w.objects) :
    wp (within Ambient.Honest) (reconcileWithCluster T backup cluster)
      (fun _ w' => Becomes key w w') w₁ := by
  have hsame : w₁.objects.get .postgresBackup key = w.objects.get .postgresBackup key := by
    rw [hw₁]
  unfold reconcileWithCluster
  rw [hrunning]
  refine wp_lookup ?_ ?_ ?_
  · intro e hne _ t
    cases e with
    | notFound => exact absurd rfl hne
    | alreadyExists | conflict | invalid | other _ => exact becomes_of_get (w₁.advance t) hsame
  · intro hmissing t
    refine wp_createBackupJob_becomes hget (fun hf => ?_) hw₁
    have := hf backup hget
    rw [← hw₁, hmissing.resolve_left not_faults_honest] at this
    cases this
  · exact fun job _ t => wp_syncBackupStatus_becomes hget hw₁

end

/-- A reconcile of a backup whose cluster is running. -/
theorem wp_reconcile_becomes (T : RuneTables) (hrun : FindsRunning key w) :
    wp (within Ambient.Honest) (reconcile T key) (fun _ w' => Becomes key w w') w := by
  have hsame : ∀ t, Becomes key w (w.advance t) := fun t => becomes_of_get _ rfl
  refine wp_lookup ?_ (fun _ t => hsame t) ?_
  · intro e _ _ t
    cases e with
    | notFound | alreadyExists | conflict | invalid | other _ => exact hsame t
  · intro backup hget t
    dsimp only
    split
    · exact hsame t
    · obtain ⟨c, hc, hrunning⟩ := hrun backup hget
      refine wp_get ?_ ?_
      · intro e he u
        cases e with
        | notFound => exact absurd he not_faults_honest
        | alreadyExists | conflict | invalid | other _ =>
          exact becomes_of_get ((w.advance t).advance u) rfl
      · intro u
        rw [World.read_of_some (w := w.advance t) hc]
        exact wp_running hget hrunning rfl

end

end Athos.Backup
