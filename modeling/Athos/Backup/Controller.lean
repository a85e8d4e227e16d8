import Athos.Kube.Controller
import Athos.Postgres.Resources
import Athos.Postgres.Status

/-!
# The backup controller

`src/internal/controller/postgresbackup_controller.go`, without its log lines.
-/

namespace Athos.Backup

open Base Kube Api Postgres

variable (T : RuneTables)

/-- A backup as the owner of its Job. -/
def owner (backup : PostgresBackup) : Owner where
  apiVersion := lit "pg.athos.io/v1alpha1"
  kind := lit "PostgresBackup"
  metadata := backup.metadata

/-- The error of an API answer, if any. -/
def errorOf {k : Kind} : Except ApiError (Object k) → Option GoError
  | .ok _ => none
  | .error e => some (.api e)

/-- `createBackupJob`; `postgresbackup_controller.go:113-133`. -/
def createBackupJob (backup : PostgresBackup) (cluster : PostgresCluster) :
    Action (Result × Option GoError) :=
  match setControllerReference (owner backup) (buildBackupJob backup cluster) with
  | .error e => return ({}, some e)
  | .ok job => do
    match ← Client.create job with
    | .error e => return ({}, some (.api e))
    | .ok _ =>
      let now ← Client.now
      let backup ← setBackupCondition
        { backup with status := { backup.status with phase := .running, startTime := some now } }
        (lit "Running") .true (lit "JobCreated") (lit "Backup job has been created")
      return ({ requeueAfter := 15 }, errorOf (← Client.updateStatus backup))

/-- The end of a backup in `syncBackupStatus`, with the phase and the condition. -/
def finishBackup (backup : PostgresBackup) (phase : BackupPhase) (status : ConditionStatus)
    (reason message : GoString) : Action (Result × Option GoError) := do
  let now ← Client.now
  let backup ← setBackupCondition
    { backup with status := { backup.status with phase := phase, completionTime := some now } }
    (lit "Complete") status reason message
  return ({}, errorOf (← Client.updateStatus backup))

/-- `syncBackupStatus`; `postgresbackup_controller.go:136-162`. The first condition that ends
the Job decides. -/
def syncBackupStatus (backup : PostgresBackup) :
    List JobCondition → Action (Result × Option GoError)
  | [] => return ({ requeueAfter := 15 }, none)
  | cond :: conds =>
    if cond.type = .complete ∧ cond.status = .true then
      finishBackup backup .completed .true (lit "JobSucceeded")
        (lit "Backup completed successfully")
    else if cond.type = .failed ∧ cond.status = .true then
      finishBackup backup .failed .false (lit "JobFailed") (lit "Backup job failed")
    else syncBackupStatus backup conds

/-- A condition that is stored on a best-effort basis before waiting. -/
def waitWith (backup : PostgresBackup) (type reason message : GoString) (seconds : Int) :
    Action (Result × Option GoError) := do
  let backup ← setBackupCondition backup type .false reason message
  let _ ← Client.updateStatus backup
  return ({ requeueAfter := seconds }, none)

/-- `Reconcile` once the cluster was read; `postgresbackup_controller.go:86-109`. -/
def reconcileWithCluster (backup : PostgresBackup) (cluster : PostgresCluster) :
    Action (Result × Option GoError) := do
  -- Wait for the cluster to be ready before proceeding.
  if !isClusterRunning cluster then
    waitWith backup (lit "ClusterReady") (lit "ClusterNotReady")
      (lit "PostgresCluster " ++ goQuote T cluster.metadata.name ++
        lit " is not in Running phase") 20
  else
    match ← Client.get .job ⟨backup.metadata.namespace_, backupJobName backup⟩ with
    | .error .notFound => createBackupJob backup cluster
    | .error e => return ({}, some (.api e))
    | .ok job => syncBackupStatus backup job.status.conditions

/-- `Reconcile`; `postgresbackup_controller.go:51-110`. -/
def reconcile (req : NamespacedName) : Action (Result × Option GoError) := do
  match ← Client.get .postgresBackup req with
  | .error .notFound => return ({}, none)
  | .error e => return ({}, some (.api e))
  | .ok backup =>
    -- Backups are immutable once they reach a terminal state.
    if backup.status.phase = .completed ∨ backup.status.phase = .failed then return ({}, none)
    else
      match ← Client.get .postgresCluster
          ⟨backup.metadata.namespace_, backup.spec.clusterName⟩ with
      | .error .notFound =>
        waitWith backup (lit "ClusterFound") (lit "ClusterNotFound")
          (lit "PostgresCluster " ++ goQuote T backup.spec.clusterName ++ lit " not found") 30
      | .error e => return ({}, some (.api e))
      | .ok cluster => reconcileWithCluster T backup cluster

end Athos.Backup
