import Athos.Kube.Controller
import Athos.Postgres.Naming
import Athos.Postgres.Status
import Athos.User.Redaction
import Athos.User.Script

/-!
# The user controller

`src/internal/controller/postgresuser_controller.go`, without its log lines. The three ways in which
running the script can fail are one request with three kinds of failure.
-/

namespace Athos.User

open Base Kube Api Postgres

variable (T : RuneTables)

/-- `PostgresUserReconciler`; `postgresuser_controller.go:50-54`. -/
structure PostgresUserReconciler where
  hasRestConfig : Bool := true
  deriving DecidableEq

/-- The error text of a failed `execSQL`; `postgresuser_controller.go:240-267`. -/
def execErrorText : ExecFailure → GoString
  | .client text => lit "create kubernetes client: " ++ text
  | .executor text => lit "create exec: " ++ text
  | .stream text stderr =>
    lit "exec sql: " ++ text ++ lit " (stderr: " ++ redactPassword stderr ++ lit ")"

/-- The command that runs a script; `postgresuser_controller.go:251`. -/
def psqlCommand (sql : GoString) : List GoString :=
  [lit "psql", lit "-U", lit "postgres", lit "-c", sql]

/-- `execSQL`; `postgresuser_controller.go:230-270`. The value is the text of the error. -/
def execSQL (r : PostgresUserReconciler) (namespace_ podName containerName sql : GoString) :
    Action (Option GoString) := do
  -- In unit tests the rest config may not be available.
  if !r.hasRestConfig then return none
  else
    match ← Client.exec namespace_ podName containerName (psqlCommand sql) with
    | .error e => return some (execErrorText e)
    | .ok () => return none

/-- The password in a Secret; a missing key gives the empty one. -/
def passwordIn (data : StringMap) : GoString := data.getD (lit "password") []

/-- `Reconcile` once the password is known; `postgresuser_controller.go:112-131`. -/
def applyUser (r : PostgresUserReconciler) (req : NamespacedName) (user : PostgresUser)
    (cluster : PostgresCluster) (password : GoString) : Action (Result × Option GoError) := do
  match ← execSQL r cluster.metadata.namespace_ (podName cluster 0) (lit "postgres")
      (buildUserSQL T user password) with
  | some text =>
    let user ← setUserCondition user (lit "Applied") .false (lit "ExecFailed") text
    let _ ← Client.updateStatus (k := .postgresUser) { user with status := { user.status with
      applied := false
      observedGeneration := user.metadata.generation } }
    return ({ requeueAfter := 30 }, none)
  | none =>
    let user ← setUserCondition user (lit "Applied") .true (lit "UserReconciled")
      (lit "User " ++ goQuote T req.name ++ lit " has been reconciled")
    match ← Client.updateStatus (k := .postgresUser) { user with status := { user.status with
        applied := true
        observedGeneration := user.metadata.generation } } with
    | .error e => return ({ requeueAfter := 60 }, some (.api e))
    | .ok _ => return ({ requeueAfter := 60 }, none)

/-- `Reconcile` once the cluster was read; `postgresuser_controller.go:88-131`. -/
def reconcileWithCluster (r : PostgresUserReconciler) (req : NamespacedName)
    (user : PostgresUser) (cluster : PostgresCluster) : Action (Result × Option GoError) := do
  if !isClusterRunning cluster then
    let user ← setUserCondition user (lit "ClusterReady") .false (lit "ClusterNotReady")
      (lit "PostgresCluster " ++ goQuote T cluster.metadata.name ++
        lit " is not in Running phase")
    let _ ← Client.updateStatus (k := .postgresUser)
      { user with status := { user.status with applied := false } }
    return ({ requeueAfter := 20 }, none)
  else
    match user.spec.passwordSecret with
    | none => applyUser T r req user cluster []
    | some name =>
      match ← Client.get .secret ⟨user.metadata.namespace_, name⟩ with
      | .error e => return ({}, some (.wrapped (lit "fetch password secret") (.api e)))
      | .ok secret => applyUser T r req user cluster (passwordIn secret.spec.data)

/-- `Reconcile`; `postgresuser_controller.go:58-131`. -/
def reconcile (r : PostgresUserReconciler) (req : NamespacedName) :
    Action (Result × Option GoError) := do
  match ← Client.get .postgresUser req with
  | .error .notFound => return ({}, none)
  | .error e => return ({}, some (.api e))
  | .ok user =>
    match ← Client.get .postgresCluster ⟨user.metadata.namespace_, user.spec.clusterName⟩ with
    | .error .notFound =>
      let user ← setUserCondition user (lit "ClusterFound") .false (lit "ClusterNotFound")
        (lit "PostgresCluster " ++ goQuote T user.spec.clusterName ++ lit " not found")
      let _ ← Client.updateStatus (k := .postgresUser) { user with status := { user.status with
        applied := false
        observedGeneration := user.metadata.generation } }
      return ({ requeueAfter := 30 }, none)
    | .error e => return ({}, some (.api e))
    | .ok cluster => reconcileWithCluster T r req user cluster

end Athos.User
