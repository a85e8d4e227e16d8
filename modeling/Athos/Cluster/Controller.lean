import Athos.Kube.Controller
import Athos.Postgres.Password
import Athos.Postgres.Resources
import Athos.Postgres.Status

/-!
# The cluster controller

`src/internal/controller/postgrescluster_controller.go`. Log lines are left out; whether an event
recorder is configured is a field of the reconciler.
-/

namespace Athos.Cluster

open Base Kube Api Postgres

variable (T : RuneTables)

/-- `PostgresClusterReconciler`; `postgrescluster_controller.go:59-63`. -/
structure PostgresClusterReconciler where
  hasRecorder : Bool := true
  deriving DecidableEq

/-- A cluster as the owner of its objects. -/
def owner (cluster : PostgresCluster) : Owner where
  apiVersion := lit "pg.athos.io/v1alpha1"
  kind := lit "PostgresCluster"
  metadata := cluster.metadata

variable (r : PostgresClusterReconciler)

/-- `recordEventf`; `postgrescluster_controller.go:68-77`. -/
def recordEventf (cluster : PostgresCluster) (type reason message : GoString) : Action Unit :=
  if r.hasRecorder then Client.event ⟨cluster.key, type, reason, message⟩ else return ()

/-- A `Created` event for an object named in the message. -/
def recordCreated (cluster : PostgresCluster) (message : GoString) : Action Unit :=
  recordEventf r cluster (lit "Normal") (lit "Created") message

/-- `reconcileServiceAccount`; `postgrescluster_controller.go:187-207`. -/
def reconcileServiceAccount (cluster : PostgresCluster) : Action (Except GoError Unit) :=
  -- Skip if the user has pointed to an existing ServiceAccount.
  if cluster.spec.serviceAccountName ≠ [] then return .ok ()
  else
    match setControllerReference (owner cluster) (buildServiceAccount cluster) with
    | .error e => return .error e
    | .ok desired => ensure .serviceAccount desired.key (createMissing desired (return ()))

/-- The creation of the credentials Secret; `postgrescluster_controller.go:229-242`. -/
def createCredentials (cluster : PostgresCluster) : Action (Except GoError Unit) := do
  match ← defaultGenerator.generate with
  | .error e => return .error (.wrapped (lit "generate password") e)
  | .ok pw =>
    match setControllerReference (owner cluster) (buildCredentialSecret cluster pw) with
    | .error e => return .error e
    | .ok desired =>
      createMissing desired (recordCreated r cluster
        (lit "Created credentials Secret " ++ goQuote T desired.metadata.name))

/-- `reconcileCredentials`; `postgrescluster_controller.go:213-243`. -/
def reconcileCredentials (cluster : PostgresCluster) : Action (Except GoError Unit) :=
  ensure .secret ⟨cluster.metadata.namespace_, secretName cluster⟩ (createCredentials T r cluster)

/-- The managed part of a ConfigMap is its data. -/
def manageConfigMap (desired existing : ConfigMapSpec) : ConfigMapSpec :=
  { existing with data := desired.data }

/-- `reconcileConfigMap`; `postgrescluster_controller.go:247-273`. -/
def reconcileConfigMap (cluster : PostgresCluster) : Action (Except GoError Unit) :=
  match setControllerReference (owner cluster) (buildConfigMap cluster) with
  | .error e => return .error e
  | .ok desired =>
    createOrUpdate desired (manageConfigMap desired.spec)
      (recordCreated r cluster (lit "Created ConfigMap " ++ goQuote T desired.metadata.name))
      (fun _ => return ()) id

/-- The managed parts of a StatefulSet are its replicas and its pod template. -/
def manageStatefulSet (desired existing : StatefulSetSpec) : StatefulSetSpec :=
  { existing with replicas := desired.replicas, template := desired.template }

/-- The scale event of `reconcileStatefulSet`, when both replica counts are known and
differ. -/
def recordScaling (cluster : PostgresCluster) (desired existing : StatefulSet) : Action Unit :=
  match existing.spec.replicas, desired.spec.replicas with
  | some m, some n =>
    if m ≠ n then
      recordEventf r cluster (lit "Normal") (lit "Updated")
        (lit "Scaling StatefulSet " ++ goQuote T desired.metadata.name ++ lit " from " ++
          decimal m ++ lit " to " ++ decimal n ++ lit " replicas")
    else return ()
  | _, _ => return ()

/-- `reconcileStatefulSet`; `postgrescluster_controller.go:276-309`. -/
def reconcileStatefulSet (cluster : PostgresCluster) : Action (Except GoError Unit) :=
  match setControllerReference (owner cluster) (buildStatefulSet cluster) with
  | .error e => return .error e
  | .ok desired =>
    createOrUpdate desired (manageStatefulSet desired.spec)
      (recordCreated r cluster
        (lit "Created StatefulSet " ++ goQuote T desired.metadata.name ++ lit " with " ++
          decimal (desired.spec.replicas.getD 0) ++ lit " replicas"))
      (recordScaling T r cluster desired) id

/-- The managed parts of a Service are its ports and its selector. -/
def manageService (desired existing : ServiceSpec) : ServiceSpec :=
  { existing with ports := desired.ports, selector := desired.selector }

/-- One round of the loop in `reconcileServices`. -/
def reconcileService (cluster : PostgresCluster) (svc : Service) : Action (Except GoError Unit) :=
  match setControllerReference (owner cluster) svc with
  | .error e => return .error e
  | .ok desired =>
    createOrUpdate desired (manageService desired.spec) (return ()) (fun _ => return ()) id

/-- `reconcileServices`; `postgrescluster_controller.go:312-346`. -/
def reconcileServices (cluster : PostgresCluster) : Action (Except GoError Unit) :=
  untilError ([buildHeadlessService cluster, buildPrimaryService cluster,
    buildReplicaService cluster].map (reconcileService cluster))

/-- The budget of `reconcilePDB`; `postgrescluster_controller.go:356-363`. -/
def desiredPdb (cluster : PostgresCluster) : PodDisruptionBudget :=
  buildPdb (recommendedFor (cluster.metadata.name ++ lit "-pdb") cluster.metadata.namespace_
    cluster.spec.instances (selectorLabels cluster) (commonLabels cluster))

/-- All of a PodDisruptionBudget's spec is managed. -/
def managePdb (desired _existing : PodDisruptionBudgetSpec) : PodDisruptionBudgetSpec := desired

/-- `reconcilePDB`; `postgrescluster_controller.go:352-383`. -/
def reconcilePDB (cluster : PostgresCluster) : Action (Except GoError Unit) :=
  match setControllerReference (owner cluster) (desiredPdb cluster) with
  | .error e => return .error e
  | .ok desired =>
    createOrUpdate desired (managePdb desired.spec)
      (recordCreated r cluster
        (lit "Created PodDisruptionBudget " ++ goQuote T desired.metadata.name))
      (fun _ => return ()) id

/-- The phase and conditions of `updateStatus`; `postgrescluster_controller.go:406-427`. -/
def setReadiness (cluster : PostgresCluster) (ready : Int) : Action PostgresCluster :=
  let desired := cluster.spec.instances
  let counts := decimal ready ++ lit " of " ++ decimal desired ++ lit " instances are ready"
  if ready = 0 then
    setClusterCondition { cluster with status := { cluster.status with phase := .creating } }
      conditionReady .false (lit "NoReadyInstances") (lit "No instances are ready yet")
  else if ready < desired then do
    let cluster ← setClusterCondition
      { cluster with status := { cluster.status with phase := .degraded } }
      conditionReady .false (lit "InsufficientInstances") counts
    setClusterCondition cluster conditionDegraded .true (lit "InsufficientInstances") counts
  else do
    let cluster ← setClusterCondition
      { cluster with status := { cluster.status with phase := .running } }
      conditionReady .true (lit "AllInstancesReady")
      (lit "All " ++ decimal desired ++ lit " instances are ready")
    setClusterCondition cluster conditionDegraded .false (lit "AllInstancesReady")
      (lit "Cluster is fully operational")

/-- `updateStatus`; `postgrescluster_controller.go:387-437`. A missing StatefulSet reads as
one without ready replicas. -/
def updateStatus (cluster : PostgresCluster) : Action (Except GoError Unit) := do
  let key := ⟨cluster.metadata.namespace_, clusterStatefulSetName cluster⟩
  match ← Client.get .statefulSet key with
  | .error .notFound => report 0
  | .error e => return .error (.api e)
  | .ok sts => report sts.status.readyReplicas
where
  report (readyReplicas : Int) : Action (Except GoError Unit) := do
    let ready := if 0 < readyReplicas then readyReplicas else 0
    let cluster ← setReadiness
      { cluster with status := { cluster.status with readyInstances := ready } } ready
    return discard (← Client.updateStatus { cluster with status := { cluster.status with
      currentPrimary := podName cluster 0
      writeServiceName := primaryServiceName cluster
      readServiceName := replicaServiceName cluster
      observedGeneration := cluster.metadata.generation
      postgresVersion := decimal cluster.spec.postgresVersion } })

/-- `reconcileSubresources`; `postgrescluster_controller.go:144-166`. -/
def reconcileSubresources (cluster : PostgresCluster) : Action (Except GoError Unit) :=
  runSteps [
    (lit "serviceaccount", reconcileServiceAccount cluster),
    (lit "credentials", reconcileCredentials T r cluster),
    (lit "configmap", reconcileConfigMap T r cluster),
    (lit "statefulset", reconcileStatefulSet T r cluster),
    (lit "services", reconcileServices cluster),
    (lit "pdb", reconcilePDB T r cluster),
    (lit "status", updateStatus cluster)]

/-- `reconcileDelete`; `postgrescluster_controller.go:170-184`. -/
def reconcileDelete (cluster : PostgresCluster) : Action (Result × Option GoError) := do
  match ← Client.update
    { cluster with metadata := removeFinalizer cluster.metadata postgresClusterFinalizer } with
  | .error e => return ({}, some (.api e))
  | .ok _ => return ({}, none)

/-- The pause branch of `Reconcile`; `postgrescluster_controller.go:95-108`. -/
def reconcilePaused (cluster : PostgresCluster) : Action (Result × Option GoError) := do
  if cluster.status.phase ≠ .paused then
    let cluster ← setClusterCondition
      { cluster with status := { cluster.status with phase := .paused } }
      conditionProgressing .false (lit "Paused") (lit "Reconciliation is suspended")
    match ← Client.updateStatus cluster with
    | .error e => return ({}, some (.api e))
    | .ok cluster =>
      recordEventf r cluster (lit "Warning") (lit "Paused")
        (lit "Reconciliation paused via spec.paused")
      return ({}, none)
  else return ({}, none)

/-- The rest of `Reconcile` once the status has a phase;
`postgrescluster_controller.go:134-138`. -/
def reconcileBootstrapped (cluster : PostgresCluster) : Action (Result × Option GoError) := do
  match ← reconcileSubresources T r cluster with
  | .error e => return ({}, some e)
  | .ok _ => return ({ requeueAfter := 30 }, none)

/-- The part of `Reconcile` for a live cluster with the finalizer;
`postgrescluster_controller.go:124-138`. -/
def reconcileLive (cluster : PostgresCluster) : Action (Result × Option GoError) := do
  -- Bootstrap the status phase on first reconcile.
  if cluster.status.phase = .empty then
    let cluster ← setClusterCondition
      { cluster with status := { cluster.status with phase := .initializing } }
      conditionProgressing .true (lit "Initializing") (lit "Cluster is being initialised")
    match ← Client.updateStatus cluster with
    | .error e => return ({}, some (.api e))
    | .ok cluster => reconcileBootstrapped T r cluster
  else reconcileBootstrapped T r cluster

/-- `Reconcile` once the cluster was read; `postgrescluster_controller.go:94-138`. -/
def reconcileFetched (cluster : PostgresCluster) : Action (Result × Option GoError) :=
  if cluster.spec.paused then reconcilePaused r cluster
  -- Add our finalizer when it is absent.
  else if !containsFinalizer cluster.metadata postgresClusterFinalizer then do
    match ← Client.update
      { cluster with metadata := addFinalizer cluster.metadata postgresClusterFinalizer } with
    | .error e => return ({}, some (.api e))
    | .ok _ => return ({ requeue := true }, none)
  else if cluster.metadata.deletionTimestamp.isSome then reconcileDelete cluster
  else reconcileLive T r cluster

/-- `Reconcile`; `postgrescluster_controller.go:82-139`. -/
def reconcile (req : NamespacedName) : Action (Result × Option GoError) := do
  match ← Client.get .postgresCluster req with
  | .error .notFound => return ({}, none)
  | .error e => return ({}, some (.api e))
  | .ok cluster => reconcileFetched T r cluster

end Athos.Cluster
