import Athos.Cluster.Controller
import Athos.Pooler.Pgbouncer

/-!
# The pooler controller

`src/internal/controller/postgrespooler_controller.go`, without its log lines.
-/

namespace Athos.Pooler

open Base Kube Api Postgres

/-- The metadata of a pooler object. -/
def poolerMeta (cluster : PostgresCluster) (name : GoString) : ObjectMeta where
  name := name
  namespace_ := cluster.metadata.namespace_
  labels := commonLabels cluster

/-- The labels that select the pooler pods; `postgrespooler_controller.go:150-153`. -/
def poolerSelector (cluster : PostgresCluster) : StringMap :=
  mapOf [(lit "app.kubernetes.io/component", lit "pooler"),
    (lit "pg.athos.io/cluster", cluster.metadata.name)]

/-- The ConfigMap; `postgrespooler_controller.go:108-117`. -/
def poolerConfigMap (cluster : PostgresCluster) (cfg : Config) (primarySvc : GoString) :
    ConfigMap where
  metadata := poolerMeta cluster (configMapName cluster.metadata.name)
  spec :=
    { data := mapOf [(lit "pgbouncer.ini",
        cfg.ini cluster.metadata.name primarySvc cluster.metadata.name)] }
  status := Status.zero .configMap

/-- The Deployment; `postgrespooler_controller.go:141-206`. -/
def poolerDeployment (cluster : PostgresCluster) (cfg : Config) : Deployment where
  metadata := poolerMeta cluster (deploymentName cluster.metadata.name)
  spec :=
    { replicas := some 2
      selector := { matchLabels := poolerSelector cluster }
      template :=
        { labels := poolerSelector cluster
          spec :=
            { containers :=
                [{ name := lit "pgbouncer"
                   image := image
                   ports :=
                     [{ name := lit "pgbouncer"
                        containerPort := safeInt32 cfg.listenPort
                        protocol := .tcp }]
                   volumeMounts :=
                     [{ name := lit "pgbouncer-config", mountPath := lit "/etc/pgbouncer" }]
                   livenessProbe := some
                     { handler := .tcpSocket (.int (safeInt32 cfg.listenPort))
                       initialDelaySeconds := 5
                       periodSeconds := 10 } }]
              volumes :=
                [{ name := lit "pgbouncer-config"
                   source := .configMap (configMapName cluster.metadata.name) }] } } }
  status := Status.zero .deployment

/-- The Service; `postgrespooler_controller.go:230-251`. -/
def poolerService (cluster : PostgresCluster) (cfg : Config) : Service where
  metadata := poolerMeta cluster (serviceName cluster.metadata.name)
  spec :=
    { type := .clusterIP
      selector := poolerSelector cluster
      ports :=
        [{ name := lit "pgbouncer"
           port := safeInt32 cfg.listenPort
           targetPort := .int (safeInt32 cfg.listenPort)
           protocol := .tcp }] }
  status := Status.zero .service

/-- One of the three steps: an object, named in the errors, and its managed fields. -/
def reconcilePoolerObject {k : Kind} (cluster : PostgresCluster) (object : Object k)
    (what : GoString) (manage : Spec k → Spec k → Spec k) : Action (Except GoError Unit) :=
  match setControllerReference (Cluster.owner cluster) object with
  | .error e =>
    return .error (.wrapped (lit "setting controller reference on pooler " ++ what) e)
  | .ok desired =>
    createOrUpdate desired (manage desired.spec) (return ()) (fun _ => return ())
      (.wrapped (lit "getting pooler " ++ what))

/-- `reconcilePoolerConfigMap`; `postgrespooler_controller.go:102-133`. -/
def reconcilePoolerConfigMap (cluster : PostgresCluster) (cfg : Config) (primarySvc : GoString) :
    Action (Except GoError Unit) :=
  reconcilePoolerObject cluster (poolerConfigMap cluster cfg primarySvc) (lit "ConfigMap")
    fun desired existing => { existing with data := desired.data }

/-- `reconcilePoolerDeployment`; `postgrespooler_controller.go:135-223`. -/
def reconcilePoolerDeployment (cluster : PostgresCluster) (cfg : Config) :
    Action (Except GoError Unit) :=
  reconcilePoolerObject cluster (poolerDeployment cluster cfg) (lit "Deployment")
    fun desired _ => desired

/-- `reconcilePoolerService`; `postgrespooler_controller.go:225-268`. Only the ports of an
existing Service are written. -/
def reconcilePoolerService (cluster : PostgresCluster) (cfg : Config) :
    Action (Except GoError Unit) :=
  reconcilePoolerObject cluster (poolerService cluster cfg) (lit "Service")
    fun desired existing => { existing with ports := desired.ports }

/-- The annotation that asks for a pooler. -/
def poolerRequested (cluster : PostgresCluster) : Bool :=
  cluster.metadata.annotations.getD (lit "pg.athos.io/enable-pooler") [] = lit "true"

/-- `Reconcile` once the cluster was read; `postgrespooler_controller.go:73-99`. -/
def reconcileFetched (cluster : PostgresCluster) : Action (Result × Option GoError) := do
  if cluster.metadata.deletionTimestamp.isSome || cluster.spec.paused then return ({}, none)
  else if !poolerRequested cluster then return ({}, none)
  else
    match ← untilError
      [reconcilePoolerConfigMap cluster defaultConfig (primaryServiceName cluster),
        reconcilePoolerDeployment cluster defaultConfig,
        reconcilePoolerService cluster defaultConfig] with
    | .error e => return ({}, some e)
    | .ok _ => return ({}, none)

/-- `Reconcile`; `postgrespooler_controller.go:62-100`. -/
def reconcile (req : NamespacedName) : Action (Result × Option GoError) := do
  match ← Client.get .postgresCluster req with
  | .error .notFound => return ({}, none)
  | .error e => return ({}, some (.wrapped (lit "getting PostgresCluster") (.api e)))
  | .ok cluster => reconcileFetched cluster

end Athos.Pooler
