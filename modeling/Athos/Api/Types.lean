import Athos.Kube.Workload

/-!
# Custom resource types

The specs and statuses of `src/api/v1alpha1/postgrescluster_types.go`, `postgresuser_types.go` and
`postgresbackup_types.go`. Fields declared there that no modelled function reads or writes (GCS
destinations, bucket addressing, TLS secrets, `latestBackup`, `backupSize`, `destinationPath`,
`online`) are in `unmanaged`.
-/

namespace Athos.Api

open Base Kube

/-- `StorageSpec`; `postgrescluster_types.go:97-108`. -/
structure StorageSpec where
  size : Quantity
  storageClass : Option GoString := none
  accessModes : List GoString := []
  deriving DecidableEq

/-- `S3BackupSpec`, as far as the backup Job uses it; `postgrescluster_types.go:142-162`. -/
structure S3BackupSpec where
  endpoint : GoString := []
  credentialsSecret : Option GoString := none
  deriving DecidableEq

/-- `BackupDestinationSpec`; `postgrescluster_types.go:131-139`. -/
structure BackupDestinationSpec where
  s3 : Option S3BackupSpec := none
  deriving DecidableEq

/-- `BackupSpec`; `postgrescluster_types.go:111-128`. -/
structure BackupSpec where
  enabled : Bool := false
  retentionPolicy : GoString := []
  schedule : GoString := []
  destination : Option BackupDestinationSpec := none
  deriving DecidableEq

/-- `TLSSpec`; `postgrescluster_types.go:179-191`. -/
structure TLSSpec where
  enabled : Bool
  deriving DecidableEq

/-- `MonitoringSpec`; `postgrescluster_types.go:194-203`. -/
structure MonitoringSpec where
  enabled : Bool
  port : Int := 0
  deriving DecidableEq

/-- `PostgresClusterSpec`; `postgrescluster_types.go:26-94`. -/
structure PostgresClusterSpec where
  postgresVersion : Int := 0
  instances : Int := 0
  storage : StorageSpec
  resources : ResourceRequirements := {}
  postgresParameters : StringMap := ∅
  postgresHBA : List GoString := []
  backup : Option BackupSpec := none
  tls : Option TLSSpec := none
  monitoring : Option MonitoringSpec := none
  topologySpreadConstraints : List Verbatim := []
  affinity : Option Verbatim := none
  tolerations : List Verbatim := []
  imagePullSecrets : List GoString := []
  serviceAccountName : GoString := []
  priorityClassName : GoString := []
  paused : Bool := false
  unmanaged : Fields := []
  deriving DecidableEq

/-- `PostgresClusterPhase`; `empty` is the empty string. -/
inductive PostgresClusterPhase where
  | empty
  | initializing
  | creating
  | running
  | degraded
  | failed
  | paused
  | upgrading
  deriving DecidableEq

/-- `PostgresClusterStatus`; `postgrescluster_types.go:206-242`. -/
structure PostgresClusterStatus where
  conditions : List Condition := []
  phase : PostgresClusterPhase := .empty
  readyInstances : Int := 0
  currentPrimary : GoString := []
  writeServiceName : GoString := []
  readServiceName : GoString := []
  postgresVersion : GoString := []
  observedGeneration : Int := 0
  unmanaged : Fields := []
  deriving DecidableEq

/-- `ConditionReady`; `postgrescluster_types.go:268`. -/
def conditionReady : GoString := lit "Ready"

/-- `ConditionProgressing`; `postgrescluster_types.go:272`. -/
def conditionProgressing : GoString := lit "Progressing"

/-- `ConditionDegraded`; `postgrescluster_types.go:274`. -/
def conditionDegraded : GoString := lit "Degraded"

/-- `PostgresClusterFinalizer`; `postgrescluster_types.go:280`. -/
def postgresClusterFinalizer : GoString := lit "pg.athos.io/finalizer"

/-- `DatabaseGrant`; `postgresuser_types.go:25-32`. -/
structure DatabaseGrant where
  name : GoString
  privileges : List GoString := []
  deriving DecidableEq

/-- `PostgresUserSpec`; `postgresuser_types.go:35-64`. -/
structure PostgresUserSpec where
  clusterName : GoString
  passwordSecret : Option GoString := none
  databases : List DatabaseGrant := []
  roles : List GoString := []
  superuser : Bool := false
  connectionLimit : Int := 0
  deriving DecidableEq

/-- `PostgresUserStatus`; `postgresuser_types.go:67-80`. -/
structure PostgresUserStatus where
  applied : Bool := false
  conditions : List Condition := []
  observedGeneration : Int := 0
  deriving DecidableEq

/-- `BackupMethod`; any value other than `pgdump` selects a base backup. -/
inductive BackupMethod where
  | unset
  | baseBackup
  | pgDump
  deriving DecidableEq

/-- `BackupPhase`; `empty` is the empty string. -/
inductive BackupPhase where
  | empty
  | pending
  | running
  | completed
  | failed
  deriving DecidableEq

/-- `PostgresBackupSpec`; `postgresbackup_types.go:48-63`. -/
structure PostgresBackupSpec where
  clusterName : GoString
  method : BackupMethod := .unset
  unmanaged : Fields := []
  deriving DecidableEq

/-- `PostgresBackupStatus`; `postgresbackup_types.go:66-90`. -/
structure PostgresBackupStatus where
  phase : BackupPhase := .empty
  startTime : Option Time := none
  completionTime : Option Time := none
  conditions : List Condition := []
  unmanaged : Fields := []
  deriving DecidableEq

end Athos.Api
