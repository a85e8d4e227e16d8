import Athos.Api.Types

/-!
# API objects by kind

Every kind has the shape metadata, desired part, status. The desired part is the `spec` where the
kind has one and the payload otherwise (a ConfigMap's data), so that the API server's treatment of
writes is stated once for all kinds.
-/

namespace Athos.Kube

open Base Api

/-- The kinds the operator reads or writes. -/
inductive Kind where
  | postgresCluster
  | postgresUser
  | postgresBackup
  | serviceAccount
  | secret
  | configMap
  | statefulSet
  | service
  | podDisruptionBudget
  | deployment
  | job
  deriving DecidableEq

/-- The desired part of an object. -/
abbrev Spec : Kind → Type
  | .postgresCluster => PostgresClusterSpec
  | .postgresUser => PostgresUserSpec
  | .postgresBackup => PostgresBackupSpec
  | .serviceAccount => ServiceAccountSpec
  | .secret => SecretSpec
  | .configMap => ConfigMapSpec
  | .statefulSet => StatefulSetSpec
  | .service => ServiceSpec
  | .podDisruptionBudget => PodDisruptionBudgetSpec
  | .deployment => DeploymentSpec
  | .job => JobSpec

/-- The status of an object; kinds whose status the operator never reads carry only
unmanaged fields. -/
abbrev Status : Kind → Type
  | .postgresCluster => PostgresClusterStatus
  | .postgresUser => PostgresUserStatus
  | .postgresBackup => PostgresBackupStatus
  | .statefulSet => StatefulSetStatus
  | .job => JobStatus
  | _ => Fields

instance (k : Kind) : DecidableEq (Spec k) :=
  match k with
  | .postgresCluster => inferInstanceAs (DecidableEq PostgresClusterSpec)
  | .postgresUser => inferInstanceAs (DecidableEq PostgresUserSpec)
  | .postgresBackup => inferInstanceAs (DecidableEq PostgresBackupSpec)
  | .serviceAccount => inferInstanceAs (DecidableEq ServiceAccountSpec)
  | .secret => inferInstanceAs (DecidableEq SecretSpec)
  | .configMap => inferInstanceAs (DecidableEq ConfigMapSpec)
  | .statefulSet => inferInstanceAs (DecidableEq StatefulSetSpec)
  | .service => inferInstanceAs (DecidableEq ServiceSpec)
  | .podDisruptionBudget => inferInstanceAs (DecidableEq PodDisruptionBudgetSpec)
  | .deployment => inferInstanceAs (DecidableEq DeploymentSpec)
  | .job => inferInstanceAs (DecidableEq JobSpec)

instance (k : Kind) : DecidableEq (Status k) :=
  match k with
  | .postgresCluster => inferInstanceAs (DecidableEq PostgresClusterStatus)
  | .postgresUser => inferInstanceAs (DecidableEq PostgresUserStatus)
  | .postgresBackup => inferInstanceAs (DecidableEq PostgresBackupStatus)
  | .statefulSet => inferInstanceAs (DecidableEq StatefulSetStatus)
  | .job => inferInstanceAs (DecidableEq JobStatus)
  | .serviceAccount | .secret | .configMap | .service | .podDisruptionBudget | .deployment =>
    inferInstanceAs (DecidableEq Fields)

/-- The status of an object nobody has reported on yet. -/
def Status.zero : (k : Kind) → Status k
  | .postgresCluster => {}
  | .postgresUser => {}
  | .postgresBackup => {}
  | .statefulSet => {}
  | .job => {}
  | .serviceAccount | .secret | .configMap | .service | .podDisruptionBudget | .deployment =>
    ([] : Fields)

/-- An API object of kind `k`. -/
structure Object (k : Kind) where
  metadata : ObjectMeta
  spec : Spec k
  status : Status k
  deriving DecidableEq

/-- The key an object is stored under. -/
def Object.key {k : Kind} (o : Object k) : NamespacedName := o.metadata.key

/-- Clusters, with their status. -/
abbrev PostgresCluster := Object .postgresCluster

/-- Users of clusters, with their status. -/
abbrev PostgresUser := Object .postgresUser

/-- Backups of clusters, with their status. -/
abbrev PostgresBackup := Object .postgresBackup

/-- ServiceAccounts. -/
abbrev ServiceAccount := Object .serviceAccount

/-- Secrets. -/
abbrev Secret := Object .secret

/-- ConfigMaps. -/
abbrev ConfigMap := Object .configMap

/-- StatefulSets. -/
abbrev StatefulSet := Object .statefulSet

/-- Services. -/
abbrev Service := Object .service

/-- PodDisruptionBudgets. -/
abbrev PodDisruptionBudget := Object .podDisruptionBudget

/-- Deployments. -/
abbrev Deployment := Object .deployment

/-- Jobs. -/
abbrev Job := Object .job

end Athos.Kube
