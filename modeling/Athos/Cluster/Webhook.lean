import Athos.Kube.Object
import Athos.Schedule.Cronexpr

/-!
# Admission of clusters

`src/api/v1alpha1/postgrescluster_webhook.go`: the defaulting and the validating webhook. A
validation error lists the rejected fields; how the API machinery prints the list is left out.
-/

namespace Athos.Cluster

open Base Kube Api

/-- The value a `field.Error` reports. -/
inductive BadValue where
  | int (value : Int)
  | string (value : GoString)
  | quantity (value : Quantity)
  deriving DecidableEq

/-- A `field.Error` of type invalid. -/
structure FieldError where
  field : List GoString
  value : BadValue
  detail : GoString
  deriving DecidableEq

/-- `Default`; `postgrescluster_webhook.go:48-84`. -/
def setDefaults (cluster : PostgresCluster) : PostgresCluster :=
  let s := cluster.spec
  let monitoring := s.monitoring.getD { enabled := true, port := 9187 }
  { cluster with spec := { s with
    postgresVersion := if s.postgresVersion = 0 then 16 else s.postgresVersion
    instances := if s.instances = 0 then 1 else s.instances
    storage := { s.storage with
      size := if s.storage.size.nano = 0 then Quantity.ofBinary 10 30 else s.storage.size
      accessModes := if s.storage.accessModes = [] then [lit "ReadWriteOnce"]
        else s.storage.accessModes }
    backup := s.backup.map fun b =>
      if b.retentionPolicy = [] then { b with retentionPolicy := lit "7d" } else b
    monitoring := some (if monitoring.port = 0 then { monitoring with port := 9187 }
      else monitoring)
    tls := some (s.tls.getD { enabled := true }) } }

/-- `validateVersion`; `postgrescluster_webhook.go:124-135`. -/
def validateVersionField (cluster : PostgresCluster) : List FieldError :=
  let v := cluster.spec.postgresVersion
  if v < 14 ∨ 17 < v then
    [⟨[lit "spec", lit "postgresVersion"], .int v, lit "must be between 14 and 17 inclusive"⟩]
  else []

/-- `validateInstances`; `postgrescluster_webhook.go:140-159`. -/
def validateInstances (cluster : PostgresCluster) : List FieldError :=
  let n := cluster.spec.instances
  if n < 1 ∨ 10 < n then
    [⟨[lit "spec", lit "instances"], .int n, lit "must be between 1 and 10"⟩]
  else if 1 < n ∧ n % 2 = 0 then
    [⟨[lit "spec", lit "instances"], .int n,
      lit "must be 1 or an odd number greater than 1 to ensure proper quorum"⟩]
  else []

/-- `validateStorage`; `postgrescluster_webhook.go:162-172`. -/
def validateStorage (cluster : PostgresCluster) : List FieldError :=
  if cluster.spec.storage.size.nano ≤ 0 then
    [⟨[lit "spec", lit "storage", lit "size"], .quantity cluster.spec.storage.size,
      lit "must be a positive quantity"⟩]
  else []

variable (T : RuneTables)

/-- `validateBackup`; `postgrescluster_webhook.go:175-191`. -/
def validateBackup (cluster : PostgresCluster) : List FieldError :=
  match cluster.spec.backup with
  | none => []
  | some b =>
    if b.enabled ∧ b.schedule ≠ [] then
      match Schedule.validate T b.schedule with
      | .error e => [⟨[lit "spec", lit "backup", lit "schedule"], .string b.schedule, e⟩]
      | .ok _ => []
    else []

/-- `validate`; `postgrescluster_webhook.go:109-121`. -/
def validate (cluster : PostgresCluster) : List FieldError :=
  validateVersionField cluster ++ validateInstances cluster ++ validateStorage cluster ++
    validateBackup T cluster

/-- `ValidateCreate`; `postgrescluster_webhook.go:91-94`. -/
def validateCreate (cluster : PostgresCluster) : List FieldError := validate T cluster

/-- `ValidateUpdate`; `postgrescluster_webhook.go:97-100`. The old object is not looked at. -/
def validateUpdate (cluster _old : PostgresCluster) : List FieldError := validate T cluster

variable {T}

/-- A cluster without errors has a supported version. -/
theorem version_of_validate {cluster : PostgresCluster} (h : validate T cluster = []) :
    14 ≤ cluster.spec.postgresVersion ∧ cluster.spec.postgresVersion ≤ 17 := by
  simp only [validate, List.append_eq_nil_iff] at h
  have hv := h.1.1.1
  simp only [validateVersionField] at hv
  split at hv
  · cases hv
  · omega

end Athos.Cluster
