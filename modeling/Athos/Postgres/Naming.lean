import Athos.Kube.Object

/-!
# Names, labels and images

`src/internal/postgres/naming.go`, `labels.go` and `version.go`.
-/

namespace Athos.Postgres

open Base Kube Std.ExtTreeMap

/-- `ClusterStatefulSetName`; `naming.go:26-28`. -/
def clusterStatefulSetName (cluster : PostgresCluster) : GoString := cluster.metadata.name

/-- `PrimaryServiceName`; `naming.go:32-34`. -/
def primaryServiceName (cluster : PostgresCluster) : GoString :=
  cluster.metadata.name ++ lit "-primary"

/-- `ReplicaServiceName`; `naming.go:38-40`. -/
def replicaServiceName (cluster : PostgresCluster) : GoString :=
  cluster.metadata.name ++ lit "-replicas"

/-- `HeadlessServiceName`; `naming.go:44-46`. -/
def headlessServiceName (cluster : PostgresCluster) : GoString :=
  cluster.metadata.name ++ lit "-pods"

/-- `ConfigMapName`; `naming.go:50-52`. -/
def configMapName (cluster : PostgresCluster) : GoString :=
  cluster.metadata.name ++ lit "-config"

/-- `SecretName`; `naming.go:56-58`. -/
def secretName (cluster : PostgresCluster) : GoString :=
  cluster.metadata.name ++ lit "-credentials"

/-- `ServiceAccountName`; `naming.go:62-67`. -/
def serviceAccountName (cluster : PostgresCluster) : GoString :=
  if cluster.spec.serviceAccountName ≠ [] then cluster.spec.serviceAccountName
  else cluster.metadata.name ++ lit "-sa"

/-- `BackupJobName`; `naming.go:70-72`. -/
def backupJobName (backup : PostgresBackup) : GoString := backup.metadata.name ++ lit "-backup"

/-- `PodName`; `naming.go:75-77`. -/
def podName (cluster : PostgresCluster) (n : Int) : GoString :=
  cluster.metadata.name ++ lit "-" ++ decimal n

/-- `PodFQDN`; `naming.go:80-86`. -/
def podFQDN (cluster : PostgresCluster) (n : Int) : GoString :=
  podName cluster n ++ lit "." ++ headlessServiceName cluster ++ lit "." ++
    cluster.metadata.namespace_ ++ lit ".svc.cluster.local"

/-- `LabelCluster`; `labels.go:27`. -/
def labelCluster : GoString := lit "pg.athos.io/cluster"

/-- `LabelRole`; `labels.go:29`. -/
def labelRole : GoString := lit "pg.athos.io/role"

/-- `LabelManagedBy`; `labels.go:31`. -/
def labelManagedBy : GoString := lit "app.kubernetes.io/managed-by"

/-- `LabelComponent`; `labels.go:33`. -/
def labelComponent : GoString := lit "app.kubernetes.io/component"

/-- `LabelName`; `labels.go:35`. -/
def labelName : GoString := lit "app.kubernetes.io/name"

/-- `LabelInstance`; `labels.go:37`. -/
def labelInstance : GoString := lit "app.kubernetes.io/instance"

/-- `LabelVersion`; `labels.go:39`. -/
def labelVersion : GoString := lit "pg.athos.io/postgres-version"

/-- `RolePrimary`; `labels.go:42`. -/
def rolePrimary : GoString := lit "primary"

/-- `RoleReplica`; `labels.go:44`. -/
def roleReplica : GoString := lit "replica"

/-- `OperatorName`; `labels.go:47`. -/
def operatorName : GoString := lit "athos"

/-- `CommonLabels`; `labels.go:53-62`. -/
def commonLabels (cluster : PostgresCluster) : StringMap :=
  mapOf [(labelName, operatorName), (labelInstance, cluster.metadata.name),
    (labelManagedBy, operatorName), (labelComponent, lit "database"),
    (labelCluster, cluster.metadata.name),
    (labelVersion, decimal cluster.spec.postgresVersion)]

/-- `SelectorLabels`; `labels.go:66-72`. -/
def selectorLabels (cluster : PostgresCluster) : StringMap :=
  mapOf [(labelName, operatorName), (labelInstance, cluster.metadata.name),
    (labelCluster, cluster.metadata.name)]

/-- The entries of the standard labels. -/
theorem getElem?_commonLabels (c : PostgresCluster) {k v : GoString} :
    (commonLabels c)[k]? = some v ↔ (k, v) ∈ [(labelName, operatorName),
      (labelInstance, c.metadata.name), (labelManagedBy, operatorName),
      (labelComponent, lit "database"), (labelCluster, c.metadata.name),
      (labelVersion, decimal c.spec.postgresVersion)] := by
  have hd : [labelName, labelInstance, labelManagedBy, labelComponent, labelCluster,
      labelVersion].Nodup := by decide
  exact getElem?_mapOf hd

/-- The entries of the selector. -/
theorem getElem?_selectorLabels (c : PostgresCluster) {k v : GoString} :
    (selectorLabels c)[k]? = some v ↔ (k, v) ∈ [(labelName, operatorName),
      (labelInstance, c.metadata.name), (labelCluster, c.metadata.name)] := by
  have hd : [labelName, labelInstance, labelCluster].Nodup := by decide
  exact getElem?_mapOf hd

/-- Copy one map, then the other over it. -/
def mergeMaps (base overlay : StringMap) : StringMap := base.insertMany overlay.toList

/-- Lookups prefer the overlay. -/
theorem getElem?_mergeMaps (base overlay : StringMap) (k : GoString) :
    (mergeMaps base overlay)[k]? = overlay[k]?.or base[k]? := by
  cases h : overlay[k]? with
  | some v =>
    have hmem : (k, v) ∈ overlay.toList := mem_toList_iff_getElem?_eq_some.2 h
    exact getElem?_insertMany_list_of_mem Std.ReflCmp.compare_self
      distinct_keys_toList hmem
  | none =>
    refine getElem?_insertMany_list_of_contains_eq_false ?_
    rw [List.contains_eq_mem, decide_eq_false_iff_not, List.mem_map]
    rintro ⟨⟨k', v⟩, hmem, rfl⟩
    rw [mem_toList_iff_getElem?_eq_some, h] at hmem
    cases hmem

/-- `MergeLabels`; `labels.go:93-102`. -/
def mergeLabels (base overlay : StringMap) : StringMap := mergeMaps base overlay

/-- `defaultImageRepo`; `version.go:23`. -/
def defaultImageRepo : GoString := lit "docker.io/library/postgres"

/-- `exporterImageRepo`; `version.go:26`. -/
def exporterImageRepo : GoString := lit "quay.io/prometheuscommunity/postgres-exporter"

/-- `defaultExporterTag`; `version.go:29`. -/
def defaultExporterTag : GoString := lit "v0.15.0"

/-- `PostgresImageTag`; `version.go:34-47`. -/
def postgresImageTag (version : Int) : GoString :=
  if version = 14 then defaultImageRepo ++ lit ":14-alpine"
  else if version = 15 then defaultImageRepo ++ lit ":15-alpine"
  else if version = 16 then defaultImageRepo ++ lit ":16-alpine"
  else if version = 17 then defaultImageRepo ++ lit ":17-alpine"
  else defaultImageRepo ++ lit ":" ++ decimal version ++ lit "-alpine"

/-- `ExporterImageTag`; `version.go:51-53`. -/
def exporterImageTag : GoString := exporterImageRepo ++ lit ":" ++ defaultExporterTag

private theorem postgresImageTag_eq (version : Int) :
    postgresImageTag version = defaultImageRepo ++ lit ":" ++ decimal version ++ lit "-alpine" := by
  unfold postgresImageTag
  split
  · next h => subst h; decide
  · split
    · next h => subst h; decide
    · split
      · next h => subst h; decide
      · split
        · next h => subst h; decide
        · rfl

/-- An image names one major version. -/
theorem postgresImageTag_injective {v w : Int} (h : postgresImageTag v = postgresImageTag w) :
    v = w := by
  rw [postgresImageTag_eq, postgresImageTag_eq] at h
  exact decimal_injective (List.append_cancel_left (List.append_cancel_right h))

end Athos.Postgres
