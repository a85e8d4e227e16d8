import Athos.Kube.NetworkPolicy
import Athos.Operator.Routing

/-!
# The network policies of a cluster

`src/internal/network/network.go`. Both policies mean to let in the pods of the namespace. Their
peers have an empty namespace selector, which every namespace matches, and the port of the pooler's
policy is not the one the pooler listens on.
-/

namespace Athos.Network

open Base Kube Api Postgres Operator List

/-- `postgresPort`; `network.go:32`. -/
def postgresPort : Int := 5432

/-- `pgBouncerPort`; `network.go:33`. -/
def pgBouncerPort : Int := 6432

/-- `PolicyName`; `network.go:38-40`. -/
def policyName (clusterName : GoString) : GoString := clusterName ++ lit "-netpol"

/-- A peer with two empty selectors. -/
def anyPeer : NetworkPolicyPeer where
  podSelector := some ⟨∅⟩
  namespaceSelector := some ⟨∅⟩

/-- `ClusterNetworkPolicy`; `network.go:51-94`. -/
def clusterNetworkPolicy (cluster : PostgresCluster) : NetworkPolicy where
  metadata :=
    { name := policyName cluster.metadata.name
      namespace_ := cluster.metadata.namespace_
      labels := commonLabels cluster }
  podSelector := ⟨selectorLabels cluster⟩
  policyTypes := [.ingress]
  ingress :=
    [{ ports := [{ port := some postgresPort, protocol := some .tcp }]
       from_ := [anyPeer] },
      { from_ := [{ podSelector := some ⟨selectorLabels cluster⟩ }] }]

/-- `PoolerNetworkPolicy`; `network.go:98-133`. -/
def poolerNetworkPolicy (cluster : PostgresCluster) : NetworkPolicy where
  metadata :=
    { name := cluster.metadata.name ++ lit "-pooler-netpol"
      namespace_ := cluster.metadata.namespace_
      labels := commonLabels cluster }
  podSelector := ⟨mapOf [(lit "app.kubernetes.io/component", lit "pooler"),
    (lit "pg.athos.io/cluster", cluster.metadata.name)]⟩
  policyTypes := [.ingress]
  ingress :=
    [{ ports := [{ port := some pgBouncerPort, protocol := some .tcp }]
       from_ := [anyPeer] }]

/-- A pod as policies see it. -/
def party (p : Pod) : Party := ⟨p.namespace_, p.labels⟩

/-- The ports of the containers of the pooler. -/
def poolerPorts (cluster : PostgresCluster) : List ContainerPort :=
  (Pooler.desiredDeployment cluster).spec.template.spec.containers.flatMap (·.ports)

section Admission

variable {cluster : PostgresCluster} {namespaceLabels : GoString → StringMap} {source : Party}

private theorem anyPeer_includes (policyNamespace : GoString) :
    anyPeer.includes namespaceLabels policyNamespace source = true := rfl

private theorem poolerNetworkPolicy_selects (name : GoString) :
    (poolerNetworkPolicy cluster).selects (party (poolerPod cluster name)) = true := by
  have hd : [lit "app.kubernetes.io/component", lit "pg.athos.io/cluster"].Nodup := by decide
  have hmatches : (poolerNetworkPolicy cluster).podSelector.matchLabels.matches
      (party (poolerPod cluster name)).labels = true := by
    apply (matches_mapOf ?_).2
    · intro p hp
      exact (getElem?_mapOf (by exact hd)).2 hp
    · exact hd
  rw [NetworkPolicy.selects, hmatches, Bool.and_true, Bool.and_eq_true, beq_iff_eq]
  exact ⟨rfl, rfl⟩

private theorem poolerNetworkPolicy_admits {name : GoString} {port : ContainerPort}
    (hport : port ∈ poolerPorts cluster) :
    (poolerNetworkPolicy cluster).admits namespaceLabels (party (poolerPod cluster name)) source
      port.protocol port.containerPort = false := by
  obtain rfl := mem_singleton.1 hport
  rw [NetworkPolicy.admits, poolerNetworkPolicy_selects]
  rfl

private theorem clusterNetworkPolicy_selects {q : Pod} (hq : q ∈ databasePods cluster) :
    (clusterNetworkPolicy cluster).selects (party q) = true := by
  obtain ⟨hns, -, hname, hinstance, hcluster⟩ := mem_databasePods hq
  have hmatches : (selectorLabels cluster).matches q.labels = true :=
    matches_selectorLabels.2 ⟨hname, hinstance, hcluster⟩
  simp only [NetworkPolicy.selects, clusterNetworkPolicy, party, hns, hmatches]
  simp

private theorem clusterNetworkPolicy_admits (q : Pod) :
    (clusterNetworkPolicy cluster).admits namespaceLabels (party q) source .tcp postgresPort =
      true := by
  rw [NetworkPolicy.admits, Bool.or_eq_true]
  right
  rw [any_eq_true]
  refine ⟨_, mem_cons_self, ?_⟩
  rw [NetworkPolicyIngressRule.admits, Bool.and_eq_true, Bool.or_eq_true, Bool.or_eq_true]
  exact ⟨.inr rfl, .inr (by rw [any_cons, anyPeer_includes, Bool.true_or])⟩

end Admission

/-- The policies isolate the namespace from no source: the pooler's one lets nobody in, so it is
right about the pods of other namespaces only; the cluster's one lets everybody in, so it is
right about the pods of the namespace only. -/
theorem isolation_iff (cluster : PostgresCluster) (namespaceLabels : GoString → StringMap)
    (source : Party) :
    (∀ name, ∀ port ∈ poolerPorts cluster,
      ((poolerNetworkPolicy cluster).admits namespaceLabels (party (poolerPod cluster name)) source
          port.protocol port.containerPort = true ↔
        source.namespace_ = cluster.metadata.namespace_) ↔
      source.namespace_ ≠ cluster.metadata.namespace_) ∧
    ∀ q ∈ databasePods cluster,
      (clusterNetworkPolicy cluster).selects (party q) = true ∧
      ((source.namespace_ ≠ cluster.metadata.namespace_ →
        (clusterNetworkPolicy cluster).admits namespaceLabels (party q) source .tcp 5432 = false) ↔
        source.namespace_ = cluster.metadata.namespace_) := by
  constructor
  · intro name port hport
    rw [poolerNetworkPolicy_admits hport]
    simp
  · intro q hq
    refine ⟨clusterNetworkPolicy_selects hq, ?_⟩
    have hadmits : (clusterNetworkPolicy cluster).admits namespaceLabels (party q) source .tcp
        5432 = true := clusterNetworkPolicy_admits q
    rw [hadmits]
    constructor
    · intro h
      by_contra hne
      cases h hne
    · intro heq hne
      exact absurd heq hne

/-- A pod without labels in another namespace, and one in the namespace of the cluster. -/
theorem isolation_violated :
    (∃ port ∈ poolerPorts Cluster.sampleCluster,
      (poolerNetworkPolicy Cluster.sampleCluster).admits (fun _ => ∅)
        (party (poolerPod Cluster.sampleCluster (lit "db-pooler-0"))) ⟨lit "default", ∅⟩
        port.protocol port.containerPort = false) ∧
    ∃ q ∈ databasePods Cluster.sampleCluster,
      (clusterNetworkPolicy Cluster.sampleCluster).admits (fun _ => ∅) (party q)
        ⟨lit "other", ∅⟩ .tcp 5432 = true := by
  refine ⟨⟨_, mem_cons_self, poolerNetworkPolicy_admits mem_cons_self⟩, ?_⟩
  exact ⟨_, mem_cons_self, clusterNetworkPolicy_admits _⟩

end Athos.Network
