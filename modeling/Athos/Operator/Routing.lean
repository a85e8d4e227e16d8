import Athos.Cluster.Convergence
import Athos.Pooler.Steps

/-!
# Which pods the selectors reach

The Services and the PodDisruptionBudget of a cluster against the pods that its StatefulSet, its
pooler and its backups run. All pods of the StatefulSet carry the labels of one template, with the
role of a primary.
-/

namespace Athos.Operator

open Base Kube Api Postgres List Option

/-- A pod as selectors see it. -/
structure Pod where
  namespace_ : GoString
  name : GoString
  labels : StringMap
  deriving DecidableEq

/-- The pods of a StatefulSet: one per ordinal, with the labels of the template. -/
def statefulSetPods (sts : StatefulSet) : List Pod :=
  (List.range (sts.spec.replicas.getD 1).toNat).map fun i =>
    ⟨sts.metadata.namespace_, sts.metadata.name ++ lit "-" ++ decimalNat i,
      sts.spec.template.labels⟩

/-- A pod of a Deployment or a Job, whose name the respective controller chooses. -/
def templatePod (metadata : ObjectMeta) (template : PodTemplateSpec) (name : GoString) : Pod :=
  ⟨metadata.namespace_, name, template.labels⟩

/-- The database pods of a cluster. -/
def databasePods (c : PostgresCluster) : List Pod := statefulSetPods (buildStatefulSet c)

/-- A pod of the pooler of a cluster. -/
def poolerPod (c : PostgresCluster) (name : GoString) : Pod :=
  templatePod (Pooler.desiredDeployment c).metadata (Pooler.desiredDeployment c).spec.template name

/-- A pod of the Job of a backup. -/
def backupPod (backup : PostgresBackup) (c : PostgresCluster) (name : GoString) : Pod :=
  templatePod (buildBackupJob backup c).metadata (buildBackupJob backup c).spec.template name

/-- A Service reaches the pods of its namespace that its selector matches. -/
def serviceSelects (svc : Service) (p : Pod) : Bool :=
  svc.metadata.namespace_ == p.namespace_ && svc.spec.selector.matches p.labels

/-- So does a PodDisruptionBudget; without a selector it reaches none. -/
def budgetSelects (pdb : PodDisruptionBudget) (p : Pod) : Bool :=
  pdb.metadata.namespace_ == p.namespace_ &&
    pdb.spec.selector.any (·.matchLabels.matches p.labels)

/-- Write traffic reaches one pod, read traffic exactly the others. -/
def Divided (c : PostgresCluster) : Prop :=
  ∃ p ∈ databasePods c, ∀ q ∈ databasePods c,
    (serviceSelects (buildPrimaryService c) q = true ↔ q = p) ∧
      (serviceSelects (buildReplicaService c) q = true ↔ q ≠ p)

/-- The headless Service and the budget reach every database pod. -/
def Covered (c : PostgresCluster) : Prop :=
  ∀ q ∈ databasePods c,
    serviceSelects (buildHeadlessService c) q = true ∧ budgetSelects (Cluster.desiredPdb c) q = true

/-- The selections of a cluster. -/
def selections (c : PostgresCluster) : List (Pod → Bool) :=
  [serviceSelects (buildPrimaryService c), serviceSelects (buildReplicaService c),
    serviceSelects (buildHeadlessService c), budgetSelects (Cluster.desiredPdb c)]

/-- None reaches a database pod of another cluster, or a pooler or backup pod of any. -/
def Isolated (c : PostgresCluster) : Prop :=
  ∀ selects ∈ selections c,
    (∀ c', c'.key ≠ c.key → ∀ q ∈ databasePods c', selects q = false) ∧
      (∀ c' name, selects (poolerPod c' name) = false) ∧
      ∀ backup c' name, selects (backupPod backup c' name) = false

/-- Traffic is routed as the Services are meant. -/
structure Routed (c : PostgresCluster) : Prop where
  divided : Divided c
  covered : Covered c
  isolated : Isolated c

section

variable {c : PostgresCluster} {p q : Pod}

/-- The labels of a database pod: the common ones and the role. -/
theorem mem_databasePods (hp : p ∈ databasePods c) :
    p.namespace_ = c.metadata.namespace_ ∧ p.labels[labelRole]? = some rolePrimary ∧
      p.labels[labelName]? = some operatorName ∧ p.labels[labelInstance]? = some c.metadata.name ∧
      p.labels[labelCluster]? = some c.metadata.name := by
  obtain ⟨i, -, rfl⟩ := List.mem_map.1 hp
  have hd : ([(labelRole, rolePrimary)].map Prod.fst).Nodup := by decide
  have hrole : (mapOf [(labelRole, rolePrimary)])[labelRole]? = some rolePrimary :=
    (getElem?_mapOf hd).2 (by simp)
  have hother : ∀ {k v}, labelRole ≠ k → (commonLabels c)[k]? = some v →
      (mergeLabels (commonLabels c) (mapOf [(labelRole, rolePrimary)]))[k]? = some v := by
    intro k v hk hv
    have hnone : (mapOf [(labelRole, rolePrimary)])[k]? = none := by
      rw [eq_none_iff_forall_ne_some]
      intro v' hv'
      have := (getElem?_mapOf hd).1 hv'
      simp only [mem_singleton, Prod.mk.injEq] at this
      exact hk this.1.symm
    rw [mergeLabels, getElem?_mergeMaps, hnone, none_or]
    exact hv
  refine ⟨rfl, ?_, hother (by decide) ?_, hother (by decide) ?_, hother (by decide) ?_⟩
  · show (mergeLabels _ _)[labelRole]? = _
    rw [mergeLabels, getElem?_mergeMaps, hrole]
    rfl
  · exact (getElem?_commonLabels c).2 (by simp)
  · exact (getElem?_commonLabels c).2 (by simp)
  · exact (getElem?_commonLabels c).2 (by simp)

private theorem serviceSelects_role {name role : GoString} :
    serviceSelects (buildRoleService c name role) q = true ↔
      c.metadata.namespace_ = q.namespace_ ∧ q.labels[labelCluster]? = some c.metadata.name ∧
        q.labels[labelRole]? = some role := by
  have hd : [labelCluster, labelRole].Nodup := by decide
  have hm : (mapOf [(labelCluster, c.metadata.name), (labelRole, role)]).matches q.labels = true ↔
      q.labels[labelCluster]? = some c.metadata.name ∧ q.labels[labelRole]? = some role :=
    Iff.trans (matches_mapOf hd) (by simp)
  simp only [serviceSelects, buildRoleService, Bool.and_eq_true, beq_iff_eq, hm]

/-- The labels that the selector of a cluster asks for. -/
theorem matches_selectorLabels : (selectorLabels c).matches q.labels = true ↔
    q.labels[labelName]? = some operatorName ∧ q.labels[labelInstance]? = some c.metadata.name ∧
      q.labels[labelCluster]? = some c.metadata.name := by
  have hd : [labelName, labelInstance, labelCluster].Nodup := by decide
  exact Iff.trans (matches_mapOf hd) (by simp)

private theorem serviceSelects_headless : serviceSelects (buildHeadlessService c) q = true ↔
    c.metadata.namespace_ = q.namespace_ ∧ (selectorLabels c).matches q.labels = true := by
  simp only [serviceSelects, buildHeadlessService, Bool.and_eq_true, beq_iff_eq]

private theorem budgetSelects_desiredPdb : budgetSelects (Cluster.desiredPdb c) q = true ↔
    c.metadata.namespace_ = q.namespace_ ∧ (selectorLabels c).matches q.labels = true := by
  have hsel : (Cluster.desiredPdb c).spec.selector = some ⟨selectorLabels c⟩ := by
    rw [Cluster.desiredPdb, buildPdb, recommendedFor]
    split_ifs <;> rfl
  rw [budgetSelects, hsel, Cluster.desiredPdb_metadata]
  simp only [any_some, Bool.and_eq_true, beq_iff_eq]

private theorem of_selects {selects : Pod → Bool} (hs : selects ∈ selections c)
    (h : selects q = true) :
    c.metadata.namespace_ = q.namespace_ ∧ q.labels[labelCluster]? = some c.metadata.name ∧
      (q.labels[labelRole]?.isSome ∨ q.labels[labelInstance]?.isSome) := by
  simp only [selections, mem_cons, not_mem_nil, or_false] at hs
  rcases hs with rfl | rfl | rfl | rfl
  · obtain ⟨hns, hc, hr⟩ := serviceSelects_role.1 h
    exact ⟨hns, hc, .inl (by rw [hr]; rfl)⟩
  · obtain ⟨hns, hc, hr⟩ := serviceSelects_role.1 h
    exact ⟨hns, hc, .inl (by rw [hr]; rfl)⟩
  · obtain ⟨hns, hm⟩ := serviceSelects_headless.1 h
    obtain ⟨-, hi, hc⟩ := matches_selectorLabels.1 hm
    exact ⟨hns, hc, .inr (by rw [hi]; rfl)⟩
  · obtain ⟨hns, hm⟩ := budgetSelects_desiredPdb.1 h
    obtain ⟨-, hi, hc⟩ := matches_selectorLabels.1 hm
    exact ⟨hns, hc, .inr (by rw [hi]; rfl)⟩

private theorem not_isSome_mapOf {l : List (GoString × GoString)} {k : GoString}
    (hd : (l.map Prod.fst).Nodup) (hk : k ∉ l.map Prod.fst) : ¬ (mapOf l)[k]?.isSome := by
  intro h
  obtain ⟨v, hv⟩ := isSome_iff_exists.1 h
  exact hk (List.mem_map.2 ⟨(k, v), (getElem?_mapOf hd).1 hv, rfl⟩)

private theorem not_selects (ks : List GoString) {selects : Pod → Bool}
    (hs : selects ∈ selections c) {l : List (GoString × GoString)} (hq : q.labels = mapOf l)
    (hks : l.map Prod.fst = ks) (hd : ks.Nodup) (hrole : labelRole ∉ ks)
    (hinst : labelInstance ∉ ks) : selects q = false := by
  rw [← Bool.not_eq_true]
  intro h
  subst hks
  rcases (of_selects hs h).2.2 with hr | hi
  · rw [hq] at hr
    exact not_isSome_mapOf hd hrole hr
  · rw [hq] at hi
    exact not_isSome_mapOf hd hinst hi

private theorem isolated (c : PostgresCluster) : Isolated c := by
  intro selects hs
  refine ⟨?_, ?_, ?_⟩
  · intro c' hne q hq
    rw [← Bool.not_eq_true]
    intro h
    obtain ⟨hns, hc, -⟩ := of_selects hs h
    obtain ⟨hns', -, -, -, hc'⟩ := mem_databasePods hq
    have hname : c'.metadata.name = c.metadata.name := some.inj (hc'.symm.trans hc)
    refine hne ?_
    show (⟨c'.metadata.namespace_, c'.metadata.name⟩ : NamespacedName) =
      ⟨c.metadata.namespace_, c.metadata.name⟩
    rw [hname, hns, hns']
  · intro c' name
    exact not_selects [lit "app.kubernetes.io/component", lit "pg.athos.io/cluster"] hs rfl rfl
      (by decide) (by decide) (by decide)
  · intro backup c' name
    exact not_selects [labelCluster, labelManagedBy, lit "pg.athos.io/backup"] hs rfl rfl
      (by decide) (by decide) (by decide)

/-- Services select the pods of their cluster. -/
theorem covered (c : PostgresCluster) : Covered c := by
  intro q hq
  obtain ⟨hns, -, hname, hinst, hc⟩ := mem_databasePods hq
  have hm : (selectorLabels c).matches q.labels = true :=
    matches_selectorLabels.2 ⟨hname, hinst, hc⟩
  exact ⟨serviceSelects_headless.2 ⟨hns.symm, hm⟩, budgetSelects_desiredPdb.2 ⟨hns.symm, hm⟩⟩

private theorem primary_selects (hq : q ∈ databasePods c) :
    serviceSelects (buildPrimaryService c) q = true := by
  obtain ⟨hns, hrole, -, -, hc⟩ := mem_databasePods hq
  exact serviceSelects_role.2 ⟨hns.symm, hc, hrole⟩

private theorem replica_selects (hq : q ∈ databasePods c) :
    ¬ serviceSelects (buildReplicaService c) q = true := by
  obtain ⟨-, hrole, -⟩ := mem_databasePods hq
  intro h
  obtain ⟨-, -, hr⟩ := serviceSelects_role.1 h
  rw [hrole, some.injEq] at hr
  exact absurd hr (by decide)

private theorem exists_ne_of_two_le (h : 2 ≤ c.spec.instances) :
    ∃ p ∈ databasePods c, ∃ q ∈ databasePods c, p ≠ q := by
  have hmem : ∀ i : Nat, i < c.spec.instances.toNat →
      (⟨c.metadata.namespace_, c.metadata.name ++ lit "-" ++ decimalNat i,
        (buildStatefulSet c).spec.template.labels⟩ : Pod) ∈ databasePods c :=
    fun i hi => List.mem_map.2 ⟨i, mem_range.2 hi, rfl⟩
  refine ⟨_, hmem 0 (by omega), _, hmem 1 (by omega), ?_⟩
  intro he
  have hname := append_cancel_left (congrArg Pod.name he)
  exact absurd hname (by decide)

private theorem divided_iff (h : 1 ≤ c.spec.instances) : Divided c ↔ c.spec.instances = 1 := by
  constructor
  · rintro ⟨p, -, hp⟩
    by_contra hne
    obtain ⟨q₀, h₀, q₁, h₁, hq⟩ := exists_ne_of_two_le (c := c) (by omega)
    have hall : ∀ q ∈ databasePods c, q = p := fun q hq => (hp q hq).1.1 (primary_selects hq)
    exact hq ((hall q₀ h₀).trans (hall q₁ h₁).symm)
  · intro hone
    obtain ⟨p, hp⟩ : ∃ p, databasePods c = [p] := by
      simp only [databasePods, statefulSetPods, buildStatefulSet, getD_some, hone]
      exact ⟨_, rfl⟩
    have hmem : p ∈ databasePods c := by
      rw [hp]
      exact mem_cons_self
    refine ⟨p, hmem, fun q hq => ?_⟩
    have hqp : q = p := by
      rw [hp] at hq
      exact mem_singleton.1 hq
    constructor
    · exact iff_of_true (primary_selects hq) hqp
    · exact iff_of_false (replica_selects hq) fun hne => hne hqp

end

/-- For a cluster with at least one instance, traffic is routed as meant if and only if it has
just one. -/
theorem routed_iff (c : PostgresCluster) (h : 1 ≤ c.spec.instances) :
    Routed c ↔ c.spec.instances = 1 := by
  constructor
  · intro hr
    exact (divided_iff h).1 hr.divided
  · intro hone
    exact ⟨(divided_iff h).2 hone, covered c, isolated c⟩

/-- A cluster with one instance. -/
def sampleSingle : PostgresCluster :=
  { Cluster.sampleCluster with spec := { Cluster.sampleCluster.spec with instances := 1 } }

/-- A cluster with one instance. -/
theorem routed_sampleSingle : 1 ≤ sampleSingle.spec.instances ∧ Routed sampleSingle :=
  ⟨by decide, (routed_iff sampleSingle (by decide)).2 rfl⟩

/-- With three instances the primary Service reaches three pods, the replica Service none. -/
theorem not_routed_sampleCluster :
    Cluster.sampleCluster.spec.instances = 3 ∧
      (databasePods Cluster.sampleCluster).map
        (serviceSelects (buildPrimaryService Cluster.sampleCluster)) = [true, true, true] ∧
      (databasePods Cluster.sampleCluster).map
        (serviceSelects (buildReplicaService Cluster.sampleCluster)) = [false, false, false] ∧
      ¬ Routed Cluster.sampleCluster := by
  refine ⟨rfl, by decide +kernel, by decide +kernel, fun h => ?_⟩
  exact absurd ((divided_iff (by decide)).1 h.divided) (by decide)

end Athos.Operator
