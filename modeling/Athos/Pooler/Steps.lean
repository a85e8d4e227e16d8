import Athos.Kube.Evolution
import Athos.Pooler.Controller

/-!
# The steps of the pooler controller

The policy of the pooler controller and what a reconcile does to the store: for a cluster that asks
for a pooler it settles three objects, for any other cluster nothing.
-/

namespace Athos.Pooler

open Base Base.Prog Kube Api Postgres

/-- The ConfigMap, Deployment and Service that `Reconcile` asks for. -/
def desiredConfigMap (c : PostgresCluster) : ConfigMap :=
  poolerConfigMap c defaultConfig (primaryServiceName c)

@[inherit_doc desiredConfigMap]
def desiredDeployment (c : PostgresCluster) : Deployment := poolerDeployment c defaultConfig

@[inherit_doc desiredConfigMap]
def desiredService (c : PostgresCluster) : Service := poolerService c defaultConfig

/-- The managed parts of the pooler's objects: the ConfigMap's data, all of the Deployment's
spec, the Service's ports. -/
def managed (c : PostgresCluster) : (k : Kind) → NamespacedName → Option (Spec k → Spec k)
  | .configMap, n =>
    if n = (desiredConfigMap c).key then
      some fun existing => { existing with data := (desiredConfigMap c).spec.data }
    else none
  | .deployment, n =>
    if n = (desiredDeployment c).key then some fun _ => (desiredDeployment c).spec else none
  | .service, n =>
    if n = (desiredService c).key then
      some fun existing => { existing with ports := (desiredService c).spec.ports }
    else none
  | _, _ => none

private theorem managed_idem {c : PostgresCluster} {k : Kind} {n : NamespacedName}
    {m : Spec k → Spec k} (hm : managed c k n = some m) (sp : Spec k) : m (m sp) = m sp := by
  cases k with
  | configMap | deployment | service =>
    rw [managed] at hm
    split_ifs at hm
    cases hm
    rfl
  | postgresCluster | postgresUser | postgresBackup | serviceAccount | secret | statefulSet
  | podDisruptionBudget | job => cases hm

/-- The responsibility of the pooler controller. -/
def policy (c : PostgresCluster) : Policy where
  managed := managed c
  managed_idem := managed_idem
  ensured _ _ := False
  reported _ _ := False

/-- The objects of a pooler. -/
def targets (c : PostgresCluster) : List (Kind × NamespacedName) :=
  [(.configMap, (desiredConfigMap c).key)] ++ ([(.deployment, (desiredDeployment c).key)] ++
    ([(.service, (desiredService c).key)] ++ []))

/-- A cluster whose pooler is reconciled. -/
structure Pooled (c : PostgresCluster) : Prop where
  notPaused : c.spec.paused = false
  notDeleted : c.metadata.deletionTimestamp = none
  requested : poolerRequested c = true

section

variable {A : Ambient → Prop} {c : PostgresCluster}

private theorem secures_poolerObject {j k : Kind} {o : Object k} {what : GoString}
    {manage : Spec k → Spec k → Spec k} (hns : o.metadata.namespace_ = c.metadata.namespace_)
    (hrefs : o.metadata.ownerReferences = []) (hm : managed c k o.key = some (manage o.spec))
    (hfix : manage o.spec o.spec = o.spec) (hk : k ≠ .secret) (hj : j ≠ k) :
    Secures A (policy c) j [(k, o.key)] (reconcilePoolerObject c o what manage) := by
  have hm' : (policy c).managed k (o.controlledBy (Cluster.owner c)).key =
      some (manage o.spec) := hm
  rw [reconcilePoolerObject, setControllerReference_new hns hrefs]
  exact secures_createOrUpdate hm' hfix hk hj (keeps_return A) fun _ => keeps_return A

/-- The step for the ConfigMap secures it. -/
theorem secures_poolerConfigMap (c : PostgresCluster) {j : Kind} (hj : j ≠ .configMap) :
    Secures A (policy c) j [(.configMap, (desiredConfigMap c).key)]
      (reconcilePoolerConfigMap c defaultConfig (primaryServiceName c)) := by
  refine secures_poolerObject (o := desiredConfigMap c) rfl rfl ?_ rfl (by decide) hj
  exact if_pos rfl

/-- The step for the Deployment secures it. -/
theorem secures_poolerDeployment (c : PostgresCluster) {j : Kind} (hj : j ≠ .deployment) :
    Secures A (policy c) j [(.deployment, (desiredDeployment c).key)]
      (reconcilePoolerDeployment c defaultConfig) := by
  refine secures_poolerObject (o := desiredDeployment c) rfl rfl ?_ rfl (by decide) hj
  exact if_pos rfl

private theorem secures_poolerService (c : PostgresCluster) {j : Kind} (hj : j ≠ .service) :
    Secures A (policy c) j [(.service, (desiredService c).key)]
      (reconcilePoolerService c defaultConfig) := by
  refine secures_poolerObject (o := desiredService c) rfl rfl ?_ rfl (by decide) hj
  exact if_pos rfl

private theorem secures_poolerSteps (c : PostgresCluster) :
    Secures A (policy c) .postgresCluster (targets c) (untilError
      [reconcilePoolerConfigMap c defaultConfig (primaryServiceName c),
        reconcilePoolerDeployment c defaultConfig, reconcilePoolerService c defaultConfig]) :=
  (secures_poolerConfigMap c (by decide)).untilError
    ((secures_poolerDeployment c (by decide)).untilError
      ((secures_poolerService c (by decide)).untilError .done))

/-- Without a request for a pooler `Reconcile` only reads the cluster. -/
theorem reconcileFetched_of_not_pooled (h : ¬ Pooled c) :
    reconcileFetched c = return ({}, none) := by
  unfold reconcileFetched
  split
  · rfl
  · next h₁ =>
    split
    · rfl
    · next h₂ =>
      rw [Bool.or_eq_true, not_or, Bool.not_eq_true, Bool.not_eq_true] at h₁
      rw [Bool.not_eq_true, Bool.not_eq_false'] at h₂
      exact absurd ⟨h₁.2, Option.isSome_eq_false_iff.1 h₁.1 |> Option.isNone_iff_eq_none.1, h₂⟩ h

/-- For a cluster that asks for a pooler the three steps are run. -/
theorem reconcileFetched_of_pooled (h : Pooled c) : reconcileFetched c = do
    match ← untilError
      [reconcilePoolerConfigMap c defaultConfig (primaryServiceName c),
        reconcilePoolerDeployment c defaultConfig, reconcilePoolerService c defaultConfig] with
    | .error e => return ({}, some e)
    | .ok _ => return ({}, none) := by
  unfold reconcileFetched
  rw [h.notPaused, h.notDeleted, h.requested]
  rfl

/-- A reconcile of a cluster follows the policy; one that was read and reports no error has
settled the three objects if a pooler is asked for. It reports none when nothing fails. -/
theorem wp_reconcileFetched (w : World) :
    wp (within A) (reconcileFetched c) (fun res w' =>
      Maintains (policy c) .postgresCluster w.objects w'.objects ∧
        (¬ Pooled c → w'.objects = w.objects) ∧
        (Pooled c → res.2 = none → ∀ t ∈ targets c, Settled (policy c) w'.objects t.1 t.2) ∧
        (Smooth A → res.2 = none)) w := by
  by_cases h : Pooled c
  · rw [reconcileFetched_of_pooled h]
    refine wp_bind.2 (wp_mono (within_monotone A) (secures_poolerSteps c w) ?_)
    rintro (e | _) w' ⟨hm, hs, hok⟩
    · exact ⟨hm, fun h' => absurd h h', fun _ he => (nomatch he), fun hA => nomatch hok hA⟩
    · exact ⟨hm, fun h' => absurd h h', fun _ _ => hs rfl, fun _ => rfl⟩
  · rw [reconcileFetched_of_not_pooled h]
    exact ⟨.refl _ _ _, fun _ => rfl, fun h' => absurd h' h, fun _ => rfl⟩

end

end Athos.Pooler
