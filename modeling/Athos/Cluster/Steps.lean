import Athos.Cluster.Controller
import Athos.Kube.Evolution

/-!
# The steps of the cluster controller

The policy of the cluster controller, and for each step of `reconcileSubresources` that it follows
the policy, what it secures and that it then rests.
-/

namespace Athos.Cluster

open Base Base.Prog Kube Api Postgres List

/-- The Services of a cluster, in the order of the loop. -/
def services (c : PostgresCluster) : List Service :=
  [buildHeadlessService c, buildPrimaryService c, buildReplicaService c]

/-- The managed parts of the cluster's objects. -/
def managed (c : PostgresCluster) : (k : Kind) → NamespacedName → Option (Spec k → Spec k)
  | .configMap, n =>
    if n = (buildConfigMap c).key then some (manageConfigMap (buildConfigMap c).spec) else none
  | .statefulSet, n =>
    if n = (buildStatefulSet c).key then some (manageStatefulSet (buildStatefulSet c).spec)
    else none
  | .service, n =>
    ((services c).find? fun svc => svc.key = n).map fun svc => manageService svc.spec
  | .podDisruptionBudget, n =>
    if n = (desiredPdb c).key then some (managePdb (desiredPdb c).spec) else none
  | _, _ => none

private theorem managed_idem {c : PostgresCluster} {k : Kind} {n : NamespacedName}
    {m : Spec k → Spec k} (hm : managed c k n = some m) (sp : Spec k) : m (m sp) = m sp := by
  cases k with
  | configMap | statefulSet | podDisruptionBudget =>
    rw [managed] at hm
    split_ifs at hm
    cases hm
    rfl
  | service =>
    obtain ⟨svc, -, rfl⟩ := Option.map_eq_some_iff.1 hm
    rfl
  | postgresCluster | postgresUser | postgresBackup | serviceAccount | secret | deployment
  | job => cases hm

/-- The key of the credentials Secret. -/
def secretKey (c : PostgresCluster) : NamespacedName := ⟨c.metadata.namespace_, secretName c⟩

/-- The responsibility of the cluster controller. -/
def policy (c : PostgresCluster) : Policy where
  managed := managed c
  managed_idem := managed_idem
  ensured k n :=
    (k = .serviceAccount ∧ c.spec.serviceAccountName = [] ∧ n = (buildServiceAccount c).key) ∨
      (k = .secret ∧ n = secretKey c)
  reported k n := k = .postgresCluster ∧ n = c.key

/-- The ConfigMap is managed. -/
theorem managed_configMap (c : PostgresCluster) :
    managed c .configMap (buildConfigMap c).key =
      some (manageConfigMap (buildConfigMap c).spec) := if_pos rfl

/-- The StatefulSet is managed. -/
theorem managed_statefulSet (c : PostgresCluster) :
    managed c .statefulSet (buildStatefulSet c).key =
      some (manageStatefulSet (buildStatefulSet c).spec) := if_pos rfl

/-- The PodDisruptionBudget is managed. -/
theorem managed_pdb (c : PostgresCluster) :
    managed c .podDisruptionBudget (desiredPdb c).key =
      some (managePdb (desiredPdb c).spec) := if_pos rfl

/-- The names of the three Services differ. -/
theorem managed_service {c : PostgresCluster} {svc : Service} (h : svc ∈ services c) :
    managed c .service svc.key = some (manageService svc.spec) := by
  have hne : ∀ {a b : GoString}, a ≠ b → ∀ {ns}, (⟨ns, c.metadata.name ++ a⟩ : NamespacedName) ≠
      ⟨ns, c.metadata.name ++ b⟩ := by
    intro a b hab ns he
    exact hab (append_cancel_left (NamespacedName.mk.inj he).2)
  have hhp : (buildHeadlessService c).key ≠ (buildPrimaryService c).key := hne (by decide)
  have hhr : (buildHeadlessService c).key ≠ (buildReplicaService c).key := hne (by decide)
  have hpr : (buildPrimaryService c).key ≠ (buildReplicaService c).key := hne (by decide)
  simp only [services, mem_cons, not_mem_nil, or_false] at h
  rcases h with rfl | rfl | rfl <;> simp [managed, services, *]

section

variable {T : RuneTables} {r : PostgresClusterReconciler} {A : Ambient → Prop}

/-- Recording an event changes no object. -/
theorem keeps_recordEventf {c : PostgresCluster} {type reason message : GoString} :
    Keeps A (recordEventf r c type reason message) := by
  unfold recordEventf
  split
  · exact fun w => wp_event fun _ => rfl
  · exact fun w => rfl

private theorem keeps_recordScaling {c : PostgresCluster} {desired existing : StatefulSet} :
    Keeps A (recordScaling T r c desired existing) := by
  unfold recordScaling
  split
  · split
    · exact keeps_recordEventf
    · exact fun w => rfl
  · exact fun w => rfl

private theorem recordScaling_of_fixed {c : PostgresCluster} {desired existing : StatefulSet}
    (h : manageStatefulSet desired.spec existing.spec = existing.spec) :
    recordScaling T r c desired existing = return () := by
  have hr : desired.spec.replicas = existing.spec.replicas :=
    (congrArg StatefulSetSpec.replicas h :)
  unfold recordScaling
  rw [hr]
  split
  · next m n hm hn =>
    rw [hm, Option.some.injEq] at hn
    rw [if_neg (by simp [hn])]
  · rfl

variable (c : PostgresCluster)

/-- The reference to the owner can always be set. -/
theorem reconcileConfigMap_eq : reconcileConfigMap T r c =
    createOrUpdate ((buildConfigMap c).controlledBy (owner c))
      (manageConfigMap (buildConfigMap c).spec)
      (recordCreated r c (lit "Created ConfigMap " ++ goQuote T (configMapName c)))
      (fun _ => return ()) id := by
  rw [reconcileConfigMap, setControllerReference_new rfl rfl]
  rfl

/-- The reference to the owner can always be set. -/
theorem reconcileStatefulSet_eq : reconcileStatefulSet T r c =
    createOrUpdate ((buildStatefulSet c).controlledBy (owner c))
      (manageStatefulSet (buildStatefulSet c).spec)
      (recordCreated r c (lit "Created StatefulSet " ++ goQuote T (clusterStatefulSetName c) ++
        lit " with " ++ decimal c.spec.instances ++ lit " replicas"))
      (recordScaling T r c ((buildStatefulSet c).controlledBy (owner c))) id := by
  rw [reconcileStatefulSet, setControllerReference_new rfl rfl]
  rfl

/-- The budget is named and placed the same for every size of the cluster. -/
theorem desiredPdb_metadata : (desiredPdb c).metadata =
    { name := c.metadata.name ++ lit "-pdb"
      namespace_ := c.metadata.namespace_
      labels := commonLabels c } := by
  rw [desiredPdb, buildPdb, recommendedFor]
  split <;> rfl

/-- The reference to the owner can always be set. -/
theorem reconcilePDB_eq : reconcilePDB T r c =
    createOrUpdate ((desiredPdb c).controlledBy (owner c)) (managePdb (desiredPdb c).spec)
      (recordCreated r c (lit "Created PodDisruptionBudget " ++
        goQuote T (desiredPdb c).metadata.name))
      (fun _ => return ()) id := by
  have hns : (desiredPdb c).metadata.namespace_ = (owner c).metadata.namespace_ := by
    rw [desiredPdb_metadata]
    rfl
  have hrefs : (desiredPdb c).metadata.ownerReferences = [] := by rw [desiredPdb_metadata]
  rw [reconcilePDB, setControllerReference_new hns hrefs]
  rfl

private theorem reconcileService_eq {svc : Service} (h : svc ∈ services c) :
    reconcileService c svc =
    createOrUpdate (svc.controlledBy (owner c)) (manageService svc.spec) (return ())
      (fun _ => return ()) id := by
  simp only [services, mem_cons, not_mem_nil, or_false] at h
  rcases h with rfl | rfl | rfl <;>
    (rw [reconcileService, setControllerReference_new rfl rfl]; rfl)

section Owned

variable {c} {k : Kind} {desired : Object k} {m : Spec k → Spec k} {created : Action Unit}
  {updating : Object k → Action Unit} {failed : GoError → GoError}

private theorem upkeep_owned (hm : managed c k desired.key = some m)
    (hfix : m desired.spec = desired.spec) (hk : k ≠ .secret) (hj : .postgresCluster ≠ k)
    (hc : Keeps A created) (hu : ∀ o, Keeps A (updating o))
    (hrest : ∀ o, m o.spec = o.spec → updating o = return ()) :
    Upkeep A (policy c) .postgresCluster [(k, desired.key)]
      (createOrUpdate (desired.controlledBy (owner c)) m created updating failed) := by
  have hm' : (policy c).managed k (desired.controlledBy (owner c)).key = some m := hm
  exact ⟨secures_createOrUpdate hm' hfix hk hj hc hu, rests_createOrUpdate hm' hk hrest⟩

end Owned

private theorem upkeep_configMap : Upkeep A (policy c) .postgresCluster
    [(.configMap, (buildConfigMap c).key)] (reconcileConfigMap T r c) := by
  rw [reconcileConfigMap_eq]
  exact upkeep_owned (managed_configMap c) rfl (by decide) (by decide) keeps_recordEventf
    (fun _ => keeps_return A) fun _ _ => rfl

private theorem upkeep_statefulSet : Upkeep A (policy c) .postgresCluster
    [(.statefulSet, (buildStatefulSet c).key)] (reconcileStatefulSet T r c) := by
  rw [reconcileStatefulSet_eq]
  exact upkeep_owned (managed_statefulSet c) rfl (by decide) (by decide) keeps_recordEventf
    (fun _ => keeps_recordScaling) fun _ h => recordScaling_of_fixed h

private theorem upkeep_pdb : Upkeep A (policy c) .postgresCluster
    [(.podDisruptionBudget, (desiredPdb c).key)] (reconcilePDB T r c) := by
  rw [reconcilePDB_eq]
  exact upkeep_owned (managed_pdb c) rfl (by decide) (by decide) keeps_recordEventf
    (fun _ => keeps_return A) fun _ _ => rfl

private theorem upkeep_service {svc : Service} (h : svc ∈ services c) :
    Upkeep A (policy c) .postgresCluster [(.service, svc.key)] (reconcileService c svc) := by
  rw [reconcileService_eq c h]
  exact upkeep_owned (managed_service h) rfl (by decide) (by decide) (keeps_return A)
    (fun _ => keeps_return A) fun _ _ => rfl

/-- The keys of the Services. -/
def serviceTargets (c : PostgresCluster) : List (Kind × NamespacedName) :=
  (services c).map fun svc => (.service, svc.key)

private theorem upkeep_services : Upkeep A (policy c) .postgresCluster (serviceTargets c)
    (reconcileServices c) :=
  (upkeep_service c (by simp [services])).untilError
    ((upkeep_service c (by simp [services])).untilError
      ((upkeep_service c (by simp [services])).untilError .done))

/-- The key of the ServiceAccount, unless the user brings one. -/
def serviceAccountTargets (c : PostgresCluster) : List (Kind × NamespacedName) :=
  if c.spec.serviceAccountName ≠ [] then [] else [(.serviceAccount, (buildServiceAccount c).key)]

private theorem upkeep_serviceAccount : Upkeep A (policy c) .postgresCluster
    (serviceAccountTargets c) (reconcileServiceAccount c) := by
  unfold serviceAccountTargets reconcileServiceAccount
  by_cases hname : c.spec.serviceAccountName ≠ []
  · rw [if_pos hname, if_pos hname]
    exact .done
  rw [if_neg hname, if_neg hname, setControllerReference_new rfl rfl]
  have ha : ∀ v, (policy c).Appears .serviceAccount (buildServiceAccount c).key
      (((buildServiceAccount c).controlledBy (owner c)).created v) := fun v =>
    ⟨.inr (.inl ⟨rfl, not_not.1 hname, rfl⟩), fun _ hm => nomatch hm⟩
  refine ⟨secures_ensure rfl fun w habs => ?_, rests_ensure⟩
  exact wp_createMissing ha (by decide) (keeps_return A) habs

/-- Generating a password touches no object, and succeeds when nothing fails. -/
theorem wp_generateBytes {alphabet : GoString} (hne : alphabet ≠ []) (n : Nat) (w : World) :
    wp (within A) (generateBytes alphabet n) (fun res w' => w'.objects = w.objects ∧
      (Smooth A → ∃ pw, res = .ok pw) ∧
      ∀ pw, res = .ok pw → pw.length = n ∧ ∀ b ∈ pw, b ∈ alphabet) w := by
  induction n generalizing w with
  | zero => exact ⟨rfl, fun _ => ⟨[], rfl⟩, fun pw h => by cases h; exact ⟨rfl, nofun⟩⟩
  | succ n ih =>
    refine wp_randInt ?_ ?_
    · intro a ha e he
      refine ⟨rfl, fun hs => ?_, nofun⟩
      rw [(hs a ha).2.2] at he
      cases he
    · intro i t
      refine wp_bind.2 (wp_mono (within_monotone A) (ih (w.advance t)) ?_)
      rintro (e | rest) w₁ ⟨hw₁, hok, hrest⟩
      · refine ⟨hw₁, fun hs => ?_, nofun⟩
        obtain ⟨pw, h⟩ := hok hs
        cases h
      · refine ⟨hw₁, fun _ => ⟨_, rfl⟩, fun pw h => ?_⟩
        obtain ⟨hlength, hmem⟩ := hrest rest rfl
        cases h
        refine ⟨congrArg (· + 1) hlength, forall_mem_cons.2 ⟨?_, hmem⟩⟩
        have hlt := Nat.mod_lt i (length_pos_iff.2 hne)
        simp [getD_eq_getElem?_getD, hlt]

/-- The step for the credentials secures the Secret. -/
theorem secures_credentials : Secures A (policy c) .postgresCluster
    [(.secret, secretKey c)] (reconcileCredentials T r c) := by
  refine secures_ensure rfl fun w habs => ?_
  refine wp_bind.2 (wp_mono (within_monotone A) (wp_generateBytes (by decide) _ w) ?_)
  rintro (e | pw) w₁ ⟨hw₁, hok, -⟩
  · refine ⟨.of_eq hw₁, nofun, fun hs => ?_⟩
    obtain ⟨pw, h⟩ := hok hs
    cases h
  · dsimp only
    rw [setControllerReference_new rfl rfl, ← hw₁]
    rw [← hw₁] at habs
    have ha : ∀ v, (policy c).Appears .secret (secretKey c)
        (((buildCredentialSecret c pw).controlledBy (owner c)).created v) := fun v =>
      ⟨.inr (.inr ⟨rfl, rfl⟩), fun _ hm => nomatch hm⟩
    exact wp_createMissing ha (by decide) keeps_recordEventf habs

/-- The steps of `reconcileSubresources` before the status. -/
def objectSteps (T : RuneTables) (r : PostgresClusterReconciler) (c : PostgresCluster) :
    List (GoString × Action (Except GoError Unit)) :=
  [(lit "serviceaccount", reconcileServiceAccount c),
    (lit "credentials", reconcileCredentials T r c),
    (lit "configmap", reconcileConfigMap T r c),
    (lit "statefulset", reconcileStatefulSet T r c),
    (lit "services", reconcileServices c),
    (lit "pdb", reconcilePDB T r c)]

/-- Every object the cluster controller creates or updates. -/
def targets (c : PostgresCluster) : List (Kind × NamespacedName) :=
  serviceAccountTargets c ++ ([(.secret, secretKey c)] ++ ([(.configMap, (buildConfigMap c).key)] ++
    ([(.statefulSet, (buildStatefulSet c).key)] ++ (serviceTargets c ++
      ([(.podDisruptionBudget, (desiredPdb c).key)] ++ [])))))

/-- The steps together keep up all objects. -/
theorem upkeep_objectSteps : Upkeep A (policy c) .postgresCluster (targets c)
    (runSteps (objectSteps T r c)) :=
  (upkeep_serviceAccount c).runSteps (.runSteps ⟨secures_credentials c, rests_ensure⟩
    ((upkeep_configMap c).runSteps ((upkeep_statefulSet c).runSteps
      ((upkeep_services c).runSteps ((upkeep_pdb c).runSteps .done)))))

end

end Athos.Cluster
