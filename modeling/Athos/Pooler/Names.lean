import Athos.Cluster.Convergence
import Athos.Pooler.Steps
import Mathlib.Data.List.Nodup
import Mathlib.Data.Set.BooleanAlgebra
import Mathlib.Order.CompletePartialOrder

/-!
# Names of the objects of a cluster

Which objects the cluster and the pooler controller write for a cluster, over every execution. Their
names are the cluster's name with a suffix; the suffix of the cluster's ConfigMap is the end of that
of the pooler's, so that the two ConfigMaps of a cluster `a` with a pooler and a cluster
`a-pgbouncer` are one object.
-/

namespace Athos.Pooler

open Base Base.Prog Kube Api Postgres List Cluster

/-! ### Written objects -/

/-- The object a request creates or updates, other than a cluster itself. -/
def target : Op → Option (Kind × NamespacedName)
  | .create k o => some (k, o.key)
  | .update k o => if k = .postgresCluster then none else some (k, o.key)
  | _ => none

/-- Answers have the key that was asked for. -/
def Faithful : (op : Op) → Res op → Prop
  | .get _ n, .ok o => o.key = n
  | .updateStatus _ o, .ok o' => o'.key = o.key
  | _, _ => True

/-- The objects that a reconcile by either controller writes, in some execution that reads
the cluster as it is given. -/
def touched (T : RuneTables) (r : PostgresClusterReconciler) (c : PostgresCluster) :
    Set (Kind × NamespacedName) :=
  {t | ∃ p ∈ [Cluster.reconcile T r c.key, reconcile c.key], ∃ tr,
    p.Executes (⟨.get .postgresCluster c.key, .ok c⟩ :: tr) ∧
    (∀ x ∈ tr, Faithful x.1 x.2) ∧ ∃ x ∈ tr, target x.1 = some t}

/-- The objects of a cluster. -/
def clusterObjects (c : PostgresCluster) : List (Kind × NamespacedName) :=
  [(.serviceAccount, ⟨c.metadata.namespace_, c.metadata.name ++ lit "-sa"⟩),
    (.secret, ⟨c.metadata.namespace_, secretName c⟩),
    (.configMap, ⟨c.metadata.namespace_, Postgres.configMapName c⟩),
    (.statefulSet, ⟨c.metadata.namespace_, clusterStatefulSetName c⟩),
    (.service, ⟨c.metadata.namespace_, headlessServiceName c⟩),
    (.service, ⟨c.metadata.namespace_, primaryServiceName c⟩),
    (.service, ⟨c.metadata.namespace_, replicaServiceName c⟩),
    (.podDisruptionBudget, ⟨c.metadata.namespace_, c.metadata.name ++ lit "-pdb"⟩)]

/-- The objects of its pooler. -/
def poolerObjects (c : PostgresCluster) : List (Kind × NamespacedName) :=
  [(.configMap, ⟨c.metadata.namespace_, configMapName c.metadata.name⟩),
    (.deployment, ⟨c.metadata.namespace_, deploymentName c.metadata.name⟩),
    (.service, ⟨c.metadata.namespace_, serviceName c.metadata.name⟩)]

section

variable {T : RuneTables} {r : PostgresClusterReconciler} {c : PostgresCluster}
  {L : Set (Kind × NamespacedName)}

/-! ### Every request writes one of them -/

/-- A request that writes nothing outside a set. -/
def Within (L : Set (Kind × NamespacedName)) (op : Op) : Prop := ∀ t, target op = some t → t ∈ L

variable {k : Kind} {o : Object k} {created : Action Unit} {t : Kind × NamespacedName}

private theorem within_create (h : (k, o.key) ∈ L) : Within L (.create k o) := by
  rintro t ht
  cases ht
  exact h

private theorem within_update (h : (k, o.key) ∈ L) : Within L (.update k o) := by
  intro t ht
  rw [target] at ht
  split at ht
  · cases ht
  · cases ht
    exact h

private theorem calls_createMissing (h : (k, o.key) ∈ L) (hc : created.Calls Faithful (Within L)) :
    (createMissing o created).Calls Faithful (Within L) := by
  refine ⟨within_create h, fun res _ => ?_⟩
  cases res with
  | error e => trivial
  | ok o' => exact hc.bind fun _ => trivial

private theorem calls_ensure {n : NamespacedName} {missing : Action (Except GoError Unit)}
    (h : missing.Calls Faithful (Within L)) : (ensure k n missing).Calls Faithful (Within L) := by
  refine ⟨nofun, fun res _ => ?_⟩
  cases res with
  | ok o => trivial
  | error e =>
    cases e with
    | notFound => exact h
    | alreadyExists | conflict | invalid | other _ => trivial

private theorem calls_createOrUpdate {manage : Spec k → Spec k} {updating : Object k → Action Unit}
    {failed : GoError → GoError} (h : (k, o.key) ∈ L) (hc : created.Calls Faithful (Within L))
    (hu : ∀ o', (updating o').Calls Faithful (Within L)) :
    (createOrUpdate o manage created updating failed).Calls Faithful (Within L) := by
  refine ⟨nofun, fun res hres => ?_⟩
  cases res with
  | error e =>
    cases e with
    | notFound => exact calls_createMissing h hc
    | alreadyExists | conflict | invalid | other _ => trivial
  | ok existing =>
    have hkey : existing.key = o.key := hres
    refine (hu existing).bind fun _ => ⟨within_update ?_, fun _ _ => trivial⟩
    show (k, existing.key) ∈ L
    rw [hkey]
    exact h

private theorem calls_untilError {as : List (Action (Except GoError Unit))}
    (h : ∀ a ∈ as, a.Calls Faithful (Within L)) : (untilError as).Calls Faithful (Within L) := by
  induction as with
  | nil => trivial
  | cons a as ih =>
    refine (h a mem_cons_self).bind fun res => ?_
    cases res with
    | error e => trivial
    | ok _ => exact ih fun a' ha' => h a' (mem_cons_of_mem _ ha')

private theorem calls_runSteps {steps : List (GoString × Action (Except GoError Unit))}
    (h : ∀ s ∈ steps, s.2.Calls Faithful (Within L)) :
    (runSteps steps).Calls Faithful (Within L) := by
  induction steps with
  | nil => trivial
  | cons s steps ih =>
    refine (h s mem_cons_self).bind fun res => ?_
    cases res with
    | error e => trivial
    | ok _ => exact ih fun s' hs' => h s' (mem_cons_of_mem _ hs')

private theorem calls_recordEventf {type reason message : GoString} :
    (recordEventf r c type reason message).Calls Faithful (Within L) := by
  unfold recordEventf
  split
  · exact ⟨nofun, fun _ _ => trivial⟩
  · trivial

private theorem calls_generateBytes (alphabet : GoString) (n : Nat) :
    (generateBytes alphabet n).Calls Faithful (Within L) := by
  induction n with
  | zero => trivial
  | succ n ih =>
    refine ⟨nofun, fun res _ => ?_⟩
    cases res with
    | error e => trivial
    | ok i =>
      refine ih.bind fun res => ?_
      cases res <;> trivial

private theorem calls_reconcileService {svc : Service}
    (hns : svc.metadata.namespace_ = c.metadata.namespace_)
    (hrefs : svc.metadata.ownerReferences = []) (h : (.service, svc.key) ∈ L) :
    (reconcileService c svc).Calls Faithful (Within L) := by
  rw [reconcileService, setControllerReference_new hns hrefs]
  exact calls_createOrUpdate h trivial fun _ => trivial

private theorem calls_setReadiness (c : PostgresCluster) (ready : Int) :
    (setReadiness c ready).Calls Faithful (Within L) := by
  unfold setReadiness
  dsimp only
  split
  · exact ⟨nofun, fun _ _ => trivial⟩
  · split
    · exact ⟨nofun, fun _ _ => ⟨nofun, fun _ _ => trivial⟩⟩
    · exact ⟨nofun, fun _ _ => ⟨nofun, fun _ _ => trivial⟩⟩

private theorem calls_updateStatus : (updateStatus c).Calls Faithful (Within L) := by
  have hreport : ∀ n, (updateStatus.report c n).Calls Faithful (Within L) := by
    intro n
    exact (calls_setReadiness _ _).bind fun _ => ⟨nofun, fun _ _ => trivial⟩
  refine ⟨nofun, fun res _ => ?_⟩
  cases res with
  | ok sts => exact hreport _
  | error e =>
    cases e with
    | notFound => exact hreport 0
    | alreadyExists | conflict | invalid | other _ => trivial

private theorem calls_reconcileSubresources (h : ∀ t ∈ clusterObjects c, t ∈ L) :
    (reconcileSubresources T r c).Calls Faithful (Within L) := by
  simp only [clusterObjects, forall_mem_cons] at h
  obtain ⟨hsa, hsecret, hcm, hsts, hpods, hprimary, hreplicas, hpdb, -⟩ := h
  refine calls_runSteps ?_
  simp only [forall_mem_cons, not_mem_nil, false_implies, implies_true, and_true]
  refine ⟨?_, ?_, ?_, ?_, ?_, ?_, calls_updateStatus⟩
  · unfold reconcileServiceAccount
    split
    · trivial
    next hname =>
      rw [setControllerReference_new rfl rfl]
      refine calls_ensure (calls_createMissing ?_ trivial)
      show (Kind.serviceAccount,
        (⟨c.metadata.namespace_, serviceAccountName c⟩ : NamespacedName)) ∈ L
      rw [serviceAccountName, if_neg hname]
      exact hsa
  · refine calls_ensure (.bind (calls_generateBytes _ _) fun res => ?_)
    cases res with
    | error e => trivial
    | ok pw =>
      have href : setControllerReference (owner c) (buildCredentialSecret c pw) =
        .ok ((buildCredentialSecret c pw).controlledBy (owner c)) :=
          setControllerReference_new rfl rfl
      simp only [href]
      exact calls_createMissing hsecret calls_recordEventf
  · rw [reconcileConfigMap_eq]
    exact calls_createOrUpdate hcm calls_recordEventf fun _ => trivial
  · rw [reconcileStatefulSet_eq]
    refine calls_createOrUpdate hsts calls_recordEventf fun existing => ?_
    unfold recordScaling
    split
    · split
      · exact calls_recordEventf
      · trivial
    · trivial
  · refine calls_untilError ?_
    simp only [map_cons, map_nil, forall_mem_cons, not_mem_nil, false_implies,
      implies_true, and_true]
    exact ⟨calls_reconcileService rfl rfl hpods, calls_reconcileService rfl rfl hprimary,
      calls_reconcileService rfl rfl hreplicas⟩
  · rw [reconcilePDB_eq]
    refine calls_createOrUpdate ?_ calls_recordEventf fun _ => trivial
    show (Kind.podDisruptionBudget, (desiredPdb c).metadata.key) ∈ L
    rw [desiredPdb_metadata]
    exact hpdb

/-- What the names of a cluster's objects add to its name. -/
def clusterSuffixes : List (Kind × GoString) :=
  [(.serviceAccount, lit "-sa"), (.secret, lit "-credentials"), (.configMap, lit "-config"),
    (.statefulSet, lit ""), (.service, lit "-pods"), (.service, lit "-primary"),
    (.service, lit "-replicas"), (.podDisruptionBudget, lit "-pdb")]

/-- A suffix as an object of a cluster. -/
def placed (c : PostgresCluster) (x : Kind × GoString) : Kind × NamespacedName :=
  (x.1, ⟨c.metadata.namespace_, c.metadata.name ++ x.2⟩)

private theorem clusterObjects_eq (c : PostgresCluster) :
    clusterObjects c = clusterSuffixes.map (placed c) := by
  have hname : c.metadata.name ++ lit "" = c.metadata.name := append_nil _
  simp only [clusterSuffixes, map_cons, map_nil, placed, hname]
  rfl

private theorem clusterObjects_congr {c' : PostgresCluster} (h : c'.key = c.key) :
    clusterObjects c' = clusterObjects c := by
  rw [clusterObjects_eq, clusterObjects_eq]
  exact congrArg (fun n : NamespacedName => clusterSuffixes.map fun x =>
    (x.1, (⟨n.namespace_, n.name ++ x.2⟩ : NamespacedName))) h

private theorem calls_clusterFetched (h : Live c → ∀ t ∈ clusterObjects c, t ∈ L) :
    (Cluster.reconcileFetched T r c).Calls Faithful (Within L) := by
  have hself : ∀ o : PostgresCluster, Within L (.update .postgresCluster o) := by
    intro o t ht
    rw [target, if_pos rfl] at ht
    cases ht
  have hboot : ∀ c' : PostgresCluster, (∀ t ∈ clusterObjects c', t ∈ L) →
      (reconcileBootstrapped T r c').Calls Faithful (Within L) := by
    intro c' h'
    refine (calls_reconcileSubresources h').bind fun res => ?_
    cases res <;> trivial
  unfold Cluster.reconcileFetched
  split
  · unfold reconcilePaused
    split
    · refine ⟨nofun, fun _ _ => ⟨nofun, fun res _ => ?_⟩⟩
      cases res with
      | error e => trivial
      | ok c' => exact calls_recordEventf.bind fun _ => trivial
    · trivial
  next hp =>
  split
  · refine ⟨hself _, fun res _ => ?_⟩
    cases res <;> trivial
  next hf =>
  split
  · refine ⟨hself _, fun res _ => ?_⟩
    cases res <;> trivial
  next hd =>
  have hlive : Live c := ⟨by simpa using hp, by simpa using hd, by simpa using hf⟩
  unfold reconcileLive
  split
  · refine ⟨nofun, fun _ _ => ⟨nofun, fun res hres => ?_⟩⟩
    cases res with
    | error e => trivial
    | ok c' =>
      refine hboot c' ?_
      rw [clusterObjects_congr hres]
      exact h hlive
  · exact hboot c (h hlive)

private theorem calls_reconcilePoolerObject {what : GoString} {manage : Spec k → Spec k → Spec k}
    (hns : o.metadata.namespace_ = c.metadata.namespace_) (hrefs : o.metadata.ownerReferences = [])
    (h : (k, o.key) ∈ L) : (reconcilePoolerObject c o what manage).Calls Faithful (Within L) := by
  rw [reconcilePoolerObject, setControllerReference_new hns hrefs]
  exact calls_createOrUpdate h trivial fun _ => trivial

private theorem calls_poolerFetched (h : Pooled c → ∀ t ∈ poolerObjects c, t ∈ L) :
    (reconcileFetched c).Calls Faithful (Within L) := by
  unfold reconcileFetched
  split
  · trivial
  next hlive =>
  split
  · trivial
  next hreq =>
  simp only [Bool.or_eq_true, not_or, Option.isSome_iff_ne_none, ne_eq, not_not,
    Bool.not_eq_true] at hlive
  have hall := h ⟨hlive.2, hlive.1, by simpa using hreq⟩
  simp only [poolerObjects, forall_mem_cons] at hall
  obtain ⟨hcm, hdeploy, hsvc, -⟩ := hall
  refine .bind (calls_untilError ?_) fun res => by cases res <;> trivial
  simp only [forall_mem_cons, not_mem_nil, false_implies, implies_true, and_true]
  exact ⟨calls_reconcilePoolerObject rfl rfl hcm, calls_reconcilePoolerObject rfl rfl hdeploy,
    calls_reconcilePoolerObject rfl rfl hsvc⟩

private theorem mem_of_mem_touched (h : t ∈ touched T r c) :
    Live c ∧ t ∈ clusterObjects c ∨ Pooled c ∧ t ∈ poolerObjects c := by
  obtain ⟨p, hp, tr, hex, hA, x, hx, ht⟩ := h
  simp only [mem_cons, not_mem_nil, or_false] at hp
  rcases hp with rfl | rfl
  · obtain ⟨res, hres, hex⟩ := hex
    obtain rfl : .ok c = res := by simpa using hres
    have hcalls : (Cluster.reconcileFetched T r c).Calls Faithful
        (Within {t | Live c ∧ t ∈ clusterObjects c}) :=
      calls_clusterFetched fun hl t ht => ⟨hl, ht⟩
    exact .inl (hcalls.of_mem hex hA hx t ht)
  · obtain ⟨res, hres, hex⟩ := hex
    obtain rfl : .ok c = res := by simpa using hres
    have hcalls : (reconcileFetched c).Calls Faithful
        (Within {t | Pooled c ∧ t ∈ poolerObjects c}) :=
      calls_poolerFetched fun hl t ht => ⟨hl, ht⟩
    exact .inr (hcalls.of_mem hex hA hx t ht)

/-! ### The two ConfigMaps are written -/

/-- An action that succeeds in some execution. -/
private def Succeeds (p : Action (Except GoError Unit)) : Prop :=
  ∃ tr, p.Completes tr (.ok ()) ∧ ∀ x ∈ tr, Faithful x.1 x.2

/-- An action that writes an object in some execution. -/
private def Writes {α : Type} (p : Action α) (t : Kind × NamespacedName) : Prop :=
  ∃ tr, p.Executes tr ∧ (∀ x ∈ tr, Faithful x.1 x.2) ∧ ∃ x ∈ tr, target x.1 = some t

private theorem succeeds_ensure {n : NamespacedName} {missing : Action (Except GoError Unit)}
    (o : Object k) (h : o.key = n) : Succeeds (ensure k n missing) := by
  refine ⟨[⟨.get k n, .ok o⟩], ⟨_, _, rfl, rfl, rfl⟩, fun x hx => ?_⟩
  rw [mem_singleton.1 hx]
  exact h

private theorem writes_createOrUpdate {manage : Spec k → Spec k} {updating : Object k → Action Unit}
    {failed : GoError → GoError} :
    Writes (createOrUpdate o manage created updating failed) (k, o.key) := by
  refine ⟨[⟨.get k o.key, .error .notFound⟩, ⟨.create k o, .error .conflict⟩],
    ⟨_, rfl, _, rfl, trivial⟩, fun x hx => ?_, _, mem_cons_of_mem _ mem_cons_self, rfl⟩
  rcases mem_cons.1 hx with rfl | hx
  · trivial
  · rw [mem_singleton.1 hx]
    trivial

private theorem Succeeds.writes_bind {α : Type} {p : Action (Except GoError Unit)}
    {f : Except GoError Unit → Action α} (hp : Succeeds p) (hf : Writes (f (.ok ())) t) :
    Writes (p >>= f) t := by
  obtain ⟨tr, hc, hA⟩ := hp
  obtain ⟨tr', he, hA', x, hx, ht⟩ := hf
  refine ⟨tr ++ tr', hc.bind he, fun y hy => ?_, x, mem_append_right _ hx, ht⟩
  exact (mem_append.1 hy).elim (hA y) (hA' y)

private theorem Writes.bind {α β : Type} {p : Action α} {f : α → Action β} (hp : Writes p t) :
    Writes (p >>= f) t := by
  obtain ⟨tr, he, h⟩ := hp
  exact ⟨tr, he.bind f, h⟩

private theorem writes_reconcileBootstrapped (T : RuneTables) (r : PostgresClusterReconciler)
    (c : PostgresCluster) :
    Writes (reconcileBootstrapped T r c)
      (.configMap, ⟨c.metadata.namespace_, Postgres.configMapName c⟩) := by
  have haccount : Succeeds (reconcileServiceAccount c) := by
    unfold reconcileServiceAccount
    split
    · exact ⟨[], ⟨rfl, rfl⟩, forall_mem_nil _⟩
    · rw [setControllerReference_new rfl rfl]
      exact succeeds_ensure _ rfl
  have hsecret : Succeeds (reconcileCredentials T r c) :=
    succeeds_ensure (buildCredentialSecret c []) rfl
  have hcm : Writes (reconcileConfigMap T r c)
      (.configMap, ⟨c.metadata.namespace_, Postgres.configMapName c⟩) := by
    rw [reconcileConfigMap_eq]
    exact writes_createOrUpdate
  exact .bind (haccount.writes_bind (hsecret.writes_bind (.bind hcm)))

private theorem configMap_mem_touched (h : Live c) :
    (.configMap, ⟨c.metadata.namespace_, Postgres.configMapName c⟩) ∈ touched T r c := by
  have hlive : Writes (reconcileLive T r c)
      (.configMap, ⟨c.metadata.namespace_, Postgres.configMapName c⟩) := by
    unfold reconcileLive
    split
    · -- The status write answers with the cluster that was sent.
      obtain ⟨tr, hex, hA, x, hx, ht⟩ := writes_reconcileBootstrapped T r
        { c with status := { c.status with
            phase := .initializing
            conditions := setCondition c.metadata.generation 0 conditionProgressing .true
              (lit "Initializing") (lit "Cluster is being initialised") c.status.conditions } }
      refine ⟨⟨.now, (0 : Int)⟩ :: ⟨.updateStatus .postgresCluster _, .ok _⟩ :: tr,
        ⟨_, rfl, _, rfl, hex⟩, fun y hy => ?_, x, ?_, ht⟩
      · rcases mem_cons.1 hy with rfl | hy
        · trivial
        · rcases mem_cons.1 hy with rfl | hy
          · exact rfl
          · exact hA y hy
      · exact mem_cons_of_mem _ (mem_cons_of_mem _ hx)
    · exact writes_reconcileBootstrapped T r c
  obtain ⟨tr, hex, hA, hx⟩ := hlive
  refine ⟨_, mem_cons_self, tr, ⟨.ok c, rfl, ?_⟩, hA, hx⟩
  show (Cluster.reconcileFetched T r c).Executes tr
  rw [reconcileFetched_of_live h]
  exact hex

private theorem poolerConfigMap_mem_touched (h : Pooled c) :
    (.configMap, ⟨c.metadata.namespace_, configMapName c.metadata.name⟩) ∈ touched T r c := by
  have hcm : Writes (reconcilePoolerConfigMap c defaultConfig (primaryServiceName c))
      (.configMap, ⟨c.metadata.namespace_, configMapName c.metadata.name⟩) := by
    rw [reconcilePoolerConfigMap, reconcilePoolerObject, setControllerReference_new rfl rfl]
    exact writes_createOrUpdate
  have hfetched : Writes (reconcileFetched c)
      (.configMap, ⟨c.metadata.namespace_, configMapName c.metadata.name⟩) := by
    rw [reconcileFetched, h.notDeleted, h.notPaused, h.requested]
    exact .bind (.bind hcm)
  obtain ⟨tr, hex, hA, hx⟩ := hfetched
  exact ⟨_, mem_cons_of_mem _ mem_cons_self, tr, ⟨.ok c, rfl, hex⟩, hA, hx⟩

end

/-! ### Suffixes -/

/-- What the names of its pooler's objects add. -/
def poolerSuffixes : List (Kind × GoString) :=
  [(.configMap, lit "-pgbouncer-config"), (.deployment, lit "-pooler"), (.service, lit "-pooler")]

private theorem poolerObjects_eq (c : PostgresCluster) :
    poolerObjects c = poolerSuffixes.map (placed c) := rfl

private theorem append_ne_append {n m s t : GoString} (h : ¬ s <:+ t) (h' : ¬ t <:+ s) :
    n ++ s ≠ m ++ t := by
  intro heq
  have hs : s <:+ m ++ t := heq ▸ suffix_append n s
  exact (suffix_or_suffix_of_suffix hs (suffix_append m t)).elim h h'

private theorem suffixes_apart :
    ∀ x ∈ clusterSuffixes ++ poolerSuffixes, ∀ y ∈ clusterSuffixes ++ poolerSuffixes, x.1 = y.1 →
      x = y ∨ (¬ x.2 <:+ y.2 ∧ ¬ y.2 <:+ x.2) ∨
        (x = (.configMap, lit "-config") ∧ y = (.configMap, lit "-pgbouncer-config")) ∨
        (y = (.configMap, lit "-config") ∧ x = (.configMap, lit "-pgbouncer-config")) := by
  decide +kernel

/-- Within one cluster the objects are different. -/
theorem nodup_objects (c : PostgresCluster) : (clusterObjects c ++ poolerObjects c).Nodup := by
  rw [clusterObjects_eq, poolerObjects_eq, ← map_append]
  refine List.Nodup.map ?_ (by decide +kernel)
  rintro ⟨k, s⟩ ⟨k', s'⟩ h
  simpa [placed] using h

/-- A cluster with a pooler, and one whose name is that of the first with `-pgbouncer`. -/
structure Clash (a b : PostgresCluster) : Prop where
  pooled : Pooled a
  live : Live b
  name : b.metadata.name = a.metadata.name ++ lit "-pgbouncer"

section

variable {T : RuneTables} {r : PostgresClusterReconciler} {a b : PostgresCluster}

private theorem exists_suffix {c : PostgresCluster} {t : Kind × NamespacedName}
    (h : t ∈ touched T r c) :
    ∃ x ∈ clusterSuffixes ++ poolerSuffixes, t = placed c x ∧
      (x ∈ clusterSuffixes → Live c) ∧ (x ∈ poolerSuffixes → Pooled c) := by
  have hdisjoint : ∀ x ∈ clusterSuffixes, x ∉ poolerSuffixes := by decide +kernel
  rcases mem_of_mem_touched h with ⟨hl, ht⟩ | ⟨hp, ht⟩
  · rw [clusterObjects_eq] at ht
    obtain ⟨x, hx, rfl⟩ := mem_map.1 ht
    exact ⟨x, mem_append_left _ hx, rfl, fun _ => hl, fun hx' => absurd hx' (hdisjoint x hx)⟩
  · rw [poolerObjects_eq] at ht
    obtain ⟨x, hx, rfl⟩ := mem_map.1 ht
    exact ⟨x, mem_append_right _ hx, rfl, fun hx' => absurd hx (hdisjoint x hx'), fun _ => hp⟩

private theorem name_of_configMaps {n m : GoString}
    (h : m ++ lit "-config" = n ++ lit "-pgbouncer-config") : m = n ++ lit "-pgbouncer" := by
  have hsplit : lit "-pgbouncer-config" = lit "-pgbouncer" ++ lit "-config" := by decide
  rw [hsplit, ← append_assoc] at h
  exact append_cancel_right h

private theorem clash_of_mem_touched (hne : a.metadata.name ≠ b.metadata.name)
    {t : Kind × NamespacedName} (ha : t ∈ touched T r a) (hb : t ∈ touched T r b) :
    Clash a b ∨ Clash b a := by
  obtain ⟨x, hx, rfl, hxl, hxp⟩ := exists_suffix ha
  obtain ⟨y, hy, heq, hyl, hyp⟩ := exists_suffix hb
  simp only [placed, Prod.mk.injEq, NamespacedName.mk.injEq] at heq
  obtain ⟨hkind, -, hname⟩ := heq
  rcases suffixes_apart x hx y hy hkind with rfl | ⟨hxy, hyx⟩ | ⟨rfl, rfl⟩ | ⟨rfl, rfl⟩
  · exact absurd (append_cancel_right hname) hne
  · exact absurd hname (append_ne_append hxy hyx)
  · exact .inr ⟨hyp (by decide), hxl (by decide), name_of_configMaps hname⟩
  · exact .inl ⟨hxp (by decide), hyl (by decide), name_of_configMaps hname.symm⟩

private theorem mem_touched_of_clash (hns : a.metadata.namespace_ = b.metadata.namespace_)
    (h : Clash a b) : ∃ t, t ∈ touched T r a ∧ t ∈ touched T r b := by
  refine ⟨_, poolerConfigMap_mem_touched h.pooled, ?_⟩
  have hcm := configMap_mem_touched (T := T) (r := r) h.live
  have hsplit : lit "-pgbouncer-config" = lit "-pgbouncer" ++ lit "-config" := by decide
  rw [Postgres.configMapName, h.name, append_assoc, ← hsplit, ← hns] at hcm
  exact hcm

end

/-- When the objects of two clusters are different. For two clusters of one namespace with
different names, the objects that the two controllers write for them are disjoint, and those
of each cluster pairwise different, if and only if neither cluster has a pooler while the
other one is live and named as it with `-pgbouncer`. -/
theorem objects_disjoint_iff (T : RuneTables) (r : PostgresClusterReconciler)
    (a b : PostgresCluster) (hns : a.metadata.namespace_ = b.metadata.namespace_)
    (hne : a.metadata.name ≠ b.metadata.name) :
    (Disjoint (touched T r a) (touched T r b) ∧ (clusterObjects a ++ poolerObjects a).Nodup ∧
        (clusterObjects b ++ poolerObjects b).Nodup) ↔
      ¬ Clash a b ∧ ¬ Clash b a := by
  rw [Set.disjoint_left]
  constructor
  · rintro ⟨hdis, -⟩
    refine ⟨fun h => ?_, fun h => ?_⟩
    · obtain ⟨t, ha, hb⟩ := mem_touched_of_clash hns h
      exact hdis ha hb
    · obtain ⟨t, hb, ha⟩ := mem_touched_of_clash hns.symm h
      exact hdis ha hb
  · rintro ⟨hab, hba⟩
    refine ⟨fun t ha hb => ?_, nodup_objects a, nodup_objects b⟩
    exact (clash_of_mem_touched hne ha hb).elim hab hba

/-- A live cluster with a pooler and a given name. -/
def samplePooled (name : GoString) : PostgresCluster where
  metadata :=
    { name := name
      namespace_ := lit "default"
      annotations := mapOf [(lit "pg.athos.io/enable-pooler", lit "true")]
      finalizers := [postgresClusterFinalizer] }
  spec := { postgresVersion := 16, instances := 1, storage := { size := .ofBinary 10 30 } }
  status := ({} : PostgresClusterStatus)

/-- Two clusters without a name in common. -/
theorem objects_disjoint_samplePooled :
    Disjoint (touched .basic {} (samplePooled (lit "db")))
      (touched .basic {} (samplePooled (lit "app"))) :=
  ((objects_disjoint_iff .basic {} (samplePooled (lit "db")) (samplePooled (lit "app")) rfl
    (by decide)).2 ⟨fun h => absurd h.name (by decide), fun h => absurd h.name (by decide)⟩).1

/-- The ConfigMap of one pooler is that of a cluster with another name. -/
theorem objects_clash_samplePooled :
    (.configMap, ⟨lit "default", lit "db-pgbouncer-config"⟩) ∈
        touched .basic {} (samplePooled (lit "db")) ∧
      (.configMap, ⟨lit "default", lit "db-pgbouncer-config"⟩) ∈
        touched .basic {} (samplePooled (lit "db-pgbouncer")) := by
  have hpooled : Pooled (samplePooled (lit "db")) := ⟨rfl, rfl, by decide +kernel⟩
  have hlive : Live (samplePooled (lit "db-pgbouncer")) := ⟨rfl, rfl, by decide⟩
  have hname : lit "db" ++ lit "-pgbouncer-config" = lit "db-pgbouncer-config" := by decide
  have hname' : lit "db-pgbouncer" ++ lit "-config" = lit "db-pgbouncer-config" := by decide
  constructor
  · rw [← hname]
    exact poolerConfigMap_mem_touched hpooled
  · rw [← hname']
    exact configMap_mem_touched hlive

end Athos.Pooler
