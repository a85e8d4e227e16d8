import Athos.Pooler.Names

/-!
# The two controllers on many clusters

Calls of the cluster and the pooler controller for the clusters of a fleet, in any order and failing
at any request. What a call has settled, calls of the other controller and for other clusters leave
as it is.
-/

namespace Athos.Operator

open Base Base.Prog Kube Api List
open Cluster (Live PostgresClusterReconciler)
open Pooler (Pooled)

/-- The two controllers. -/
inductive Controller where
  | cluster
  | pooler
  deriving DecidableEq

namespace Controller

/-- What a controller runs for a cluster. -/
def reconcile (T : RuneTables) (r : PostgresClusterReconciler) :
    Controller → NamespacedName → Action (Result × Option GoError)
  | cluster => Cluster.reconcile T r
  | pooler => Pooler.reconcile

/-- What a controller may do to objects. -/
def policy : Controller → PostgresCluster → Policy
  | cluster => Cluster.policy
  | pooler => Pooler.policy

/-- The objects of a controller. -/
def targets : Controller → PostgresCluster → List (Kind × NamespacedName)
  | cluster => Cluster.targets
  | pooler => Pooler.targets

/-- The controller has something to do for the cluster. -/
def Active : Controller → PostgresCluster → Prop
  | cluster => Live
  | pooler => Pooled

end Controller

/-- Live clusters as they are stored, with whatever status, such that no object belongs to two
of them. -/
structure Fleet (cs : List PostgresCluster) (s : Store) : Prop where
  live : ∀ c ∈ cs, Live c
  distinct : ∀ c ∈ cs, ∀ d ∈ cs, c.key = d.key → c = d
  apart : ∀ c ∈ cs, ∀ d ∈ cs, c ≠ d → ∀ i j : Controller, ∀ t ∈ i.targets c, t ∉ j.targets d
  stored : ∀ c ∈ cs, ∃ st v, s.get .postgresCluster c.key = some (c.withStatus st v)

/-- A call of a controller for a cluster, with what happens at each of its requests. -/
structure Turn where
  controller : Controller
  cluster : PostgresCluster
  ambients : List Ambient

section

variable (T : RuneTables) (r : PostgresClusterReconciler)

/-- The state that a call leaves behind. -/
def Turn.run (w : World) (x : Turn) : World :=
  (Prog.run serve (x.controller.reconcile T r x.cluster.key) x.ambients w).2

/-- Calls one after the other. -/
def runCalls (calls : List Turn) (w : World) : World := calls.foldl (Turn.run T r) w

end

section

variable {T : RuneTables} {r : PostgresClusterReconciler} {A : Ambient → Prop} {w : World}
  {c d : PostgresCluster} {i j : Controller} {cs : List PostgresCluster} {s s' : Store}
  {x : Turn}

private theorem wp_pooler {st : PostgresClusterStatus} {v : Nat}
    (hget : w.objects.get .postgresCluster c.key = some (c.withStatus st v)) :
    wp (within A) (Pooler.reconcile c.key) (fun _ w' =>
      Evolves (Pooler.policy c) w.objects w'.objects ∧ (Smooth A → Pooled c →
        ∀ t ∈ Pooler.targets c, Settled (Pooler.policy c) w'.objects t.1 t.2)) w := by
  refine wp_get (fun e he t => ?_) fun t => ?_
  · cases e with
    | notFound | alreadyExists | conflict | invalid | other _ =>
      exact ⟨.refl _ _, fun hs => absurd he hs.not_faults⟩
  · rw [World.read_of_some hget]
    change wp (within A) (Pooler.reconcileFetched c) _ _
    refine wp_mono (within_monotone A) (Pooler.wp_reconcileFetched _) ?_
    rintro res w' ⟨hm, -, hs, hok⟩
    exact ⟨hm.1, fun hA h => hs h (hok hA)⟩

private theorem call_effect (T : RuneTables) (r : PostgresClusterReconciler)
    (hf : Fleet cs w.objects) (hx : x.cluster ∈ cs) :
    Evolves (x.controller.policy x.cluster) w.objects (x.run T r w).objects ∧
      ((∀ e ∈ x.ambients, e.Clean) → x.controller.Active x.cluster →
        ∀ t ∈ x.controller.targets x.cluster,
          Settled (x.controller.policy x.cluster) (x.run T r w).objects t.1 t.2) := by
  obtain ⟨i, c, es⟩ := x
  obtain ⟨st, v, hget⟩ := hf.stored c hx
  cases i with
  | cluster =>
    have hlive := hf.live c hx
    refine ⟨(run_of_wp_any (Cluster.wp_reconcile hlive hget) es).1, fun hes _ => ?_⟩
    exact ((run_of_wp (by decide) (Cluster.wp_reconcile (A := Ambient.Clean) hlive hget) hes).2
      smooth_clean).2.settled
  | pooler =>
    refine ⟨(run_of_wp_any (wp_pooler hget) es).1, fun hes => ?_⟩
    exact (run_of_wp (by decide) (wp_pooler (A := Ambient.Clean) hget) hes).2 smooth_clean

private theorem get_eq_of_policy (he : Evolves (i.policy c) s s') {k : Kind} {n : NamespacedName}
    (ht : (k, n) ∉ i.targets c) (hc : (k, n) ≠ (.postgresCluster, c.key)) :
    s'.get k n = s.get k n := by
  cases i with
  | cluster => exact Cluster.get_eq_of_evolves he ht hc
  | pooler =>
    refine he.get_eq ?_ id id
    cases k with
    | configMap | deployment | service =>
      refine if_neg fun hn => ht ?_
      simp [Controller.targets, Pooler.targets, hn]
    | postgresCluster | postgresUser | postgresBackup | serviceAccount | secret | statefulSet
    | podDisruptionBudget | job => rfl

private theorem cluster_not_mem_targets {n : NamespacedName} :
    (.postgresCluster, n) ∉ i.targets c := by
  cases i <;> simp [Controller.targets, Cluster.targets, Pooler.targets,
    Cluster.serviceAccountTargets, Cluster.serviceTargets]

private theorem targets_apart (hij : i ≠ j) {t : Kind × NamespacedName} (ht : t ∈ i.targets c) :
    t ∉ j.targets c := by
  have hcluster : ∀ t ∈ Cluster.targets c, t ∈ Pooler.clusterObjects c := by
    have hpdb : (Cluster.desiredPdb c).key =
        ⟨c.metadata.namespace_, c.metadata.name ++ lit "-pdb"⟩ :=
      congrArg ObjectMeta.key (Cluster.desiredPdb_metadata c)
    have htail : Cluster.targets c =
        Cluster.serviceAccountTargets c ++ (Pooler.clusterObjects c).tail := by
      rw [Cluster.targets, hpdb]
      rfl
    intro t ht
    rw [htail, mem_append] at ht
    rcases ht with ht | ht
    · -- The service account is among the targets only under the cluster's own name.
      obtain ⟨hname, ht⟩ := mem_ite_nil_left.1 ht
      have hsa : (Postgres.buildServiceAccount c).key =
          ⟨c.metadata.namespace_, c.metadata.name ++ lit "-sa"⟩ :=
        congrArg (NamespacedName.mk c.metadata.namespace_) (if_neg hname)
      rw [mem_singleton.1 ht, hsa]
      exact mem_cons_self
    · exact mem_of_mem_tail ht
  have hnodup := disjoint_of_nodup_append (Pooler.nodup_objects c)
  cases i with
  | cluster =>
    cases j with
    | cluster => exact absurd rfl hij
    | pooler => exact fun ht' => hnodup (hcluster t ht) ht'
  | pooler =>
    cases j with
    | cluster => exact fun ht' => hnodup (hcluster t ht') ht
    | pooler => exact absurd rfl hij

/-- A call keeps the clusters of the fleet, their status apart. -/
theorem Fleet.call (hf : Fleet cs w.objects) (hx : x.cluster ∈ cs) :
    Fleet cs (x.run T r w).objects := by
  refine ⟨hf.live, hf.distinct, hf.apart, fun d hd => ?_⟩
  obtain ⟨st, v, hget⟩ := hf.stored d hd
  have he := (call_effect T r hf hx).1
  obtain ⟨i, c, es⟩ := x
  by_cases hkey : d.key = c.key
  · obtain rfl := hf.distinct d hd c hx hkey
    cases i with
    | cluster => exact Cluster.evolves_cluster (c := d.withStatus st v) he hget
    | pooler => exact ⟨st, v, (he.get_eq rfl id id).trans hget⟩
  · refine ⟨st, v, (get_eq_of_policy he ?_ ?_).trans hget⟩
    · exact cluster_not_mem_targets
    · exact fun h => hkey (congrArg Prod.snd h)

private theorem settled_call (hf : Fleet cs w.objects) (hx : x.cluster ∈ cs) (hd : d ∈ cs)
    (hs : ∀ t ∈ j.targets d, Settled (j.policy d) w.objects t.1 t.2) :
    ∀ t ∈ j.targets d, Settled (j.policy d) (x.run T r w).objects t.1 t.2 := by
  rintro ⟨k, n⟩ ht
  have he := (call_effect T r hf hx).1
  by_cases hsame : d = x.cluster ∧ j = x.controller
  · obtain ⟨rfl, rfl⟩ := hsame
    exact (hs _ ht).evolves he
  · obtain ⟨o, ho, hfix⟩ := hs _ ht
    refine ⟨o, (get_eq_of_policy he ?_ ?_).trans ho, hfix⟩
    · by_cases hdx : d = x.cluster
      · rw [← hdx]
        exact targets_apart (fun hj => hsame ⟨hdx, hj⟩) ht
      · exact hf.apart d hd x.cluster hx hdx j x.controller _ ht
    · exact fun h => cluster_not_mem_targets (h ▸ ht)

/-- What every call keeps, calls in any order keep. -/
theorem Fleet.calls (hf : Fleet cs w.objects) {calls : List Turn}
    (hcalls : ∀ x ∈ calls, x.cluster ∈ cs) (I : Store → Prop) (hI : I w.objects)
    (hcall : ∀ (w : World) (x : Turn), Fleet cs w.objects → x.cluster ∈ cs → I w.objects →
      I (x.run T r w).objects) :
    Fleet cs (runCalls T r calls w).objects ∧ I (runCalls T r calls w).objects := by
  induction calls generalizing w with
  | nil => exact ⟨hf, hI⟩
  | cons x calls ih =>
    obtain ⟨hx, hcalls⟩ := forall_mem_cons.1 hcalls
    exact ih (hf.call hx) hcalls (hcall w x hf hx hI)

end

/-- A fleet converges whatever the order of the calls. Calls of the two controllers for live
clusters that share no object may come in any order and fail at any request. After a call in which
nothing fails and the controller has something to do for the cluster, the objects of that
controller for that cluster are as desired, and stay so through all later calls. -/
theorem fleet_converges (T : RuneTables) (r : PostgresClusterReconciler)
    (cs : List PostgresCluster) (w : World) (hf : Fleet cs w.objects) (before after : List Turn)
    (x : Turn) (hcalls : ∀ y ∈ before ++ x :: after, y.cluster ∈ cs)
    (hclean : ∀ e ∈ x.ambients, e.Clean) (hactive : x.controller.Active x.cluster) :
    let done := (runCalls T r (before ++ x :: after) w).objects
    Fleet cs done ∧ ∀ t ∈ x.controller.targets x.cluster,
      Settled (x.controller.policy x.cluster) done t.1 t.2 := by
  intro done
  obtain ⟨hbefore, hx, hafter⟩ : (∀ y ∈ before, y.cluster ∈ cs) ∧ x.cluster ∈ cs ∧
      ∀ y ∈ after, y.cluster ∈ cs := by simpa [or_imp, forall_and] using hcalls
  have hmid : Fleet cs (runCalls T r before w).objects :=
    (hf.calls hbefore (fun _ => True) trivial fun _ _ _ _ h => h).1
  have hsettled := (call_effect T r hmid hx).2 hclean hactive
  have hdone : done = (runCalls T r after (x.run T r (runCalls T r before w))).objects :=
    congrArg World.objects foldl_append
  rw [hdone]
  exact (hmid.call hx).calls hafter (fun s => ∀ t ∈ x.controller.targets x.cluster,
    Settled (x.controller.policy x.cluster) s t.1 t.2) hsettled
    fun w y hw hy => settled_call hw hy hx

/-- A cluster with a pooler, just created. -/
def samplePooled : PostgresCluster :=
  { Cluster.sampleCluster with
    metadata := { Cluster.sampleCluster.metadata with
      annotations := mapOf [(lit "pg.athos.io/enable-pooler", lit "true")] } }

/-- Another cluster, without one. -/
def samplePlain : PostgresCluster :=
  { Cluster.sampleCluster with
    metadata := { Cluster.sampleCluster.metadata with
      name := lit "shop", uid := uidAt 2, resourceVersion := 2 } }

/-- The API server with both clusters. -/
def sampleFleet : World :=
  { Cluster.sampleWorld with
    objects := (Store.empty.put samplePooled (by decide)).put samplePlain (by decide)
    revision := 2 }

/-- The pooler of one cluster is settled between calls for both, some of which fail. -/
theorem fleet_converges_samplePooled :
    let done := (runCalls .basic {}
      ([⟨.cluster, samplePooled, [{ fault := some .conflict }]⟩, ⟨.cluster, samplePlain, []⟩] ++
        ⟨.pooler, samplePooled, []⟩ ::
          [⟨.cluster, samplePlain, [{ fault := some .conflict }]⟩, ⟨.cluster, samplePooled, []⟩])
      sampleFleet).objects
    Fleet [samplePooled, samplePlain] done ∧ ∀ t ∈ Pooler.targets samplePooled,
      Settled (Pooler.policy samplePooled) done t.1 t.2 := by
  have hdistinct : samplePooled.key ≠ samplePlain.key := by decide
  have hpair {P : PostgresCluster → Prop} :
      (∀ c ∈ [samplePooled, samplePlain], P c) ↔ P samplePooled ∧ P samplePlain := by
    rw [forall_mem_cons, forall_mem_singleton]
  have hfleet : Fleet [samplePooled, samplePlain] sampleFleet.objects := by
    refine ⟨?_, ?_, ?_, ?_⟩ <;> simp only [hpair]
    · exact ⟨⟨rfl, rfl, by decide⟩, ⟨rfl, rfl, by decide⟩⟩
    · exact ⟨⟨fun _ => trivial, fun h => absurd h hdistinct⟩,
        fun h => absurd h.symm hdistinct, fun _ => trivial⟩
    · refine ⟨⟨fun h => absurd rfl h, fun _ => ?_⟩, fun _ => ?_, fun h => absurd rfl h⟩
      · rintro (_ | _) (_ | _) <;> decide +kernel
      · rintro (_ | _) (_ | _) <;> decide +kernel
    · refine ⟨⟨samplePooled.status, samplePooled.metadata.resourceVersion, ?_⟩,
        samplePlain.status, samplePlain.metadata.resourceVersion, Store.get_put_self _ (by decide)⟩
      exact (Store.get_put_of_ne _ (by decide) (by decide)).trans
        (Store.get_put_self _ (by decide))
  exact fleet_converges .basic {} [samplePooled, samplePlain] sampleFleet hfleet
    [⟨.cluster, samplePooled, [{ fault := some .conflict }]⟩, ⟨.cluster, samplePlain, []⟩]
    [⟨.cluster, samplePlain, [{ fault := some .conflict }]⟩, ⟨.cluster, samplePooled, []⟩]
    ⟨.pooler, samplePooled, []⟩ (by simp) (forall_mem_nil _) ⟨rfl, rfl, by decide +kernel⟩

end Athos.Operator
