import Athos.Cluster.Convergence
import Athos.Pooler.Steps

/-!
# Objects of others

What a reconcile by the cluster or the pooler controller does to objects that exist already. Neither
controller looks at the owner references of an object it finds under one of its names: its managed
fields are written whoever controls it, and everything else about it is kept.
-/

namespace Athos.Operator

open Base Base.Prog Kube Api Postgres Cluster

/-- The kinds that the two controllers update. -/
def updatedKinds : List Kind :=
  [.configMap, .statefulSet, .service, .deployment, .podDisruptionBudget]

/-- An object without a controller, or with another one than the cluster. -/
def Foreign {k : Kind} (c : PostgresCluster) (o : Object k) : Prop :=
  ∀ ref, controllerOf o.metadata = some ref → ref.uid ≠ c.metadata.uid

/-- One object became the other by writes of managed fields: everything else but its version
numbers is as it was. -/
def Rewritten {k : Kind} (m : Spec k → Spec k) (o o' : Object k) : Prop :=
  ∃ v g, o' = o.versioned v g ∨ o' = (o.mapSpec m).versioned v g

/-- Objects other than clusters stay, and change along the policy only. -/
def Confined (P : Policy) (s s' : Store) : Prop :=
  ∀ {k n o}, k ≠ .postgresCluster → s.get k n = some o →
    ∃ o', s'.get k n = some o' ∧ P.Drift k n o o'

/-- How an object that exists may come out of a reconcile of a cluster. -/
def Outcome (w : World) (req : NamespacedName)
    (managed : PostgresCluster → (k : Kind) → NamespacedName → Option (Spec k → Spec k))
    {k : Kind} (n : NamespacedName) (o : Object k) (w' : World) : Prop :=
  ∃ o', w'.objects.get k n = some o' ∧
    (o' = o ∨ ∃ c m, w.objects.get .postgresCluster req = some c ∧ managed c k n = some m ∧
      Rewritten m o o')

section

variable {P : Policy} {s s' : Store} {n : NamespacedName}

private theorem confined_of_sameExcept (h : s.SameExcept s' .postgresCluster n) :
    Confined P s s' := by
  intro k n' o hk ho
  refine ⟨o, ?_, .refl o⟩
  rw [h k n' fun he => hk (congrArg Prod.fst he)]
  exact ho

private theorem Confined.outcome {w w' : World} {req : NamespacedName} {c : PostgresCluster}
    {managed : PostgresCluster → (k : Kind) → NamespacedName → Option (Spec k → Spec k)}
    {k : Kind} {o : Object k} (h : Confined P w.objects w'.objects)
    (hrep : ∀ k n, P.reported k n → k = .postgresCluster) (hm : P.managed k n = managed c k n)
    (hget : w.objects.get .postgresCluster req = some c) (hk : k ≠ .postgresCluster)
    (ho : w.objects.get k n = some o) : Outcome w req managed n o w' := by
  obtain ⟨o', ho', hd⟩ := h hk ho
  refine ⟨o', ho', ?_⟩
  rw [Policy.Drift, hm] at hd
  cases hmanaged : managed c k n with
  | none =>
    rw [hmanaged] at hd
    exact .inl (hd.resolve_right fun hr => hk (hrep k n hr.1))
  | some m =>
    rw [hmanaged] at hd
    exact .inr ⟨c, m, hget, hmanaged, hd⟩

end

/-- A reconcile by either controller, with requests that fail anywhere, keeps every ConfigMap,
StatefulSet, Service, Deployment and PodDisruptionBudget that exists. It changes only those
under a name built for the cluster, and of these only the managed fields and the version
numbers: labels, owner references, status and all other fields are kept, whoever controls the
object. -/
theorem reconcile_existing (T : RuneTables) (r : PostgresClusterReconciler) (w : World)
    (req : NamespacedName) (es : List Ambient) {k : Kind} (hk : k ∈ updatedKinds)
    {n : NamespacedName} {o : Object k} (ho : w.objects.get k n = some o) :
    Outcome w req managed n o (run serve (reconcile T r req) es w).2 ∧
      Outcome w req Pooler.managed n o (run serve (Pooler.reconcile req) es w).2 := by
  have hne : k ≠ .postgresCluster := by
    rintro rfl
    exact absurd hk (by decide)
  constructor
  · have hwp : wp (within fun _ => True) (reconcile T r req)
        (fun _ w' => Outcome w req managed n o w') w := by
      refine wp_mono (within_monotone _) (wp_reconcile_cases T r req w) ?_
      rintro _ w' (⟨hsame, -⟩ | ⟨c, rfl, hget, hb⟩)
      · exact ⟨o, hsame ▸ ho, .inl rfl⟩
      have hconf : Confined (policy c) w.objects w'.objects := by
        cases hb with
        | paused _ h => exact confined_of_sameExcept h.other
        | finalizers _ h => exact confined_of_sameExcept h.other
        | live _ he _ => exact fun _ ho => he.existing ho
      exact hconf.outcome (fun _ _ hr => hr.1) rfl hget hne ho
    exact run_of_wp_any hwp es
  · have hwp : wp (within fun _ => True) (Pooler.reconcile req)
        (fun _ w' => Outcome w req Pooler.managed n o w') w := by
      have hsame : ∀ t, Outcome w req Pooler.managed n o (w.advance t) := fun _ => ⟨o, ho, .inl rfl⟩
      refine wp_lookup (fun e _ _ t => ?_) (fun _ => hsame) fun c hget t => ?_
      · cases e <;> exact hsame t
      · refine wp_mono (within_monotone _) (Pooler.wp_reconcileFetched (w.advance t)) ?_
        intro _ w' h
        have hconf : Confined (Pooler.policy c) w.objects w'.objects :=
          fun _ ho => h.1.1.existing ho
        exact hconf.outcome (fun _ _ hr => hr.elim) rfl hget hne ho
    exact run_of_wp_any hwp es

/-- A ConfigMap of another controller that has the name of the sample cluster's. -/
def sampleForeign : ConfigMap where
  metadata :=
    { name := lit "db-config"
      namespace_ := lit "default"
      uid := uidAt 2
      resourceVersion := 2
      ownerReferences :=
        [⟨lit "apps/v1", lit "Deployment", lit "billing", lit "uid-billing", some true, none⟩] }
  spec := { data := mapOf [(lit "billing.conf", lit "on")] }
  status := Status.zero .configMap

/-- The sample cluster beside that ConfigMap. -/
def sampleWorld : World :=
  { Cluster.sampleWorld with
    objects := Cluster.sampleWorld.objects.put sampleForeign (by decide)
    revision := 2 }

private theorem sampleWorld_foreign :
    sampleWorld.objects.get .configMap sampleForeign.key = some sampleForeign :=
  Store.get_put_self _ (by decide)

/-- A ConfigMap that someone else created. -/
theorem reconcile_existing_sampleForeign :
    .configMap ∈ updatedKinds ∧
      sampleWorld.objects.get .configMap sampleForeign.key = some sampleForeign ∧
      Outcome sampleWorld Cluster.sampleCluster.key managed sampleForeign.key sampleForeign
        (run serve (reconcile .basic {} Cluster.sampleCluster.key) [] sampleWorld).2 :=
  ⟨by decide, sampleWorld_foreign, (reconcile_existing .basic {} sampleWorld
    Cluster.sampleCluster.key [] (by decide) sampleWorld_foreign).1⟩

/-- A ConfigMap that another controller owns is overwritten. -/
theorem reconcile_sampleForeign_overwritten :
    Foreign Cluster.sampleCluster sampleForeign ∧
      sampleWorld.objects.get .postgresCluster Cluster.sampleCluster.key =
        some Cluster.sampleCluster ∧
      sampleWorld.objects.get .configMap sampleForeign.key = some sampleForeign ∧
      (run serve (reconcile .basic {} Cluster.sampleCluster.key) [] sampleWorld).1.2 =
        none ∧
      ∃ o', (run serve (reconcile .basic {} Cluster.sampleCluster.key) []
          sampleWorld).2.objects.get .configMap sampleForeign.key = some o' ∧
        o'.spec.data ≠ sampleForeign.spec.data := by
  have hforeign : Foreign Cluster.sampleCluster sampleForeign := by
    intro ref href
    have hbilling : ref.uid = lit "uid-billing" := by
      cases href
      rfl
    rw [hbilling]
    decide
  have hget : sampleWorld.objects.get .postgresCluster Cluster.sampleCluster.key =
      some Cluster.sampleCluster := by
    refine (Store.get_put_of_ne _ (by decide) ?_).trans (Store.get_put_self _ (by decide))
    simp
  obtain ⟨hevolves, hsmooth⟩ := run_of_wp (by decide) (wp_reconcile (A := Ambient.Clean)
    (T := .basic) (r := {}) (v := Cluster.sampleCluster.metadata.resourceVersion)
    live_sampleCluster hget) (List.forall_mem_nil _)
  obtain ⟨hres, hconv⟩ := hsmooth smooth_clean
  obtain ⟨o', ho', hdata⟩ := (hconv.reconciled hevolves hget).configMap
  refine ⟨hforeign, hget, sampleWorld_foreign, by rw [hres], o', ho', ?_⟩
  intro heq
  have hlook := congrArg (fun d : StringMap => d[lit "pg_hba.conf"]?.isSome) (hdata.symm.trans heq)
  exact absurd hlook (by decide +kernel)

end Athos.Operator
