import Athos.Cluster.Convergence
import Athos.Cluster.Upgrade
import Athos.Cluster.Webhook
import Mathlib.Logic.Relation

/-!
# Version changes over whole runs

Users submit new specs that the webhook admits, the controller reconciles, in any order. Nothing on
this path asks the upgrade policy of `src/internal/upgrade/upgrade.go`, so a version change is a
legal upgrade exactly as far as the submitted specs see to it.
-/

namespace Athos.Cluster

open Base Base.Prog Kube Api Postgres Option

/-- A StatefulSet whose database container has the image of a version. -/
def runsVersion (sts : StatefulSet) (v : Int) : Bool :=
  sts.spec.template.spec.containers.any fun c =>
    c.name == lit "postgres" && c.image == postgresImageTag v

/-- The StatefulSet under a key runs a version. -/
def serves (s : Store) (n : NamespacedName) (v : Int) : Bool :=
  (s.get .statefulSet n).any (runsVersion · v)

private theorem serves_iff {s : Store} {n : NamespacedName} {v : Int} :
    serves s n v = true ↔ ∃ sts, s.get .statefulSet n = some sts ∧ runsVersion sts v = true := by
  simp only [serves, Option.any_eq_true]

private theorem runsVersion_congr {sts sts' : StatefulSet}
    (h : sts'.spec.template = sts.spec.template)
    (v : Int) : runsVersion sts' v = runsVersion sts v := by
  rw [runsVersion, h, runsVersion]

private theorem runsVersion_buildStatefulSet (c : PostgresCluster) (v : Int) :
    runsVersion (buildStatefulSet c) v = true ↔ v = c.spec.postgresVersion := by
  have hpg : (postgresContainer c).name = lit "postgres" := rfl
  have hcontainers : (buildStatefulSet c).spec.template.spec.containers = podContainers c := rfl
  have himage : (postgresContainer c).image = postgresImageTag c.spec.postgresVersion := rfl
  have hmetrics : ∀ port, (metricsContainer c port).name ≠ lit "postgres" := fun _ => by
    show lit "metrics" ≠ lit "postgres"
    decide
  rw [runsVersion, hcontainers, List.any_eq_true]
  constructor
  · rintro ⟨x, hx, h⟩
    rw [Bool.and_eq_true, beq_iff_eq, beq_iff_eq] at h
    rcases List.mem_cons.1 hx with rfl | hx
    · exact (postgresImageTag_injective (himage.symm.trans h.2)).symm
    · split at hx
      · split at hx
        · rw [List.mem_singleton.1 hx] at h
          exact absurd h.1 (hmetrics _)
        · cases hx
      · cases hx
  · rintro rfl
    exact ⟨postgresContainer c, List.mem_cons_self, by rw [hpg, himage]; simp⟩

/-- What a reconcile of any cluster may do to the pod template and to the cluster's spec. -/
structure Follows (n : NamespacedName) (s s' : Store) : Prop where
  statefulSet : ∀ {sts'}, s'.get .statefulSet n = some sts' →
    (∃ sts, s.get .statefulSet n = some sts ∧ sts'.spec.template = sts.spec.template) ∨
      ∃ c, s.get .postgresCluster n = some c ∧
        sts'.spec.template = (buildStatefulSet c).spec.template
  cluster : ∀ {c'}, s'.get .postgresCluster n = some c' →
    ∃ c, s.get .postgresCluster n = some c ∧ c'.spec = c.spec ∧
      c'.metadata.annotations = c.metadata.annotations

namespace Follows

variable {n : NamespacedName} {s s' : Store} {c : PostgresCluster}

private theorem refl (n : NamespacedName) (s : Store) : Follows n s s :=
  ⟨fun h => .inl ⟨_, h, rfl⟩, fun h => ⟨_, h, rfl, rfl⟩⟩

private theorem of_evolves (hget : s.get .postgresCluster c.key = some c)
    (he : Evolves (policy c) s s') : Follows c.key s s' where
  statefulSet {sts'} h' := by
    have hm : (policy c).managed .statefulSet c.key =
      some (manageStatefulSet (buildStatefulSet c).spec) := managed_statefulSet c
    cases hs : s.get .statefulSet c.key with
    | some sts =>
      obtain ⟨o, ho, hd⟩ := he.existing hs
      rw [h', some.injEq] at ho
      subst ho
      rw [Policy.Drift, hm] at hd
      obtain ⟨v, g, rfl | rfl⟩ := hd
      · exact .inl ⟨sts, rfl, rfl⟩
      · exact .inr ⟨c, hget, rfl⟩
    | none =>
      rcases he.absent hs with hnone | ⟨o, ho, ha⟩
      · rw [hnone] at h'
        cases h'
      · rw [h', some.injEq] at ho
        subst ho
        exact .inr ⟨c, hget, (congrArg StatefulSetSpec.template (ha.2 _ hm).symm :)⟩
  cluster {c'} h' := by
    obtain ⟨st, v, hget'⟩ := evolves_cluster he hget
    rw [h', some.injEq] at hget'
    subst hget'
    exact ⟨c, hget, rfl, rfl⟩

end Follows

private theorem follows_reconcile (T : RuneTables) (r : PostgresClusterReconciler)
    (n : NamespacedName) (w : World) :
    wp (within fun _ => True) (reconcile T r n) (fun _ w' => Follows n w.objects w'.objects) w := by
  refine wp_mono (within_monotone _) (wp_reconcile_cases T r n w) ?_
  rintro res w' (⟨hsame, -⟩ | ⟨c, rfl, hget, hb⟩)
  · rw [hsame]
    exact .refl _ _
  cases hb with
  | paused _ h => exact .of_evolves hget (h.evolves hget)
  | finalizers _ h =>
    refine ⟨fun h' => ?_, fun h' => ⟨c, hget, (h.cluster h').1, (h.cluster h').2.2⟩⟩
    rw [h.other .statefulSet _ (by simp)] at h'
    exact .inl ⟨_, h', rfl⟩
  | live _ he _ => exact .of_evolves hget he

/-- A user submits a new version of the cluster: the webhook sets the defaults and validates
the result, and the API server stores it. -/
def submit (T : RuneTables) (new : PostgresCluster) (w : World) : Option World :=
  match w.objects.get .postgresCluster new.key with
  | none => none
  | some old =>
    if validateUpdate T (setDefaults new) old = [] then
      match w.update (setDefaults new) with
      | (.ok _, w') => some w'
      | (.error _, _) => none
    else none

/-- Submissions that meet a condition and reconciles, whether or not they succeed. -/
inductive Step (T : RuneTables) (r : PostgresClusterReconciler) (n : NamespacedName)
    (G : World → PostgresCluster → Prop) : World → World → Prop
  | submit {w w' : World} (new : PostgresCluster) :
    new.key = n → G w (setDefaults new) → submit T new w = some w' → Step T r n G w w'
  | reconcile {w : World} (es : List Ambient) :
    Step T r n G w (run serve (reconcile T r n) es w).2

/-- The spec keeps the version that runs, or asks for a higher one and approves the upgrade. -/
def Authorised (n : NamespacedName) (w : World) (c : PostgresCluster) : Prop :=
  ∀ v, serves w.objects n v = true → v = c.spec.postgresVersion ∨
    v < c.spec.postgresVersion ∧ majorUpgradeApproved c = true

/-- What holds between the stored cluster and the StatefulSet along authorised runs. -/
structure VersionInvariant (n : NamespacedName) (w : World) : Prop where
  unique : ∀ {v u}, serves w.objects n v = true → serves w.objects n u = true → v = u
  supported : ∀ {c}, w.objects.get .postgresCluster n = some c →
    14 ≤ c.spec.postgresVersion ∧ c.spec.postgresVersion ≤ 17
  authorised : ∀ {c}, w.objects.get .postgresCluster n = some c → Authorised n w c

section

variable {T : RuneTables} {r : PostgresClusterReconciler} {n : NamespacedName} {w w' : World}

private theorem Follows.serves_cases (h : Follows n w.objects w'.objects) :
    (∀ u, serves w'.objects n u = true → serves w.objects n u = true) ∨
      ∃ c, w.objects.get .postgresCluster n = some c ∧
        ∀ u, serves w'.objects n u = true → u = c.spec.postgresVersion := by
  cases hsts' : w'.objects.get .statefulSet n with
  | none =>
    left
    intro u hu
    rw [serves, hsts'] at hu
    cases hu
  | some sts' =>
    have hserves : ∀ u, serves w'.objects n u = runsVersion sts' u := fun u => by
      rw [serves, hsts', any_some]
    rcases h.statefulSet hsts' with ⟨sts, hsts, ht⟩ | ⟨c, hc, ht⟩
    · left
      intro u hu
      rw [hserves, runsVersion_congr ht] at hu
      exact serves_iff.2 ⟨sts, hsts, hu⟩
    · refine .inr ⟨c, hc, fun u hu => ?_⟩
      rw [hserves, runsVersion_congr ht] at hu
      exact (runsVersion_buildStatefulSet c u).1 hu

private theorem VersionInvariant.follows (hi : VersionInvariant n w)
    (h : Follows n w.objects w'.objects) : VersionInvariant n w' where
  unique {v u} hv hu := by
    rcases h.serves_cases with hs | ⟨c, -, hs⟩
    · exact hi.unique (hs v hv) (hs u hu)
    · exact (hs v hv).trans (hs u hu).symm
  supported hc' := by
    obtain ⟨c, hc, hspec, -⟩ := h.cluster hc'
    rw [hspec]
    exact hi.supported hc
  authorised {c'} hc' v hv := by
    obtain ⟨c, hc, hspec, hann⟩ := h.cluster hc'
    rw [hspec, majorUpgradeApproved, hann, ← majorUpgradeApproved]
    rcases h.serves_cases with hs | ⟨c₁, hc₁, hs⟩
    · exact hi.authorised hc v (hs v hv)
    · rw [hc, some.injEq] at hc₁
      rw [hc₁]
      exact .inl (hs v hv)

private theorem VersionInvariant.submit (hi : VersionInvariant n w) {new : PostgresCluster}
    (hkey : new.key = n) (ha : Authorised n w (setDefaults new))
    (h : submit T new w = some w') : VersionInvariant n w' := by
  unfold Cluster.submit at h
  cases hold : w.objects.get .postgresCluster new.key with
  | none =>
    rw [hold] at h
    cases h
  | some old =>
    simp only [hold] at h
    split at h
    · next hvalid =>
      have hw' : w' = (w.update (setDefaults new)).2 := by
        split at h
        · next heq =>
          rw [heq]
          exact (some.inj h).symm
        · cases h
      have hnew : (setDefaults new).key = n := hkey
      rcases w.update_effect (setDefaults new) with hsame | ⟨cur, hcur, hother, hres⟩
      · rw [hw', hsame]
        exact hi
      rw [← hw', hnew] at hother hres
      have hserves : ∀ u, serves w'.objects n u = serves w.objects n u := fun u => by
        rw [serves, hother .statefulSet n (by simp), serves]
      have hstored : ∀ {c'}, w'.objects.get .postgresCluster n = some c' →
          c'.spec = (setDefaults new).spec ∧
            c'.metadata.annotations = (setDefaults new).metadata.annotations := by
        intro c' hc'
        rcases hres with hnone | ⟨v, g, hsome⟩
        · rw [hnone] at hc'
          cases hc'
        · rw [hsome, some.injEq] at hc'
          rw [← hc']
          exact ⟨rfl, rfl⟩
      refine ⟨fun {v u} hv hu => ?_, fun hc' => ?_, fun {c'} hc' v hv => ?_⟩
      · rw [hserves] at hv hu
        exact hi.unique hv hu
      · rw [(hstored hc').1]
        exact version_of_validate hvalid
      · rw [hserves] at hv
        rw [(hstored hc').1, majorUpgradeApproved, (hstored hc').2, ← majorUpgradeApproved]
        exact ha v hv
    · cases h

/-- Authorised runs keep the invariant. -/
theorem VersionInvariant.run {w₀ : World} (h₀ : VersionInvariant n w₀)
    (hrun : Relation.ReflTransGen (Step T r n (Authorised n)) w₀ w) : VersionInvariant n w := by
  induction hrun with
  | refl => exact h₀
  | tail _ hstep ih =>
    cases hstep with
    | submit new hkey hauth hsub => exact ih.submit hkey hauth hsub
    | reconcile es => exact ih.follows (run_of_wp_any (follows_reconcile T r n _) es)

private theorem serves_of_reconcile {c : PostgresCluster} (hlive : Live c)
    (hget : w.objects.get .postgresCluster c.key = some c) :
    (Prog.run serve (reconcile T r c.key) [] w).1.2 = none ∧
      serves (Prog.run serve (reconcile T r c.key) [] w).2.objects c.key
        c.spec.postgresVersion = true := by
  have hclean : ∀ e ∈ ([] : List Ambient), e.Clean := fun _ h => nomatch h
  have hget' : w.objects.get .postgresCluster c.key =
    some (c.withStatus c.status c.metadata.resourceVersion) := hget
  obtain ⟨-, hsmooth⟩ := run_of_wp (by decide) (wp_reconcile (T := T) (r := r) hlive hget') hclean
  obtain ⟨hres, hconv⟩ := hsmooth smooth_clean
  obtain ⟨sts, hsts, hfix⟩ := hconv.settled _ (statefulSet_mem_targets c)
  refine ⟨by rw [hres], serves_iff.2 ⟨sts, hsts, ?_⟩⟩
  have ht : sts.spec.template = (buildStatefulSet c).spec.template :=
    (congrArg StatefulSetSpec.template (hfix _ (managed_statefulSet c)).symm :)
  rw [runsVersion_congr ht]
  exact (runsVersion_buildStatefulSet c _).2 rfl

/-- Take any run of submissions and reconciles that starts with a valid cluster and no
StatefulSet, in which every submitted spec keeps the version that runs, or raises it and
carries the approval. Whenever a reconcile then changes the version that runs, the change is
an upgrade that `classify` accepts and that the cluster approves. -/
theorem version_change_authorised (T : RuneTables) (r : PostgresClusterReconciler)
    (n : NamespacedName) {w₀ w : World} (hsts : w₀.objects.get .statefulSet n = none)
    (hvalid : ∀ c, w₀.objects.get .postgresCluster n = some c → validateCreate T c = [])
    (hrun : Relation.ReflTransGen (Step T r n (Authorised n)) w₀ w) (es : List Ambient)
    {v u : Int} (hv : serves w.objects n v = true)
    (hu : serves (run serve (reconcile T r n) es w).2.objects n u = true) (hne : v ≠ u) :
    ∃ c, w.objects.get .postgresCluster n = some c ∧ v < u ∧
      classify c v = .ok ⟨.major, v, u⟩ ∧ majorUpgradeApproved c = true := by
  have hnone : ∀ x, serves w₀.objects n x = false := fun x => by rw [serves, hsts, any_none]
  have h₀ : VersionInvariant n w₀ := by
    refine ⟨fun h => ?_, fun hc => version_of_validate (hvalid _ hc), fun _ x h => ?_⟩ <;>
      (rw [hnone] at h; cases h)
  have hi := h₀.run hrun
  have hf := run_of_wp_any (follows_reconcile T r n w) es
  rcases hf.serves_cases with hs | ⟨c, hc, hs⟩
  · exact absurd (hi.unique hv (hs u hu)) hne
  · have hcu := hs u hu
    rcases hi.authorised hc v hv with heq | ⟨hlt, happ⟩
    · exact absurd (heq.trans hcu.symm) hne
    · refine ⟨c, hc, hcu ▸ hlt, ?_, happ⟩
      rw [hcu]
      exact classify_of_lt (hi.supported hc).1 (hi.supported hc).2 hlt

end

/-- The sample cluster after its first reconcile. -/
def sampleReconciled : World :=
  (run serve (reconcile .basic {} sampleCluster.key) [] sampleWorld).2

/-- A request for another version of the reconciled sample cluster. -/
def sampleRequest (version : Int) (annotations : StringMap) : PostgresCluster :=
  { sampleCluster with
    metadata := { sampleCluster.metadata with resourceVersion := 11, annotations := annotations }
    spec := { sampleCluster.spec with postgresVersion := version } }

private theorem serves_sampleReconciled {v : Int}
    (h : serves sampleReconciled.objects sampleCluster.key v = true) : v = 16 := by
  have hf : Follows sampleCluster.key sampleWorld.objects sampleReconciled.objects :=
    run_of_wp_any (follows_reconcile .basic {} _ sampleWorld) []
  rcases hf.serves_cases with hs | ⟨c, hc, hs⟩
  · cases hs v h
  · cases hc
    exact hs v h

/-- The sample cluster after a submission. -/
def sampleSubmitted (version : Int) (annotations : StringMap) : World :=
  (submit .basic (sampleRequest version annotations) sampleReconciled).getD sampleReconciled

private theorem sampleSubmitted_reachable {G : World → PostgresCluster → Prop} {version : Int}
    {annotations : StringMap}
    (hg : G sampleReconciled (setDefaults (sampleRequest version annotations)))
    (hs : (submit .basic (sampleRequest version annotations) sampleReconciled).isSome = true) :
    Relation.ReflTransGen (Step .basic {} sampleCluster.key G) sampleWorld
      (sampleSubmitted version annotations) := by
  have h₁ : Step .basic {} sampleCluster.key G sampleWorld sampleReconciled := .reconcile []
  have hsub : submit .basic (sampleRequest version annotations) sampleReconciled =
      some (sampleSubmitted version annotations) := by
    obtain ⟨w', hw'⟩ := isSome_iff_exists.1 hs
    rw [sampleSubmitted, hw', getD_some]
  have h₂ : Step .basic {} sampleCluster.key G sampleReconciled
      (sampleSubmitted version annotations) :=
    .submit (sampleRequest version annotations) rfl hg hsub
  exact (Relation.ReflTransGen.single h₁).tail h₂

private theorem sampleSubmitted_cluster (version : Int) (annotations : StringMap)
    (h : ((sampleSubmitted version annotations).objects.get .postgresCluster
      sampleCluster.key).any (fun c => c.spec.postgresVersion == version && !c.spec.paused &&
        c.metadata.deletionTimestamp.isNone &&
        containsFinalizer c.metadata postgresClusterFinalizer) = true) :
    ∃ c, Live c ∧ c.key = sampleCluster.key ∧ c.spec.postgresVersion = version ∧
      (sampleSubmitted version annotations).objects.get .postgresCluster c.key = some c := by
  obtain ⟨c, hget, hc⟩ := Option.any_eq_true _ _ |>.1 h
  simp only [Bool.and_eq_true, beq_iff_eq, Bool.not_eq_true', isNone_iff_eq_none] at hc
  have hkey : c.key = sampleCluster.key := (sampleSubmitted version annotations).objects.keyed hget
  exact ⟨c, ⟨hc.1.1.2, hc.1.2, hc.2⟩, hkey, hc.1.1.1, hkey ▸ hget⟩

/-- Without a condition on the submitted specs a cluster is downgraded: the webhook admits
version 15 after 16, and the next reconcile, which succeeds, changes the image. -/
theorem version_downgrade_sampleCluster :
    Relation.ReflTransGen (Step .basic {} sampleCluster.key fun _ _ => True) sampleWorld
        (sampleSubmitted 15 ∅) ∧
      (run serve (reconcile .basic {} sampleCluster.key) [] (sampleSubmitted 15 ∅)).1.2 = none ∧
      serves (sampleSubmitted 15 ∅).objects sampleCluster.key 16 = true ∧
      serves (run serve (reconcile .basic {} sampleCluster.key) []
        (sampleSubmitted 15 ∅)).2.objects sampleCluster.key 15 = true := by
  obtain ⟨c, hlive, hkey, hversion, hget⟩ :=
    sampleSubmitted_cluster 15 ∅ (by decide +kernel)
  obtain ⟨hok, hserves⟩ := serves_of_reconcile (T := .basic) (r := {}) hlive hget
  rw [hkey] at hok hserves
  rw [hversion] at hserves
  exact ⟨sampleSubmitted_reachable trivial (by decide +kernel), hok, by decide +kernel, hserves⟩

/-- An upgrade that is approved by annotation. -/
theorem version_upgrade_sampleCluster :
    ∃ c, (sampleSubmitted 17 (mapOf [(annotationUpgradeApproved, lit "true")])).objects.get
        .postgresCluster sampleCluster.key = some c ∧ (16 : Int) < 17 ∧
      classify c 16 = .ok ⟨.major, 16, 17⟩ ∧ majorUpgradeApproved c = true := by
  have hvalid : ∀ c, sampleWorld.objects.get .postgresCluster sampleCluster.key = some c →
      validateCreate .basic c = [] := by
    intro c hc
    cases hc
    decide +kernel
  have hauth : Authorised sampleCluster.key sampleReconciled (setDefaults
      (sampleRequest 17 (mapOf [(annotationUpgradeApproved, lit "true")]))) := by
    intro v hv
    rw [serves_sampleReconciled hv]
    right
    decide +kernel
  have hrun := sampleSubmitted_reachable hauth (by decide +kernel)
  obtain ⟨c, hlive, hkey, hversion, hget⟩ := sampleSubmitted_cluster 17
    (mapOf [(annotationUpgradeApproved, lit "true")]) (by decide +kernel)
  have hserves := (serves_of_reconcile (T := .basic) (r := {}) hlive hget).2
  rw [hkey, hversion] at hserves
  have hsts : sampleWorld.objects.get .statefulSet sampleCluster.key = none := rfl
  exact version_change_authorised .basic {} sampleCluster.key hsts hvalid hrun []
    (by decide +kernel) hserves (by decide)

end Athos.Cluster
