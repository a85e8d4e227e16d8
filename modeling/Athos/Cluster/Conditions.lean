import Athos.Cluster.Convergence

/-!
# What a reconcile makes of the conditions it finds

Each branch of `updateStatus` sets some conditions and leaves the others, and the pause branch sets
one that nothing ever sets back. One call is summed up in `Effect`.
-/

namespace Athos.Cluster

open Base Base.Prog Kube Api Postgres Option

/-- The status of the cluster does not matter for its instances. -/
theorem readyIn_withStatus (w : World) (c : PostgresCluster) (st : PostgresClusterStatus)
    (v : Nat) :
    readyIn w (c.withStatus st v) = readyIn w c := rfl

/-- No fewer than zero instances are ready. -/
theorem readyIn_nonneg (w : World) (c : PostgresCluster) : 0 ≤ readyIn w c := by
  unfold readyIn
  cases w.objects.get .statefulSet (statefulSetKey c) with
  | none => exact Int.le_refl 0
  | some sts =>
    simp only [map_some, getD_some, readyCount]
    split <;> omega

/-- What a call of `Reconcile` does to the status of its cluster, unless it is paused. -/
structure Effect (key : NamespacedName) (x : Call (Result × Option GoError) World) : Prop where
  kept : ∀ c', x.after.objects.get .postgresCluster key = some c' →
    ∃ c, x.before.objects.get .postgresCluster key = some c ∧ (c.spec.paused = false →
      ¬ (Live c ∧ x.result.2 = none) → c'.status = c.status ∨ Bootstrapped c c'.status)
  reported : ∀ c, x.before.objects.get .postgresCluster key = some c → Live c →
    x.result.2 = none →
    ∃ st v, x.after.objects.get .postgresCluster key = some (c.withStatus st v) ∧
      ReportedOn c (readyIn x.after c) (bootMarks c) st

/-- What a call does to the status of its cluster. -/
theorem wp_reconcile_effect (T : RuneTables) (r : PostgresClusterReconciler)
    (key : NamespacedName) (w : World) :
    wp (within Ambient.Honest) (reconcile T r key) (fun res w' => Effect key ⟨w, res, w'⟩) w := by
  refine wp_mono (within_monotone _) (wp_reconcile_cases T r key w) ?_
  rintro res w' (⟨hsame, hnone⟩ | ⟨c, rfl, hget, hb⟩)
  · refine ⟨fun c' hc' => ⟨c', hsame ▸ hc', fun _ _ => .inl rfl⟩, fun c hc _ hres => ?_⟩
    exact absurd ((hnone hres not_faults_honest).symm.trans hc) nofun
  have hfound : ∀ {c'}, w.objects.get .postgresCluster c.key = some c' → c' = c :=
    fun hc' => some.inj (hc'.symm.trans hget)
  cases hb with
  | paused hp _ =>
    have hp' : c.spec.paused ≠ false := by simp [hp]
    refine ⟨fun c' _ => ⟨c, hget, fun h => absurd h hp'⟩, fun c' hc' hl => ?_⟩
    rw [hfound hc'] at hl
    exact absurd hl.notPaused hp'
  | finalizers hl h =>
    refine ⟨fun c' hc' => ⟨c, hget, fun _ _ => .inl (h.cluster hc').2.1⟩, fun c' hc' hl' => ?_⟩
    rw [hfound hc'] at hl'
    exact absurd hl' hl
  | live hl _ hu =>
    have hu := hu not_faults_honest
    refine ⟨fun c' hc' => ⟨c, hget, fun _ hnot => ?_⟩, fun c' hc' _ hres => ?_⟩
    · obtain ⟨st, v, hst, hcase⟩ := hu.failed fun hres => hnot ⟨hl, hres⟩
      rw [show c' = c.withStatus st v from some.inj (hc'.symm.trans hst)]
      exact hcase
    · rw [hfound hc']
      exact hu.succeeded hres

end Athos.Cluster
