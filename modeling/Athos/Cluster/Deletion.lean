import Athos.Cluster.Convergence

/-!
# Deletion of clusters

What `Reconcile` does with a cluster whose deletion was requested. The pause branch comes first and
the branch that adds the finalizer second, so that only the third one releases the object.
-/

namespace Athos.Cluster

open Base Base.Prog Kube Api Postgres

/-- An update of the cluster whose finalizers contain the operator's. -/
def arms : Op → Bool
  | .update .postgresCluster o => containsFinalizer o.metadata postgresClusterFinalizer
  | _ => false

variable {T : RuneTables} {r : PostgresClusterReconciler} {A : Ambient → Prop}
  {c : PostgresCluster} {w : World}

private theorem calls_reconcilePaused : (reconcilePaused r c).Calls anyAnswer (arms · = false) := by
  unfold reconcilePaused
  split
  · refine .bind ⟨rfl, fun _ _ => trivial⟩ fun c => .bind ⟨rfl, fun _ _ => trivial⟩ fun res => ?_
    cases res with
    | error e => trivial
    | ok c =>
      refine .bind ?_ fun _ => trivial
      unfold recordEventf
      split
      · exact ⟨rfl, fun _ _ => trivial⟩
      · trivial
  · trivial

private theorem calls_reconcileDelete : (reconcileDelete c).Calls anyAnswer (arms · = false) := by
  refine .bind ⟨?_, fun _ _ => trivial⟩ fun res => by cases res <;> trivial
  show containsFinalizer (removeFinalizer c.metadata postgresClusterFinalizer) _ = false
  rw [containsFinalizer, List.contains_eq_mem, decide_eq_false_iff_not]
  exact fun h => (mem_removeFinalizer.1 h).2 rfl

private theorem reconcileFetched_of_paused (hp : c.spec.paused = true) :
    reconcileFetched T r c = reconcilePaused r c := if_pos hp

private theorem reconcileFetched_of_deleted (hp : c.spec.paused = false)
    (hf : containsFinalizer c.metadata postgresClusterFinalizer = true)
    (hd : c.metadata.deletionTimestamp.isSome = true) :
    reconcileFetched T r c = reconcileDelete c := by
  unfold reconcileFetched
  rw [hp, hf, hd, if_neg Bool.false_ne_true, if_neg (by decide), if_pos rfl]

private theorem not_arms_of_mem_trace (hget : w.objects.get .postgresCluster c.key = some c)
    (hdel : c.metadata.deletionTimestamp.isSome = true)
    (hscope : c.spec.paused = true ∨ containsFinalizer c.metadata postgresClusterFinalizer = true)
    {es : List Ambient} {x : (op : Op) × Res op}
    (hx : x ∈ trace serve (reconcile T r c.key) es w) : arms x.1 = false := by
  have hcalls : (reconcileFetched T r c).Calls anyAnswer (arms · = false) := by
    cases hp : c.spec.paused with
    | true =>
      rw [reconcileFetched_of_paused hp]
      exact calls_reconcilePaused
    | false =>
      rw [reconcileFetched_of_deleted hp (hscope.resolve_left (by simp [hp])) hdel]
      exact calls_reconcileDelete
  rcases mem_trace_get hx with hx | ⟨t, ⟨e, hx⟩ | hx⟩
  · rw [hx]
    rfl
  · cases e with
    | notFound | alreadyExists | conflict | invalid | other _ => cases hx
  · rw [World.read_of_some hget] at hx
    exact hcalls.of_mem (executes_trace ..) (fun _ _ => trivial) hx

/-- The stored object once the operator's finalizer is removed. -/
def released (c : PostgresCluster) (v : Nat) : Option PostgresCluster :=
  if (removeFinalizer c.metadata postgresClusterFinalizer).finalizers = [] then none
  else some { c with metadata := { removeFinalizer c.metadata postgresClusterFinalizer with
    resourceVersion := v } }

private theorem wp_reconcileDelete (hget : w.objects.get .postgresCluster c.key = some c)
    (hdel : c.metadata.deletionTimestamp.isSome = true) :
    wp (within Ambient.Clean) (reconcileDelete c) (fun res w' => res = ({}, none) ∧
      (∃ v, w'.objects.get .postgresCluster c.key = released c v) ∧
      w.objects.SameExcept w'.objects .postgresCluster c.key) w := by
  refine wp_update (fun e he => absurd he (not_faults_clean e)) fun t => ?_
  have hsub : (removeFinalizer c.metadata postgresClusterFinalizer).finalizers ⊆
      c.metadata.finalizers := fun f hf => (mem_removeFinalizer.1 hf).1
  have heq : (w.advance t).update (k := .postgresCluster)
      { c with metadata := removeFinalizer c.metadata postgresClusterFinalizer } =
      (w.advance t).commit c
        { c with metadata := removeFinalizer c.metadata postgresClusterFinalizer } :=
    World.update_finalizers (w := w.advance t) (by decide) hget hsub
  rw [heq]
  by_cases hnil : (removeFinalizer c.metadata postgresClusterFinalizer).finalizers = []
  · obtain ⟨hres, hnone, hother, -⟩ := World.commit_erase (w := w.advance t)
      { c with metadata := removeFinalizer c.metadata postgresClusterFinalizer } hget rfl
      fun hpin => hpin hdel hnil
    rw [hres]
    exact ⟨rfl, ⟨0, hnone.trans (if_pos hnil).symm⟩, hother⟩
  · obtain ⟨v, hres, hstored, hother, -⟩ := World.commit_spec (w := w.advance t)
      { c with metadata := removeFinalizer c.metadata postgresClusterFinalizer } hget rfl
      fun _ => hnil
    rw [hres]
    exact ⟨rfl, ⟨v, hstored.trans (if_neg hnil).symm⟩, hother⟩

/-- What a reconcile of a cluster in deletion does, if the cluster is paused or still has the
operator's finalizer. It never writes a finalizer list that contains the operator's. When the
cluster is not paused and nothing fails, the operator's finalizer is gone afterwards, with the
object if it was the last one. When it is paused, the finalizers stay. -/
theorem reconcile_of_deleted (T : RuneTables) (r : PostgresClusterReconciler)
    (c : PostgresCluster) (w : World) (hget : w.objects.get .postgresCluster c.key = some c)
    (hdel : c.metadata.deletionTimestamp.isSome = true)
    (hscope : c.spec.paused = true ∨ containsFinalizer c.metadata postgresClusterFinalizer = true)
    (es : List Ambient) :
    (∀ x ∈ trace serve (reconcile T r c.key) es w, arms x.1 = false) ∧
      (c.spec.paused = false → (∀ e ∈ es, e.Clean) →
        (run serve (reconcile T r c.key) es w).1 = ({}, none) ∧
          ∃ v, (run serve (reconcile T r c.key) es w).2.objects.get .postgresCluster c.key =
            released c v) ∧
      (c.spec.paused = true →
        ∃ st v, (run serve (reconcile T r c.key) es w).2.objects.get .postgresCluster c.key =
          some (c.withStatus st v)) := by
  refine ⟨fun x hx => not_arms_of_mem_trace hget hdel hscope hx, fun hp hes => ?_, fun hp => ?_⟩
  · have hwp : wp (within Ambient.Clean) (reconcile T r c.key) (fun res w' => res = ({}, none) ∧
        ∃ v, w'.objects.get .postgresCluster c.key = released c v) w := by
      refine wp_reconcile_of_get hget (fun e he => absurd he (not_faults_clean e)) fun t => ?_
      rw [reconcileFetched_of_deleted hp (hscope.resolve_left (by simp [hp])) hdel]
      exact wp_mono (within_monotone _) (wp_reconcileDelete (w := w.advance t) hget hdel)
        fun _ _ h => ⟨h.1, h.2.1⟩
    exact run_of_wp (by decide) hwp hes
  · have hwp : wp (within fun _ => True) (reconcile T r c.key) (fun _ w' =>
        ∃ st v, w'.objects.get .postgresCluster c.key = some (c.withStatus st v)) w := by
      have hsame : ∃ st v, w.objects.get .postgresCluster c.key = some (c.withStatus st v) :=
        ⟨c.status, c.metadata.resourceVersion, hget⟩
      refine wp_reconcile_of_get hget (fun _ _ _ _ => hsame) fun t => ?_
      rw [reconcileFetched_of_paused hp]
      exact wp_mono (within_monotone _) (wp_reconcilePaused (w := w.advance t) hget)
        fun _ _ h => h.cluster
    exact run_of_wp_any hwp es

/-- The sample cluster after a deletion request, with a choice of pause and finalizers. -/
def sampleDeleted (paused : Bool) (finalizers : List GoString) : PostgresCluster :=
  { sampleCluster with
    metadata := { sampleCluster.metadata with
      deletionTimestamp := some 5
      finalizers := finalizers }
    spec := { sampleCluster.spec with paused := paused } }

/-- The API server with that cluster. -/
def sampleDeletion (paused : Bool) (finalizers : List GoString) (h : finalizers ≠ []) : World where
  objects := Store.empty.put (sampleDeleted paused finalizers) fun _ => h
  revision := 5
  clock := 5
  events := []

/-- The finalizer of another controller stays. -/
theorem reconcile_sampleDeleted :
    (run serve (reconcile .basic {} sampleCluster.key) []
      (sampleDeletion false [lit "foregroundDeletion", postgresClusterFinalizer] (by decide))).1 =
      ({}, none) ∧
    ∃ v, (run serve (reconcile .basic {} sampleCluster.key) []
      (sampleDeletion false [lit "foregroundDeletion", postgresClusterFinalizer]
        (by decide))).2.objects.get .postgresCluster sampleCluster.key =
      released (sampleDeleted false [lit "foregroundDeletion", postgresClusterFinalizer]) v :=
  (reconcile_of_deleted .basic {}
    (sampleDeleted false [lit "foregroundDeletion", postgresClusterFinalizer]) _
    (Store.get_put_self _ fun _ => by decide) rfl (.inr (by decide)) []).2.1 rfl
    fun _ h => nomatch h

/-- A paused cluster keeps the finalizer, and one with only foreign finalizers gets the
operator's requested again. -/
theorem reconcile_sampleDeleted_blocked :
    (((run serve (reconcile .basic {} sampleCluster.key) []
        (sampleDeletion true [postgresClusterFinalizer] (by decide))).2.objects.get
      .postgresCluster sampleCluster.key).any fun c => c.metadata.deletionTimestamp.isSome &&
        containsFinalizer c.metadata postgresClusterFinalizer) = true ∧
    (trace serve (reconcile .basic {} sampleCluster.key) []
      (sampleDeletion false [lit "foregroundDeletion"] (by decide))).any (arms ·.1) = true := by
  decide +kernel

end Athos.Cluster
