import Athos.Cluster.Steps

/-!
# The reported status

What `updateStatus` of the cluster controller stores, as a property of the stored cluster, and that
reporting the same state again writes nothing.
-/

namespace Athos.Cluster

open Base Base.Prog Kube Api Postgres List

/-- A condition as its setter is given it. -/
structure Report where
  type : GoString
  status : ConditionStatus
  reason : GoString
  message : GoString
  deriving DecidableEq

/-- Readers of the conditions see the report, made at the generation. -/
def Shows (generation : Int) (cs : List Condition) (x : Report) : Prop :=
  ∃ t, currentCondition cs x.type = some ⟨x.type, x.status, generation, t, x.reason, x.message⟩

/-- The mark of a report. -/
def Report.mark (x : Report) : Mark := (x.type, x.status, x.reason)

/-- Put the marks of reports in order. -/
def putReports (xs : List Report) (ms : List Mark) : List Mark :=
  xs.foldl (fun ms x => putMark x.mark ms) ms

/-- Set conditions in order. -/
def setConditions : List Report → PostgresCluster → Action PostgresCluster
  | [], c => return c
  | x :: xs, c => do
    let c ← setClusterCondition c x.type x.status x.reason x.message
    setConditions xs c

/-- A cluster with other conditions. -/
def withConditions (c : PostgresCluster) (cs : List Condition) : PostgresCluster :=
  { c with status := { c.status with conditions := cs } }

section

variable {A : Ambient → Prop} {c : PostgresCluster} {w : World}

/-- The rule of `setClusterCondition`. -/
theorem wp_setClusterCondition {α : Type} {Q : α → World → Prop} {x : Report}
    {f : PostgresCluster → Action α}
    (h : ∀ t : Nat, wp (within A) (f (withConditions c (setCondition c.metadata.generation
      (w.clock + t) x.type x.status x.reason x.message c.status.conditions))) Q (w.advance t)) :
    wp (within A) (setClusterCondition c x.type x.status x.reason x.message >>= f) Q w :=
  fun a _ => h a.elapsed

private theorem wp_setConditions {xs : List Report} (hd : (xs.map Report.type).Nodup) :
    wp (within A) (setConditions xs c) (fun c' w' => w.Idle w' ∧ ∃ cs, c' = withConditions c cs ∧
      marks cs = putReports xs (marks c.status.conditions) ∧
      (∀ x ∈ xs, Shows c.metadata.generation cs x) ∧
      ∀ type, type ∉ xs.map Report.type →
        currentCondition cs type = currentCondition c.status.conditions type) w := by
  induction xs generalizing c w with
  | nil =>
    exact ⟨.refl w, c.status.conditions, rfl, rfl, forall_mem_nil _, fun _ _ => rfl⟩
  | cons x xs ih =>
    rw [map_cons, nodup_cons] at hd
    refine wp_setClusterCondition fun t => ?_
    refine wp_mono (within_monotone A) (ih hd.2) ?_
    rintro c' w' ⟨hw', cs, rfl, hmarks, hshows, hother⟩
    refine ⟨(World.Idle.advance w t).trans hw', cs, rfl, ?_, ?_, ?_⟩
    · rw [hmarks]
      exact congrArg (putReports xs) (marks_setCondition ..)
    · intro y hy
      rcases mem_cons.1 hy with rfl | hy
      · obtain ⟨t', ht'⟩ := currentCondition_setCondition_self
        exact ⟨t', (hother _ hd.1).trans ht'⟩
      · exact hshows y hy
    · intro type htype
      rw [map_cons, mem_cons, not_or] at htype
      exact (hother type htype.2).trans (currentCondition_setCondition_of_ne htype.1)

private theorem wp_setConditions_of_shows {xs : List Report}
    (h : ∀ x ∈ xs, Shows c.metadata.generation c.status.conditions x) :
    wp (within A) (setConditions xs c) (fun c' w' => w.Idle w' ∧ c' = c) w := by
  induction xs generalizing w with
  | nil => exact ⟨.refl w, rfl⟩
  | cons x xs ih =>
    obtain ⟨t, ht⟩ := h x mem_cons_self
    refine wp_setClusterCondition fun u => ?_
    rw [setCondition_of_current ht]
    refine wp_mono (within_monotone A) (ih fun y hy => h y (mem_cons_of_mem x hy)) ?_
    exact fun _ w' h' => ⟨(World.Idle.advance w u).trans h'.1, h'.2⟩

end

/-- The phase and the conditions for a number of ready instances. -/
def readiness (desired ready : Int) : PostgresClusterPhase × List Report :=
  let counts := decimal ready ++ lit " of " ++ decimal desired ++ lit " instances are ready"
  if ready = 0 then
    (.creating, [⟨conditionReady, .false, lit "NoReadyInstances",
      lit "No instances are ready yet"⟩])
  else if ready < desired then
    (.degraded, [⟨conditionReady, .false, lit "InsufficientInstances", counts⟩,
      ⟨conditionDegraded, .true, lit "InsufficientInstances", counts⟩])
  else
    (.running, [⟨conditionReady, .true, lit "AllInstancesReady",
        lit "All " ++ decimal desired ++ lit " instances are ready"⟩,
      ⟨conditionDegraded, .false, lit "AllInstancesReady", lit "Cluster is fully operational"⟩])

private theorem setReadiness_eq (c : PostgresCluster) (ready : Int) : setReadiness c ready =
    setConditions (readiness c.spec.instances ready).2
      { c with status := { c.status with phase := (readiness c.spec.instances ready).1 } } := by
  unfold setReadiness readiness
  by_cases h₀ : ready = 0
  · simp only [h₀, ↓reduceIte]
    rfl
  · by_cases h₁ : ready < c.spec.instances <;>
      (simp only [h₀, h₁, ↓reduceIte]; rfl)

private theorem readiness_nodup (desired ready : Int) :
    ((readiness desired ready).2.map Report.type).Nodup := by
  have hne : conditionReady ≠ conditionDegraded := by decide
  unfold readiness
  split_ifs <;> simp [hne]

/-- A report has a phase. -/
theorem readiness_ne_empty (desired ready : Int) : (readiness desired ready).1 ≠ .empty := by
  unfold readiness
  split_ifs <;> exact nofun

/-- The ready instances that a StatefulSet counts as. -/
def readyCount (sts : StatefulSet) : Int :=
  if 0 < sts.status.readyReplicas then sts.status.readyReplicas else 0

/-- The status of a cluster with so many ready instances is up to date. -/
structure Reported (c : PostgresCluster) (ready : Int) : Prop where
  phase : c.status.phase = (readiness c.spec.instances ready).1
  conditions : ∀ x ∈ (readiness c.spec.instances ready).2,
    Shows c.metadata.generation c.status.conditions x
  readyInstances : c.status.readyInstances = ready
  currentPrimary : c.status.currentPrimary = podName c 0
  writeServiceName : c.status.writeServiceName = primaryServiceName c
  readServiceName : c.status.readServiceName = replicaServiceName c
  observedGeneration : c.status.observedGeneration = c.metadata.generation
  postgresVersion : c.status.postgresVersion = decimal c.spec.postgresVersion

/-- The status fields that do not depend on the time, up to the conditions. -/
def reportStart (c : PostgresCluster) (ready : Int) : PostgresCluster :=
  { c with status := { c.status with
    readyInstances := ready
    phase := (readiness c.spec.instances ready).1 } }

/-- The fields that `updateStatus` sets after the conditions. -/
def withNames (c : PostgresCluster) : PostgresCluster :=
  { c with status := { c.status with
    currentPrimary := podName c 0
    writeServiceName := primaryServiceName c
    readServiceName := replicaServiceName c
    observedGeneration := c.metadata.generation
    postgresVersion := decimal c.spec.postgresVersion } }

/-- The effect of a status write on the stored cluster. -/
structure StatusWritten (c : PostgresCluster) (s s' : Store) : Prop where
  cluster : ∃ st v, s'.get .postgresCluster c.key = some (c.withStatus st v)
  other : s.SameExcept s' .postgresCluster c.key

/-- The key of the StatefulSet that is read for the status. -/
abbrev statefulSetKey (c : PostgresCluster) : NamespacedName :=
  ⟨c.metadata.namespace_, clusterStatefulSetName c⟩

/-- The ready instances of the StatefulSet of a cluster. -/
def readyIn (w : World) (c : PostgresCluster) : Int :=
  ((w.objects.get .statefulSet (statefulSetKey c)).map readyCount).getD 0

/-- What a report of so many ready instances does. -/
structure ReportEffect (A : Ambient → Prop) (c : PostgresCluster) (ready : Int) (s : Store)
    (res : Except GoError Unit) (s' : Store) : Prop where
  written : StatusWritten c s s'
  failed : res ≠ .ok () → s' = s
  smooth : Smooth A → res = .ok ()
  reported : res = .ok () → ∃ st v, s'.get .postgresCluster c.key = some (c.withStatus st v) ∧
    Reported (c.withStatus st v) ready ∧ marks st.conditions =
      putReports (readiness c.spec.instances ready).2 (marks c.status.conditions)

private theorem report_eq (c : PostgresCluster) (n : Int) :
    updateStatus.report c n = do
      let c' ← setConditions (readiness c.spec.instances (if 0 < n then n else 0)).2
        (reportStart c (if 0 < n then n else 0))
      return Kube.discard (← Client.updateStatus (withNames c')) := by
  show (do let c' ← setReadiness _ _; _) = _
  rw [setReadiness_eq]
  rfl

section

variable {c : PostgresCluster} {ready : Int}

private theorem reportStart_of_reported (h : Reported c ready) : reportStart c ready = c := by
  unfold reportStart
  rw [← h.phase, ← h.readyInstances]

private theorem withNames_of_reported (h : Reported c ready) : withNames c = c := by
  unfold withNames
  rw [← h.currentPrimary, ← h.writeServiceName, ← h.readServiceName, ← h.observedGeneration,
    ← h.postgresVersion]

private theorem reported_withNames {cs : List Condition}
    (h : ∀ x ∈ (readiness c.spec.instances ready).2, Shows c.metadata.generation cs x) (v : Nat) :
    Reported (c.withStatus (withNames (withConditions (reportStart c ready) cs)).status v) ready :=
  ⟨rfl, h, rfl, rfl, rfl, rfl, rfl, rfl⟩

variable {A : Ambient → Prop} {w : World}

variable (hget : w.objects.get .postgresCluster c.key = some c)

include hget

private theorem wp_report_of_reported {n : Int} (h : Reported c (if 0 < n then n else 0)) :
    wp (within Ambient.Clean) (updateStatus.report c n)
      (fun res w' => res = .ok () ∧ w.Idle w') w := by
  rw [report_eq, reportStart_of_reported h]
  refine wp_bind.2 (wp_mono (within_monotone _) (wp_setConditions_of_shows h.conditions) ?_)
  rintro _ w₁ ⟨⟨t, rfl⟩, rfl⟩
  rw [withNames_of_reported h]
  refine wp_updateStatus (fun e he => absurd he (not_faults_clean e)) fun u => ?_
  rw [World.updateStatus_of_eq (w := (w.advance t).advance u) hget rfl rfl]
  exact ⟨rfl, (World.Idle.advance w t).trans (.advance _ u)⟩

private theorem statusWritten_self : StatusWritten c w.objects w.objects :=
  ⟨⟨c.status, c.metadata.resourceVersion, hget⟩, fun _ _ _ => rfl⟩

/-- The pause branch writes the status only. -/
theorem wp_reconcilePaused :
    wp (within A) (reconcilePaused r c) (fun _ w' => StatusWritten c w.objects w'.objects) w := by
  have hsame := statusWritten_self hget
  unfold reconcilePaused
  split
  · refine wp_setClusterCondition (x := ⟨conditionProgressing, .false, lit "Paused",
      lit "Reconciliation is suspended"⟩) fun t => ?_
    refine wp_updateStatus_of_get hget rfl (fun _ _ _ => hsame) fun v w₁ hstored hother => ?_
    refine wp_bind.2 (wp_mono (within_monotone A) (keeps_recordEventf _) fun _ w' hw' => ?_)
    show StatusWritten c w.objects w'.objects
    rw [hw']
    exact ⟨⟨_, v, hstored⟩, hother⟩
  · exact hsame

private theorem reportEffect_of_fault {e : GoError} {e' : ApiError} (he : Faults A e') :
    ReportEffect A c ready w.objects (.error e) w.objects :=
  ⟨statusWritten_self hget, fun _ => rfl, fun hs => absurd he hs.not_faults, nofun⟩

private theorem wp_report {n : Int} :
    wp (within A) (updateStatus.report c n)
      (fun res w' => ReportEffect A c (if 0 < n then n else 0) w.objects res w'.objects) w := by
  rw [report_eq]
  refine wp_bind.2 (wp_mono (within_monotone _) (wp_setConditions (readiness_nodup _ _)) ?_)
  rintro _ w₁ ⟨⟨t, rfl⟩, cs, rfl, hmarks, hshows, -⟩
  refine wp_updateStatus_of_get hget rfl ?_ ?_
  · exact fun e he _ => reportEffect_of_fault hget he
  · intro v w' hstored hother
    exact ⟨⟨⟨_, v, hstored⟩, hother⟩, fun h => absurd rfl h, fun _ => rfl,
      fun _ => ⟨_, v, hstored, reported_withNames hshows v, hmarks⟩⟩

/-- `updateStatus` writes the status only; it reports the instances that the StatefulSet counts
as ready, unless the server denies that there is one. -/
theorem wp_clusterStatus :
    wp (within A) (updateStatus c) (fun res w' =>
      ∃ ready, ReportEffect A c ready w.objects res w'.objects ∧
        (¬ Faults A .notFound → ready = readyIn w c)) w := by
  refine wp_lookup ?_ ?_ ?_
  · intro e hne he t
    cases e with
    | notFound => exact absurd rfl hne
    | alreadyExists | conflict | invalid | other _ =>
      exact ⟨_, reportEffect_of_fault hget he, fun _ => rfl⟩
  · intro hmissing t
    refine wp_mono (within_monotone A) (wp_report (w := w.advance t) hget) fun _ _ h => ?_
    exact ⟨_, h, fun hA => by simp [readyIn, hmissing.resolve_left hA]⟩
  · intro sts hsts t
    refine wp_mono (within_monotone A) (wp_report (w := w.advance t) hget) fun _ _ h => ?_
    exact ⟨_, h, fun _ => by simp [readyIn, hsts, readyCount]⟩

/-- `updateStatus` on a cluster that is up to date only reads. -/
theorem wp_clusterStatus_of_reported {sts : StatefulSet}
    (hsts : w.objects.get .statefulSet (statefulSetKey c) = some sts)
    (h : Reported c (readyCount sts)) :
    wp (within Ambient.Clean) (updateStatus c) (fun res w' => res = .ok () ∧ w.Idle w') w := by
  refine wp_get (fun e he => absurd he (not_faults_clean e)) fun t => ?_
  rw [World.read_of_some hsts]
  refine wp_mono (within_monotone _) (wp_report_of_reported (w := w.advance t) hget h) ?_
  exact fun _ w' h' => ⟨h'.1, (World.Idle.advance w t).trans h'.2⟩

end

end Athos.Cluster
