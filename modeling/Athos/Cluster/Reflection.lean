import Athos.Cluster.Conditions

/-!
# Conditions of a cluster over time

What is stored depends on the branches that ran before, so that the conditions are related to the
instances over whole histories of calls.
-/

namespace Athos.Cluster

open Base Base.Prog Kube Api Postgres List

/-- Reconciles of a cluster. Only they write its status; a cluster that is created starts with
an empty one. Everything else may change between two calls. -/
def clusterCalls (T : RuneTables) (r : PostgresClusterReconciler) (key : NamespacedName) :
    Process Op Res (Result × Option GoError) World Ambient :=
  calls (reconcile T r key)
    (fun w => ∀ c, w.objects.get .postgresCluster key = some c → c.status = {})
    (fun w w' => ∀ c', w'.objects.get .postgresCluster key = some c' →
      c'.status = {} ∨ ∃ c, w.objects.get .postgresCluster key = some c ∧ c'.status = c.status)

/-- A call of `Reconcile` for a cluster. -/
abbrev ClusterCall := Call (Result × Option GoError) World

/-- A successful call on a live cluster. -/
structure Reports (key : NamespacedName) (x : ClusterCall) (c : PostgresCluster) : Prop where
  found : x.before.objects.get .postgresCluster key = some c
  live : Live c
  succeeded : x.result.2 = none

/-- No call finds the cluster paused, and none reports that no instance is ready after one that
reported some. -/
structure Undisturbed (key : NamespacedName) (h : List ClusterCall) : Prop where
  neverPaused : ∀ x ∈ h, ∀ c, x.before.objects.get .postgresCluster key = some c →
    c.spec.paused = false
  neverEmptied : h.Pairwise fun later earlier => ∀ c c', Reports key later c →
    Reports key earlier c' → 0 < readyIn earlier.after c' → 0 < readyIn later.after c

/-- The conditions say what the counts say. -/
structure Truthful (c : PostgresCluster) (desired ready : Int) : Prop where
  ready_iff : (∃ x ∈ c.status.conditions, x.type = conditionReady ∧ x.status = .true) ↔
    desired ≤ ready ∧ 0 < ready
  degraded_iff : (∃ x ∈ c.status.conditions, x.type = conditionDegraded ∧ x.status = .true) ↔
    0 < ready ∧ ready < desired
  phase_iff : c.status.phase = .degraded ↔ 0 < ready ∧ ready < desired
  notPaused : ∀ x ∈ c.status.conditions, x.reason ≠ lit "Paused"

/-- The marks after a report, when nothing older is left among them. -/
def freshMarks (desired ready : Int) : List Mark :=
  initializing :: (readiness desired ready).2.map Report.mark

private theorem reported_ne : conditionProgressing ≠ conditionReady ∧
    conditionProgressing ≠ conditionDegraded ∧ conditionReady ≠ conditionDegraded := by
  decide

private theorem putReports_initializing (d n : Int) :
    putReports (readiness d n).2 [initializing] = freshMarks d n := by
  unfold readiness freshMarks readiness
  split_ifs <;> simp [putReports, putMark, Report.mark, initializing, reported_ne]

private theorem putReports_freshMarks {d n d' n' : Int} (h : n' ≠ 0 → n ≠ 0) :
    putReports (readiness d n).2 (freshMarks d' n') = freshMarks d n := by
  have hne := reported_ne
  unfold readiness freshMarks readiness
  split_ifs with hn hlt hn' hlt' hn' hlt' <;>
    simp_all [putReports, putMark, Report.mark, initializing]

/-- What the stored status may be, given the calls so far. -/
def Recorded (key : NamespacedName) (h : List ClusterCall) (st : PostgresClusterStatus) : Prop :=
  st = {} ∨ st.phase ≠ .empty ∧ (marks st.conditions = [initializing] ∨
    ∃ d n, marks st.conditions = freshMarks d n ∧
      (n ≠ 0 → ∃ x ∈ h, ∃ c, Reports key x c ∧ 0 < readyIn x.after c))

section

variable {key : NamespacedName} {h : List ClusterCall} {x : ClusterCall} {c : PostgresCluster}
  {st : PostgresClusterStatus}

private theorem Recorded.cons (hr : Recorded key h st) (x : ClusterCall) :
    Recorded key (x :: h) st := by
  rcases hr with hr | ⟨hp, hm | ⟨d, n, hm, hn⟩⟩
  · exact .inl hr
  · exact .inr ⟨hp, .inl hm⟩
  · refine .inr ⟨hp, .inr ⟨d, n, hm, fun h₀ => ?_⟩⟩
    obtain ⟨y, hy, hrep⟩ := hn h₀
    exact ⟨y, mem_cons_of_mem x hy, hrep⟩

private theorem Recorded.bootMarks (hr : Recorded key h c.status) : bootMarks c = [initializing] ∨
    ∃ d n, bootMarks c = freshMarks d n ∧
      (n ≠ 0 → ∃ x ∈ h, ∃ c, Reports key x c ∧ 0 < readyIn x.after c) := by
  unfold Cluster.bootMarks
  rcases hr with hr | ⟨hp, hm⟩
  · rw [hr]
    exact .inl rfl
  · rw [if_neg hp]
    exact hm

private theorem Undisturbed.tail (hu : Undisturbed key (x :: h)) : Undisturbed key h :=
  ⟨fun y hy => hu.neverPaused y (mem_cons_of_mem x hy),
    (pairwise_cons.1 hu.neverEmptied).2⟩

private theorem marks_of_reports (hu : Undisturbed key (x :: h)) (hr : Recorded key h c.status)
    (hx : Reports key x c) (hst : ReportedOn c (readyIn x.after c) (bootMarks c) st) :
    marks st.conditions = freshMarks c.spec.instances (readyIn x.after c) := by
  rw [hst.2]
  rcases hr.bootMarks with hb | ⟨d, n, hb, hn⟩
  · rw [hb]
    exact putReports_initializing _ _
  · rw [hb]
    refine putReports_freshMarks fun h₀ => ?_
    obtain ⟨y, hy, c', hrep, hpos⟩ := hn h₀
    have hlt := (pairwise_cons.1 hu.neverEmptied).1 y hy c c' hx hrep hpos
    omega

/-- One call. -/
theorem Effect.recorded (he : Effect key x) (hu : Undisturbed key (x :: h))
    (hr : ∀ c, x.before.objects.get .postgresCluster key = some c → Recorded key h c.status)
    {c' : PostgresCluster} (hc' : x.after.objects.get .postgresCluster key = some c') :
    Recorded key (x :: h) c'.status := by
  obtain ⟨c, hc, hkept⟩ := he.kept c' hc'
  have hp := hu.neverPaused x mem_cons_self c hc
  by_cases hlive : Live c ∧ x.result.2 = none
  · have hx : Reports key x c := ⟨hc, hlive.1, hlive.2⟩
    obtain ⟨st, v, hst, hrep⟩ := he.reported c hc hlive.1 hlive.2
    have hm := marks_of_reports hu (hr c hc) hx hrep
    rw [hc', Option.some.injEq] at hst
    rw [hst]
    refine .inr ⟨hrep.1 ▸ readiness_ne_empty _ _, .inr ⟨_, _, hm, fun h₀ => ?_⟩⟩
    have := readyIn_nonneg x.after c
    exact ⟨x, mem_cons_self, c, hx, by omega⟩
  · rcases hkept hp hlive with hsame | ⟨hphase, hinit, hm⟩
    · rw [hsame]
      exact (hr c hc).cons x
    · have hempty : c.status = {} := (hr c hc).resolve_right fun h' => h'.1 hphase
      refine .inr ⟨by rw [hinit]; decide, .inl ?_⟩
      rw [hm, bootMarks, hempty]
      rfl

/-- What a report leaves behind in an undisturbed history. -/
def Fresh (key : NamespacedName) (x : ClusterCall) : Prop :=
  ∀ c, Reports key x c → ∃ st v,
    x.after.objects.get .postgresCluster key = some (c.withStatus st v) ∧
      st.phase = (readiness c.spec.instances (readyIn x.after c)).1 ∧
      marks st.conditions = freshMarks c.spec.instances (readyIn x.after c)

/-- Every history. -/
theorem fresh_of_undisturbed {T : RuneTables} {r : PostgresClusterReconciler} {w : World}
    (hh : (clusterCalls T r key).History h w) (hu : Undisturbed key h) : ∀ x ∈ h, Fresh key x := by
  have hinv : Undisturbed key h →
      (∀ c, w.objects.get .postgresCluster key = some c → Recorded key h c.status) ∧
        ∀ x ∈ h, Fresh key x := by
    refine hh.invariant (I := fun h w => Undisturbed key h →
      (∀ c, w.objects.get .postgresCluster key = some c → Recorded key h c.status) ∧
        ∀ x ∈ h, Fresh key x) (by decide : Ambient.Honest default) ?_ ?_ ?_
    · intro w hinit _
      exact ⟨fun c hc => .inl (hinit c hc), forall_mem_nil _⟩
    · intro h w w' ih hedit hu
      refine ⟨fun c' hc' => ?_, (ih hu).2⟩
      rcases hedit c' hc' with he | ⟨c, hc, hs⟩
      · exact .inl he
      · rw [hs]
        exact (ih hu).1 c hc
    · intro h w ih
      refine wp_mono (within_monotone _) (wp_reconcile_effect T r key w) ?_
      intro res w' he hu
      obtain ⟨hrec, hfresh⟩ := ih hu.tail
      refine ⟨fun c' hc' => he.recorded hu hrec hc', forall_mem_cons.2 ⟨?_, hfresh⟩⟩
      intro c hx
      obtain ⟨st, v, hst, hrep⟩ := he.reported c hx.found hx.live hx.succeeded
      exact ⟨st, v, hst, hrep.1, marks_of_reports hu (hrec c hx.found) hx hrep⟩
  exact (hinv hu).2

private theorem exists_condition_iff {cs : List Condition} {type : GoString} {s : ConditionStatus} :
    (∃ x ∈ cs, x.type = type ∧ x.status = s) ↔ ∃ reason, (type, s, reason) ∈ marks cs := by
  constructor
  · rintro ⟨x, hx, rfl, rfl⟩
    exact ⟨x.reason, mem_marks.2 ⟨x, hx, rfl⟩⟩
  · rintro ⟨reason, hm⟩
    obtain ⟨x, hx, he⟩ := mem_marks.1 hm
    cases he
    exact ⟨x, hx, rfl, rfl⟩

private theorem truthful_of_fresh {d n : Int} (hn : 0 ≤ n)
    (hphase : c.status.phase = (readiness d n).1)
    (hm : marks c.status.conditions = freshMarks d n) : Truthful c d n := by
  have h₁ : conditionReady ≠ conditionProgressing := by decide
  have h₂ : conditionDegraded ≠ conditionProgressing := by decide
  have h₃ : conditionReady ≠ conditionDegraded := by decide
  have hpaused : ∀ m ∈ freshMarks d n, m.2.2 ≠ lit "Paused" := by
    have h₄ : lit "Initializing" ≠ lit "Paused" := by decide
    have h₅ : lit "NoReadyInstances" ≠ lit "Paused" := by decide
    have h₆ : lit "InsufficientInstances" ≠ lit "Paused" := by decide
    have h₇ : lit "AllInstancesReady" ≠ lit "Paused" := by decide
    unfold freshMarks readiness
    split_ifs <;> simp [Report.mark, initializing, h₄, h₅, h₆, h₇]
  refine ⟨?_, ?_, ?_, ?_⟩
  · rw [exists_condition_iff, hm]
    unfold freshMarks readiness
    split_ifs <;> simp [Report.mark, initializing, h₁, h₃] <;> omega
  · rw [exists_condition_iff, hm]
    unfold freshMarks readiness
    split_ifs <;> simp [Report.mark, initializing, h₂, h₃.symm] <;> omega
  · rw [hphase]
    unfold readiness
    split_ifs <;> simp <;> omega
  · intro x hx
    exact hpaused _ (hm ▸ mem_marks.2 ⟨x, hx, rfl⟩)

end

/-- In histories in which no call finds the cluster paused, and none reports that no instance is
ready after one that reported some: the conditions after every report say what the counts say,
and after two reports, also of two histories, with the same counts they are the same. -/
theorem conditions_reflect (T : RuneTables) (r : PostgresClusterReconciler)
    (key key' : NamespacedName) {h h' : List ClusterCall} {w w' : World}
    (hh : (clusterCalls T r key).History h w) (hh' : (clusterCalls T r key').History h' w')
    (hu : Undisturbed key h) (hu' : Undisturbed key' h') :
    ∀ x ∈ h, ∀ c, Reports key x c →
      ∃ o, x.after.objects.get .postgresCluster key = some o ∧
        Truthful o c.spec.instances (readyIn x.after c) ∧
        ∀ x' ∈ h', ∀ c', Reports key' x' c' → c'.spec.instances = c.spec.instances →
          readyIn x'.after c' = readyIn x.after c →
          ∃ o', x'.after.objects.get .postgresCluster key' = some o' ∧
            marks o'.status.conditions = marks o.status.conditions := by
  intro x hx c hrep
  obtain ⟨st, v, hst, hphase, hm⟩ := fresh_of_undisturbed hh hu x hx c hrep
  refine ⟨_, hst, truthful_of_fresh (readyIn_nonneg _ _) hphase hm, ?_⟩
  intro x' hx' c' hrep' hd hn
  obtain ⟨st', v', hst', -, hm'⟩ := fresh_of_undisturbed hh' hu' x' hx' c' hrep'
  refine ⟨_, hst', ?_⟩
  show marks st'.conditions = marks st.conditions
  rw [hm', hm, hd, hn]

/-- A reconcile of the sample cluster in which nothing fails. -/
def sampleReport (w : World) : ClusterCall := smoothCall (reconcile .basic {} sampleCluster.key) w

section

variable {w : World} {st : PostgresClusterStatus} {v : Nat}

private theorem reports_sampleReport
    (hget : w.objects.get .postgresCluster sampleCluster.key =
      some (sampleCluster.withStatus st v)) :
    Reports sampleCluster.key (sampleReport w) (sampleCluster.withStatus st v) := by
  have hrun := run_of_wp (by decide) (wp_reconcile (A := Ambient.Clean) (T := .basic) (r := {})
    live_sampleCluster hget) (forall_mem_nil _)
  refine ⟨hget, live_sampleCluster.withStatus st v, ?_⟩
  exact (congrArg Prod.snd (hrun.2 smooth_clean).1 :)

private theorem history_sampleReport {h : List ClusterCall}
    (hh : (clusterCalls .basic {} sampleCluster.key).History h w) :
    (clusterCalls .basic {} sampleCluster.key).History (sampleReport w :: h)
      (sampleReport w).after :=
  history_smoothCall hh

private theorem effect_sampleReport (w : World) : Effect sampleCluster.key (sampleReport w) :=
  run_of_wp (by decide) (wp_reconcile_effect .basic {} sampleCluster.key w) (forall_mem_nil _)

private theorem readyIn_sampleReport {sts : StatefulSet}
    (hget : w.objects.get .postgresCluster sampleCluster.key = some (sampleCluster.withStatus st v))
    (hsts : w.objects.get .statefulSet (statefulSetKey sampleCluster) = some sts) :
    readyIn (sampleReport w).after sampleCluster = readyCount sts := by
  have hrun := run_of_wp (by decide) (wp_reconcile (A := Ambient.Clean) (T := .basic) (r := {})
    live_sampleCluster hget) (forall_mem_nil _)
  obtain ⟨sts', hsts', hd⟩ := hrun.1.existing hsts
  have hm : (policy sampleCluster).managed .statefulSet (statefulSetKey sampleCluster) =
      some (manageStatefulSet (buildStatefulSet sampleCluster).spec) :=
    managed_statefulSet sampleCluster
  rw [Policy.Drift, hm] at hd
  have hready : readyCount sts' = readyCount sts := by
    obtain ⟨v, g, rfl | rfl⟩ := hd <;> rfl
  unfold readyIn
  rw [show (sampleReport w).after.objects.get .statefulSet (statefulSetKey sampleCluster) =
    some sts' from hsts', ← hready]
  rfl

end

/-- The StatefulSet of the sample cluster with some ready instances. -/
def sampleStatefulSet (ready : Int) : StatefulSet :=
  { buildStatefulSet sampleCluster with
    status := ({ readyReplicas := ready } : StatefulSetStatus) }

/-- Another state of the StatefulSet. -/
def withReady (w : World) (ready : Int) : World :=
  { w with objects := w.objects.put (sampleStatefulSet ready) nofun }

section

variable {w : World} {n : Int}

private theorem withReady_cluster :
    (withReady w n).objects.get .postgresCluster sampleCluster.key =
      w.objects.get .postgresCluster sampleCluster.key :=
  Store.get_put_of_ne w.objects (o := sampleStatefulSet n) nofun (by simp)

private theorem withReady_statefulSet :
    (withReady w n).objects.get .statefulSet (statefulSetKey sampleCluster) =
      some (sampleStatefulSet n) :=
  Store.get_put_self w.objects (o := sampleStatefulSet n) nofun

end

private theorem exists_reports (m n : Int) :
    ∃ (x y : ClusterCall) (st : PostgresClusterStatus) (v : Nat),
      (clusterCalls .basic {} sampleCluster.key).History [y, x] y.after ∧
        Reports sampleCluster.key x sampleCluster ∧
        Reports sampleCluster.key y (sampleCluster.withStatus st v) ∧
        readyIn x.after sampleCluster = readyCount (sampleStatefulSet m) ∧
        readyIn y.after sampleCluster = readyCount (sampleStatefulSet n) ∧
        ReportedOn sampleCluster (readyCount (sampleStatefulSet m)) (bootMarks sampleCluster) st ∧
        Effect sampleCluster.key y := by
  have hget : (withReady sampleWorld m).objects.get .postgresCluster sampleCluster.key =
      some sampleCluster := withReady_cluster.trans (Store.get_put_self _ (by decide))
  have hx : Reports sampleCluster.key (sampleReport (withReady sampleWorld m)) sampleCluster :=
    reports_sampleReport hget
  have hready := readyIn_sampleReport (v := sampleCluster.metadata.resourceVersion) hget
    withReady_statefulSet
  obtain ⟨st, v, hst, hreport⟩ :=
    (effect_sampleReport (withReady sampleWorld m)).reported _ hget hx.live hx.succeeded
  rw [hready] at hreport
  have hget' : (withReady (sampleReport (withReady sampleWorld m)).after n).objects.get
      .postgresCluster sampleCluster.key = some (sampleCluster.withStatus st v) :=
    withReady_cluster.trans hst
  have hstart : (clusterCalls .basic {} sampleCluster.key).History []
      (withReady sampleWorld m) := by
    refine .start fun c hc => ?_
    rw [hget, Option.some.injEq] at hc
    rw [← hc]
    rfl
  have hedit : (clusterCalls .basic {} sampleCluster.key).History
      [sampleReport (withReady sampleWorld m)]
      (withReady (sampleReport (withReady sampleWorld m)).after n) := by
    refine .edit (history_sampleReport hstart) fun c' hc' => .inr ⟨c', ?_, rfl⟩
    exact withReady_cluster.symm.trans hc'
  exact ⟨_, _, st, v, history_sampleReport hedit, hx, reports_sampleReport hget', hready,
    readyIn_sampleReport hget' withReady_statefulSet, hreport, effect_sampleReport _⟩

/-- One of three instances is ready at the first report and all at the second, which leaves nothing
of the first. -/
theorem conditions_reflect_sampleCluster :
    ∃ (x y : ClusterCall) (c : PostgresCluster),
      (clusterCalls .basic {} sampleCluster.key).History [y, x] y.after ∧
        Reports sampleCluster.key x sampleCluster ∧ readyIn x.after sampleCluster = 1 ∧
        Reports sampleCluster.key y c ∧ readyIn y.after c = 3 ∧
        (∃ o, x.after.objects.get .postgresCluster sampleCluster.key = some o ∧ Truthful o 3 1) ∧
        ∃ o, y.after.objects.get .postgresCluster sampleCluster.key = some o ∧
          Truthful o 3 3 := by
  obtain ⟨x, y, st, v, hhist, hx, hy, hready, hready', -, -⟩ := exists_reports 1 3
  have hone : readyCount (sampleStatefulSet 1) = 1 := by decide
  have hthree : readyCount (sampleStatefulSet 3) = 3 := by decide
  rw [hone] at hready
  rw [hthree, ← readyIn_withStatus y.after sampleCluster st v] at hready'
  have hu : Undisturbed sampleCluster.key [y, x] := by
    constructor
    · refine forall_mem_cons.2 ⟨fun c hc => ?_, forall_mem_singleton.2 fun c hc => ?_⟩
      · rw [hy.found, Option.some.injEq] at hc
        rw [← hc]
        rfl
      · rw [hx.found, Option.some.injEq] at hc
        rw [← hc]
        rfl
    · refine pairwise_pair.2 fun c c' hc _ _ => ?_
      obtain rfl := Option.some.inj (hc.found.symm.trans hy.found)
      rw [hready']
      decide
  obtain ⟨o, ho, htruth, -⟩ := conditions_reflect .basic {} sampleCluster.key sampleCluster.key
    hhist hhist hu hu x (by simp) sampleCluster hx
  obtain ⟨o', ho', htruth', -⟩ := conditions_reflect .basic {} sampleCluster.key
    sampleCluster.key hhist hhist hu hu y mem_cons_self _ hy
  rw [hready] at htruth
  rw [hready'] at htruth'
  exact ⟨x, y, _, hhist, hx, hready, hy, hready', ⟨o, ho, htruth⟩, o', ho', htruth'⟩

/-- After one of three instances was ready and then none, the cluster is still reported as degraded.
-/
theorem conditions_stale_sampleCluster :
    ∃ (x y : ClusterCall) (c : PostgresCluster),
      (clusterCalls .basic {} sampleCluster.key).History [y, x] y.after ∧
        Reports sampleCluster.key y c ∧ readyIn y.after c = 0 ∧
        ∃ o, y.after.objects.get .postgresCluster sampleCluster.key = some o ∧
          marks o.status.conditions = [initializing,
            (conditionReady, .false, lit "NoReadyInstances"),
            (conditionDegraded, .true, lit "InsufficientInstances")] := by
  obtain ⟨x, y, st, v, hhist, -, hy, -, hready, ⟨hphase, hm⟩, heffect⟩ := exists_reports 1 0
  obtain ⟨st', v', hst', -, hm'⟩ := heffect.reported _ hy.found hy.live hy.succeeded
  have hboot : bootMarks (sampleCluster.withStatus st v) = marks st.conditions := by
    refine if_neg ?_
    show st.phase ≠ .empty
    rw [hphase]
    exact readiness_ne_empty _ _
  have hnone : readyCount (sampleStatefulSet 0) = 0 := by decide
  rw [hboot, hm, readyIn_withStatus, hready] at hm'
  refine ⟨_, _, _, hhist, hy, ?_, _, hst', hm'.trans ?_⟩
  · rw [readyIn_withStatus, hready, hnone]
  · show putReports (readiness sampleCluster.spec.instances _).2 _ = _
    decide +kernel

end Athos.Cluster
