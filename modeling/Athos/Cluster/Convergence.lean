import Athos.Cluster.Report

/-!
# Convergence of the cluster controller

However many reconciles of a live cluster failed, and wherever, one in which nothing fails brings
every object to its desired state and touches nothing else, and after it a reconcile has no effect.
-/

namespace Athos.Cluster

open Base Base.Prog Kube Api Postgres List

/-- A cluster with the finalizer that is neither paused nor being deleted. -/
structure Live (c : PostgresCluster) : Prop where
  notPaused : c.spec.paused = false
  notDeleted : c.metadata.deletionTimestamp = none
  finalizer : containsFinalizer c.metadata postgresClusterFinalizer = true

/-- Every object of the cluster is settled and its status is up to date. -/
structure Converged (c : PostgresCluster) (s : Store) : Prop where
  settled : ∀ t ∈ targets c, Settled (policy c) s t.1 t.2
  reported : ∃ c' sts, s.get .postgresCluster c.key = some c' ∧
    s.get .statefulSet (statefulSetKey c) = some sts ∧ Reported c' (readyCount sts)

/-- Writing the status follows the policy. -/
theorem StatusWritten.evolves {c : PostgresCluster} {s s' : Store} (h : StatusWritten c s s')
    (hget : s.get .postgresCluster c.key = some c) : Evolves (policy c) s s' := by
  obtain ⟨st, v, hget'⟩ := h.cluster
  have hd : (policy c).Drift .postgresCluster c.key c (c.withStatus st v) :=
    .inr ⟨⟨rfl, rfl⟩, st, v, rfl⟩
  exact .of_drift hget hget' hd h.other

/-- What the bootstrap reports. -/
def initializing : Mark := (conditionProgressing, .true, lit "Initializing")

/-- The marks that `updateStatus` starts from. -/
def bootMarks (c : PostgresCluster) : List Mark :=
  if c.status.phase = .empty then putMark initializing (marks c.status.conditions)
  else marks c.status.conditions

/-- The status after a report of so many ready instances on some marks. -/
def ReportedOn (c : PostgresCluster) (ready : Int) (ms : List Mark) (st : PostgresClusterStatus) :
    Prop :=
  st.phase = (readiness c.spec.instances ready).1 ∧
    marks st.conditions = putReports (readiness c.spec.instances ready).2 ms

/-- The status right after the bootstrap. -/
def Bootstrapped (c : PostgresCluster) (st : PostgresClusterStatus) : Prop :=
  c.status.phase = .empty ∧ st.phase = .initializing ∧ marks st.conditions = bootMarks c

/-- What a reconcile of a live cluster does to its status. -/
structure Updated (c : PostgresCluster) (res : Result × Option GoError) (w' : World) : Prop where
  failed : res.2 ≠ none → ∃ st v, w'.objects.get .postgresCluster c.key = some (c.withStatus st v) ∧
    (st = c.status ∨ Bootstrapped c st)
  succeeded : res.2 = none →
    ∃ st v, w'.objects.get .postgresCluster c.key = some (c.withStatus st v) ∧
      ReportedOn c (readyIn w' c) (bootMarks c) st

/-- The effect of a write of finalizers: the rest of the cluster is kept, unless it goes. -/
structure FinalizersWritten (c : PostgresCluster) (s s' : Store) : Prop where
  cluster : ∀ {c'}, s'.get .postgresCluster c.key = some c' →
    c'.spec = c.spec ∧ c'.status = c.status ∧ c'.metadata.annotations = c.metadata.annotations
  other : s.SameExcept s' .postgresCluster c.key

/-- What a reconcile of a stored cluster does, by the branch that it takes. -/
inductive Branch (A : Ambient → Prop) (c : PostgresCluster) (s : Store)
    (res : Result × Option GoError) (w' : World) : Prop
  | paused : c.spec.paused = true → StatusWritten c s w'.objects → Branch A c s res w'
  | finalizers : ¬ Live c → FinalizersWritten c s w'.objects → Branch A c s res w'
  | live : Live c → Evolves (policy c) s w'.objects → (¬ Faults A .notFound → Updated c res w') →
    Branch A c s res w'

section

variable {T : RuneTables} {r : PostgresClusterReconciler} {A : Ambient → Prop}
  {c : PostgresCluster} {w : World}

/-- The StatefulSet is one of the objects. -/
theorem statefulSet_mem_targets (c : PostgresCluster) :
    (.statefulSet, statefulSetKey c) ∈ targets c := by
  simp only [targets, mem_append]
  exact .inr (.inr (.inr (.inl mem_cons_self)))

private theorem wp_reconcileBootstrapped (hget : w.objects.get .postgresCluster c.key = some c) :
    wp (within A) (reconcileBootstrapped T r c) (fun res w' =>
      Evolves (policy c) w.objects w'.objects ∧
        (Smooth A → res = ({ requeueAfter := 30 }, none) ∧ Converged c w'.objects) ∧
        (res.2 ≠ none → w'.objects.get .postgresCluster c.key = some c) ∧
        (res.2 = none → ¬ Faults A .notFound →
          ∃ st v, w'.objects.get .postgresCluster c.key = some (c.withStatus st v) ∧
            ReportedOn c (readyIn w' c) (marks c.status.conditions) st)) w := by
  refine wp_bind.2 ((wp_runSteps_append (objectSteps T r c) [_]).2 ?_)
  refine wp_mono (within_monotone A) ((upkeep_objectSteps c).secures w) ?_
  rintro (e | _) w₁ ⟨hm, hs, hok⟩
  · exact ⟨hm.1, fun h => (nomatch hok h), fun _ => (hm.2 c.key).trans hget, nofun⟩
  have hget₁ : w₁.objects.get .postgresCluster c.key = some c := (hm.2 c.key).trans hget
  refine wp_bind.2 (wp_mono (within_monotone A) (wp_clusterStatus hget₁) ?_)
  rintro res w₂ ⟨ready, hw, hready⟩
  have hevolves : Evolves (policy c) w₁.objects w₂.objects := hw.written.evolves hget₁
  -- The StatefulSet that the status was computed from is still there.
  have hsame := hw.written.other .statefulSet (statefulSetKey c) (by simp)
  cases res with
  | error e =>
    refine ⟨hm.1.trans hevolves, fun h => (nomatch hw.smooth h), fun _ => ?_, nofun⟩
    rw [hw.failed nofun]
    exact hget₁
  | ok _ =>
    obtain ⟨st, v, hst, hr, hmarks⟩ := hw.reported rfl
    refine ⟨hm.1.trans hevolves, fun h => ⟨rfl, ?_⟩, fun h => absurd rfl h, fun _ hA => ?_⟩
    · obtain ⟨sts, hsts, -⟩ := hs rfl _ (statefulSet_mem_targets c)
      refine ⟨fun t ht => (hs rfl t ht).evolves hevolves, _, sts, hst, hsame.trans hsts, ?_⟩
      rw [hready h.not_faults, readyIn, hsts] at hr
      exact hr
    · have hn : ready = readyIn w₂ c := by rw [hready hA, readyIn, readyIn, hsame]
      exact ⟨st, v, hst, hn ▸ hr.phase, hn ▸ hmarks⟩

private theorem wp_reconcileLive (hget : w.objects.get .postgresCluster c.key = some c) :
    wp (within A) (reconcileLive T r c) (fun res w' =>
      Evolves (policy c) w.objects w'.objects ∧
        (Smooth A → res = ({ requeueAfter := 30 }, none) ∧ Converged c w'.objects) ∧
        (¬ Faults A .notFound → Updated c res w')) w := by
  have hself : ∀ {w' : World}, w'.objects.get .postgresCluster c.key = some c →
      ∃ st v, w'.objects.get .postgresCluster c.key = some (c.withStatus st v) ∧
        (st = c.status ∨ Bootstrapped c st) :=
    fun h => ⟨c.status, c.metadata.resourceVersion, h, .inl rfl⟩
  unfold reconcileLive
  split
  · next hphase =>
    have hboot : bootMarks c = putMark initializing (marks c.status.conditions) := if_pos hphase
    refine wp_setClusterCondition (x := ⟨conditionProgressing, .true, lit "Initializing",
      lit "Cluster is being initialised"⟩) fun t => ?_
    refine wp_updateStatus_of_get hget rfl ?_ ?_
    · exact fun e he _ => ⟨.refl _ _, fun hs => absurd he hs.not_faults,
        fun _ => ⟨fun _ => hself hget, nofun⟩⟩
    · intro v w₁ hstored hother
      have hw : StatusWritten c w.objects w₁.objects := ⟨⟨_, v, hstored⟩, hother⟩
      refine wp_mono (within_monotone A) (wp_reconcileBootstrapped hstored) ?_
      rintro res w' ⟨he, hs, hfail, hok⟩
      refine ⟨(hw.evolves hget).trans he, fun h => ⟨(hs h).1, ?_⟩, fun hA =>
        ⟨fun h => ⟨_, v, hfail h, .inr ⟨hphase, rfl, ?_⟩⟩, fun h => ?_⟩⟩
      · exact ⟨(hs h).2.settled, (hs h).2.reported⟩
      · rw [hboot]
        exact marks_setCondition ..
      · obtain ⟨st, v', hst, hrep⟩ := hok h hA
        refine ⟨st, v', hst, hrep.1, hrep.2.trans ?_⟩
        rw [hboot]
        exact congrArg _ (marks_setCondition ..)
  · next hphase =>
    refine wp_mono (within_monotone A) (wp_reconcileBootstrapped hget) ?_
    rintro res w' ⟨he, hs, hfail, hok⟩
    have hboot : bootMarks c = marks c.status.conditions := if_neg hphase
    refine ⟨he, hs, fun hA => ⟨fun h => hself (hfail h), fun h => ?_⟩⟩
    rw [hboot]
    exact hok h hA

/-- A live cluster is neither paused nor cleaned up. -/
theorem reconcileFetched_of_live (h : Live c) : reconcileFetched T r c = reconcileLive T r c := by
  unfold reconcileFetched
  rw [h.notPaused, h.finalizer, h.notDeleted, if_neg Bool.false_ne_true, if_neg (by decide),
    if_neg (by decide)]

private theorem wp_updateFinalizers {α : Type} {Q : α → World → Prop} {m : ObjectMeta}
    {f : Except ApiError PostgresCluster → Action α}
    (hget : w.objects.get .postgresCluster c.key = some c) (hkey : m.key = c.key)
    (hann : m.annotations = c.metadata.annotations)
    (h : ∀ res w', FinalizersWritten c w.objects w'.objects → wp (within A) (f res) Q w') :
    wp (within A) (Client.update (k := .postgresCluster) { c with metadata := m } >>= f) Q w := by
  have hself : FinalizersWritten c w.objects w.objects := by
    refine ⟨fun hc' => ?_, fun _ _ _ => rfl⟩
    rw [hget, Option.some.injEq] at hc'
    rw [hc']
    exact ⟨rfl, rfl, rfl⟩
  refine wp_update (fun _ _ _ => h _ _ hself) fun t => h _ _ ?_
  rcases (w.advance t).update_effect (k := .postgresCluster) { c with metadata := m } with
    he | ⟨cur, hcur, hother, hres⟩
  · rw [he]
    exact hself
  · rw [show ({ c with metadata := m } : PostgresCluster).key = c.key from hkey] at hcur hother hres
    refine ⟨fun hc' => ?_, hother⟩
    rcases hres with hnone | ⟨v, g, hstored⟩
    · cases hnone.symm.trans hc'
    · rw [hstored, Option.some.injEq] at hc'
      rw [← hc']
      exact ⟨rfl, (hself.cluster hcur).2.1, hann⟩

private theorem wp_reconcileFetched (hget : w.objects.get .postgresCluster c.key = some c) :
    wp (within A) (reconcileFetched T r c) (Branch A c w.objects) w := by
  unfold reconcileFetched
  split_ifs with hp hf hd
  · exact wp_mono (within_monotone A) (wp_reconcilePaused hget) fun _ _ => .paused hp
  · rw [addFinalizer_of_not_contains hf]
    refine wp_updateFinalizers hget rfl rfl fun res w' h => ?_
    cases res <;> exact .finalizers (fun hl => by simp [hl.finalizer] at hf) h
  · refine wp_updateFinalizers hget rfl rfl fun res w' h => ?_
    cases res <;> exact .finalizers (fun hl => by simp [hl.notDeleted] at hd) h
  · refine wp_mono (within_monotone A) (wp_reconcileLive hget) fun _ _ h => ?_
    exact .live ⟨by simpa using hp, by simpa using hd, by simpa using hf⟩ h.1 h.2.2

/-- A reconcile changes no object if it does not get the cluster, and takes a branch if it does. -/
theorem wp_reconcile_cases (T : RuneTables) (r : PostgresClusterReconciler) (n : NamespacedName)
    (w : World) :
    wp (within A) (reconcile T r n) (fun res w' =>
      (w'.objects = w.objects ∧ (res.2 = none → ¬ Faults A .notFound →
        w.objects.get .postgresCluster n = none)) ∨
      ∃ c, c.key = n ∧ w.objects.get .postgresCluster n = some c ∧
        Branch A c w.objects res w') w := by
  refine wp_lookup ?_ ?_ ?_
  · intro e hne _ t
    cases e with
    | notFound => exact absurd rfl hne
    | alreadyExists | conflict | invalid | other _ => exact .inl ⟨rfl, nofun⟩
  · exact fun hmissing t => .inl ⟨rfl, fun _ hA => hmissing.resolve_left hA⟩
  · intro c hget t
    obtain rfl : c.key = n := w.objects.keyed hget
    refine wp_mono (within_monotone A) (wp_reconcileFetched (w := w.advance t) hget) ?_
    exact fun _ _ h => .inr ⟨c, rfl, hget, h⟩

/-- A reconcile reads the stored cluster, or fails. -/
theorem wp_reconcile_of_get {Q : Result × Option GoError → World → Prop}
    (hget : w.objects.get .postgresCluster c.key = some c)
    (hfault : ∀ e, Faults A e → ∀ res t, Q res (w.advance t))
    (h : ∀ t, wp (within A) (reconcileFetched T r c) Q (w.advance t)) :
    wp (within A) (reconcile T r c.key) Q w := by
  refine wp_get (fun e he t => ?_) fun t => ?_
  · cases e with
    | notFound | alreadyExists | conflict | invalid | other _ => exact hfault _ he _ t
  · rw [World.read_of_some hget]
    exact h t

/-- The status does not matter for being live. -/
theorem Live.withStatus (h : Live c) (st : PostgresClusterStatus) (v : Nat) :
    Live (c.withStatus st v) := ⟨h.notPaused, h.notDeleted, h.finalizer⟩

/-- A reconcile of a live cluster follows the policy, and converges when nothing fails. -/
theorem wp_reconcile {st : PostgresClusterStatus} {v : Nat} (hlive : Live c)
    (hget : w.objects.get .postgresCluster c.key = some (c.withStatus st v)) :
    wp (within A) (reconcile T r c.key) (fun res w' =>
      Evolves (policy c) w.objects w'.objects ∧
        (Smooth A → res = ({ requeueAfter := 30 }, none) ∧ Converged c w'.objects)) w := by
  refine wp_reconcile_of_get (c := c.withStatus st v) hget ?_ fun t => ?_
  · exact fun e he _ _ => ⟨.refl _ _, fun hs => absurd he hs.not_faults⟩
  · rw [reconcileFetched_of_live (hlive.withStatus st v)]
    refine wp_mono (within_monotone A) (wp_reconcileLive (w := w.advance t) hget) ?_
    rintro res w' ⟨he, hs, -⟩
    exact ⟨he, fun h => ⟨(hs h).1, (hs h).2.settled, (hs h).2.reported⟩⟩

private theorem wp_reconcile_of_converged {st : PostgresClusterStatus} {v : Nat} (hlive : Live c)
    (hget : w.objects.get .postgresCluster c.key = some (c.withStatus st v))
    (h : Converged c w.objects) :
    wp (within Ambient.Clean) (reconcile T r c.key) (fun res w' =>
      res = ({ requeueAfter := 30 }, none) ∧ w.Idle w') w := by
  obtain ⟨c', sts, hc', hsts, hr⟩ := h.reported
  rw [hget, Option.some.injEq] at hc'
  subst hc'
  refine wp_reconcile_of_get (c := c.withStatus st v) hget
    (fun e he => absurd he (not_faults_clean e)) fun t => ?_
  have hphase : (c.withStatus st v).status.phase ≠ .empty := by
    rw [hr.phase]
    exact readiness_ne_empty _ _
  rw [reconcileFetched_of_live (hlive.withStatus st v), reconcileLive, if_neg hphase]
  refine wp_bind.2 ((wp_runSteps_append (objectSteps T r (c.withStatus st v)) [_]).2 ?_)
  refine wp_mono (within_monotone _)
    ((upkeep_objectSteps (A := Ambient.Clean) (c.withStatus st v)).rests (w.advance t) h.settled) ?_
  rintro _ w₁ ⟨rfl, u, rfl⟩
  refine wp_bind.2 (wp_mono (within_monotone _)
    (wp_clusterStatus_of_reported (w := (w.advance t).advance u) hget hsts hr) ?_)
  rintro _ w₂ ⟨rfl, hw₂⟩
  exact ⟨rfl, (World.Idle.advance w t).trans ((World.Idle.advance _ u).trans hw₂)⟩

/-- Along the policy only the status of the cluster itself changes. -/
theorem evolves_cluster {s s' : Store} (he : Evolves (policy c) s s')
    (hget : s.get .postgresCluster c.key = some c) :
    ∃ st v, s'.get .postgresCluster c.key = some (c.withStatus st v) := by
  obtain ⟨o, ho, hd⟩ := he.existing hget
  rcases hd with rfl | ⟨-, st, v, rfl⟩
  · exact ⟨o.status, o.metadata.resourceVersion, ho⟩
  · exact ⟨st, v, ho⟩

private theorem evolves_attempts (hlive : Live c)
    (hget : w.objects.get .postgresCluster c.key = some c) (attempts : List (List Ambient)) :
    Evolves (policy c) w.objects (runAll serve (reconcile T r c.key) attempts w).objects := by
  refine runAll_induction
    (I := fun w' : World => Evolves (policy c) w.objects w'.objects) ?_ attempts
    (.refl _ _)
  intro w' he es
  obtain ⟨st, v, hget'⟩ := evolves_cluster he hget
  exact he.trans (run_of_wp_any (wp_reconcile hlive hget') es).1

private theorem evolves_attempts_of_isPrefix (hlive : Live c)
    (hget : w.objects.get .postgresCluster c.key = some c) {pre attempts : List (List Ambient)}
    (hpre : pre <+: attempts) :
    Evolves (policy c) (runAll serve (reconcile T r c.key) pre w).objects
      (runAll serve (reconcile T r c.key) attempts w).objects := by
  obtain ⟨post, rfl⟩ := hpre
  obtain ⟨st, v, hget'⟩ := evolves_cluster
    (evolves_attempts (T := T) (r := r) hlive hget pre) hget
  rw [runAll_append]
  exact evolves_attempts (hlive.withStatus st v) hget' post

variable {k : Kind} {n : NamespacedName}

private theorem mem_targets_of_managed {m : Spec k → Spec k} (hm : managed c k n = some m) :
    (k, n) ∈ targets c := by
  simp only [targets, mem_append]
  cases k with
  | configMap =>
    rw [managed] at hm
    split_ifs at hm with h
    exact .inr (.inr (.inl (mem_singleton.2 (by rw [h]))))
  | statefulSet =>
    rw [managed] at hm
    split_ifs at hm with h
    exact .inr (.inr (.inr (.inl (mem_singleton.2 (by rw [h])))))
  | service =>
    obtain ⟨svc, hsvc, rfl⟩ := Option.map_eq_some_iff.1 hm
    have hn : svc.key = n := by simpa using find?_some hsvc
    refine .inr (.inr (.inr (.inr (.inl (mem_map.2
      ⟨svc, mem_of_find?_eq_some hsvc, ?_⟩)))))
    rw [hn]
  | podDisruptionBudget =>
    rw [managed] at hm
    split_ifs at hm with h
    exact .inr (.inr (.inr (.inr (.inr (.inl (mem_singleton.2 (by rw [h])))))))
  | postgresCluster | postgresUser | postgresBackup | serviceAccount | secret | deployment
  | job => cases hm

private theorem mem_targets_of_ensured (h : (policy c).ensured k n) : (k, n) ∈ targets c := by
  simp only [targets, mem_append]
  rcases h with ⟨rfl, hname, rfl⟩ | ⟨rfl, rfl⟩
  · rw [serviceAccountTargets, if_neg (not_not.2 hname)]
    exact .inl mem_cons_self
  · exact .inr (.inl mem_cons_self)

/-- Objects that are not targets stay as they are. -/
theorem get_eq_of_evolves {s s' : Store} (he : Evolves (policy c) s s') (ht : (k, n) ∉ targets c)
    (hc : (k, n) ≠ (.postgresCluster, c.key)) : s'.get k n = s.get k n := by
  refine he.get_eq ?_ (fun h => ht (mem_targets_of_ensured h)) fun h => hc (Prod.ext h.1 h.2)
  cases hm : (policy c).managed k n with
  | none => rfl
  | some m => exact absurd (mem_targets_of_managed hm) ht

end

/-- What a successful reconcile of a live cluster guarantees about the objects after it, given
those before the first attempt. -/
structure Reconciled (c : PostgresCluster) (before after : Store) : Prop where
  serviceAccount : c.spec.serviceAccountName = [] →
    (after.get .serviceAccount (buildServiceAccount c).key).isSome
  secret : (after.get .secret (secretKey c)).isSome
  configMap : ∃ o, after.get .configMap (buildConfigMap c).key = some o ∧
    o.spec.data = (buildConfigMap c).spec.data
  statefulSet : ∃ o, after.get .statefulSet (buildStatefulSet c).key = some o ∧
    o.spec.replicas = (buildStatefulSet c).spec.replicas ∧
    o.spec.template = (buildStatefulSet c).spec.template
  services : ∀ svc ∈ [buildHeadlessService c, buildPrimaryService c, buildReplicaService c],
    ∃ o, after.get .service svc.key = some o ∧ o.spec.ports = svc.spec.ports ∧
      o.spec.selector = svc.spec.selector
  pdb : ∃ o, after.get .podDisruptionBudget (desiredPdb c).key = some o ∧
    o.spec = (desiredPdb c).spec
  /-- An object that existed differs in its managed part and its version numbers only. -/
  managedOnly : ∀ {k n m o}, managed c k n = some m → before.get k n = some o →
    ∃ v g, after.get k n = some ((o.mapSpec m).versioned v g)
  /-- A ServiceAccount or Secret that existed is unchanged. -/
  kept : ∀ {k n o}, k = .serviceAccount ∨ k = .secret → before.get k n = some o →
    after.get k n = some o
  /-- Of the cluster itself only the status is written. -/
  cluster : ∃ st v, after.get .postgresCluster c.key = some (c.withStatus st v)
  /-- No other object is created, changed or removed. -/
  others : ∀ {k n}, (k, n) ∉ targets c → (k, n) ≠ (.postgresCluster, c.key) →
    after.get k n = before.get k n

section

variable {T : RuneTables} {r : PostgresClusterReconciler} {c : PostgresCluster} {s s' : Store}

private theorem settled_managed {k : Kind} {n : NamespacedName} {m : Spec k → Spec k}
    (h : Converged c s) (hm : managed c k n = some m) :
    ∃ o, s.get k n = some o ∧ m o.spec = o.spec := by
  obtain ⟨o, ho, hfix⟩ := h.settled (k, n) (mem_targets_of_managed hm)
  exact ⟨o, ho, hfix m hm⟩

private theorem settled_ensured {k : Kind} {n : NamespacedName} (h : Converged c s)
    (he : (policy c).ensured k n) : (s.get k n).isSome := by
  obtain ⟨o, ho, -⟩ := h.settled (k, n) (mem_targets_of_ensured he)
  exact Option.isSome_of_eq_some ho

/-- Following the policy to a converged state gives all of it. -/
theorem Converged.reconciled (h : Converged c s') (he : Evolves (policy c) s s')
    (hget : s.get .postgresCluster c.key = some c) : Reconciled c s s' where
  serviceAccount hname := settled_ensured h (.inl ⟨rfl, hname, rfl⟩)
  secret := settled_ensured h (.inr ⟨rfl, rfl⟩)
  configMap := by
    obtain ⟨o, ho, hfix⟩ := settled_managed h (managed_configMap c)
    exact ⟨o, ho, (congrArg ConfigMapSpec.data hfix.symm :)⟩
  statefulSet := by
    obtain ⟨o, ho, hfix⟩ := settled_managed h (managed_statefulSet c)
    exact ⟨o, ho, (congrArg StatefulSetSpec.replicas hfix.symm :),
      (congrArg StatefulSetSpec.template hfix.symm :)⟩
  services svc hsvc := by
    obtain ⟨o, ho, hfix⟩ := settled_managed h (managed_service hsvc)
    exact ⟨o, ho, (congrArg ServiceSpec.ports hfix.symm :),
      (congrArg ServiceSpec.selector hfix.symm :)⟩
  pdb := by
    obtain ⟨o, ho, hfix⟩ := settled_managed h (managed_pdb c)
    exact ⟨o, ho, hfix.symm⟩
  managedOnly {k n m o} hm ho := by
    obtain ⟨o', ho', hd⟩ := he.existing ho
    obtain ⟨o'', ho'', hfix⟩ := settled_managed h hm
    rw [ho', Option.some.injEq] at ho''
    subst ho''
    rw [Policy.Drift, show (policy c).managed k n = some m from hm] at hd
    obtain ⟨v, g, rfl | rfl⟩ := hd
    · refine ⟨v, g, ho'.trans (congrArg some ?_)⟩
      have hspec : m o.spec = o.spec := hfix
      simp only [Object.versioned, Object.mapSpec, hspec]
    · exact ⟨v, g, ho'⟩
  kept {k n o} hk ho := by
    obtain ⟨o', ho', hd⟩ := he.existing ho
    rcases hk with rfl | rfl <;> rcases hd with rfl | ⟨hr, -⟩
    · exact ho'
    · cases hr.1
    · exact ho'
    · cases hr.1
  cluster := evolves_cluster he hget
  others ht hc := get_eq_of_evolves he ht hc

/-- Convergence under partial failure. Reconciles of a live cluster may fail at any request,
any number of times. One reconcile in which nothing fails then succeeds and brings the objects
of the cluster to their desired state, a Secret seen after any of the attempts is kept, and a
further reconcile writes no object and records no event. -/
theorem reconcile_converges (T : RuneTables) (r : PostgresClusterReconciler)
    (c : PostgresCluster) (w : World) (hlive : Live c)
    (hget : w.objects.get .postgresCluster c.key = some c) (attempts : List (List Ambient))
    (es fs : List Ambient) (hes : ∀ e ∈ es, e.Clean) (hfs : ∀ f ∈ fs, f.Clean) :
    let between := runAll serve (reconcile T r c.key) attempts w
    let done := run serve (reconcile T r c.key) es between
    let again := run serve (reconcile T r c.key) fs done.2
    done.1 = ({ requeueAfter := 30 }, none) ∧
      Reconciled c w.objects done.2.objects ∧
      (∀ pre, pre <+: attempts → ∀ o,
        (runAll serve (reconcile T r c.key) pre w).objects.get .secret (secretKey c) = some o →
          done.2.objects.get .secret (secretKey c) = some o) ∧
      again.1 = ({ requeueAfter := 30 }, none) ∧ again.2.objects = done.2.objects ∧
      again.2.revision = done.2.revision ∧ again.2.events = done.2.events := by
  intro between done again
  have hbetween : Evolves (policy c) w.objects between.objects := evolves_attempts hlive hget _
  obtain ⟨st, v, hget₁⟩ := evolves_cluster hbetween hget
  obtain ⟨hdone, hsmooth⟩ := run_of_wp (by decide)
    (wp_reconcile (A := Ambient.Clean) (T := T) (r := r) hlive hget₁) hes
  obtain ⟨hres, hconv⟩ := hsmooth smooth_clean
  have hevolves : Evolves (policy c) w.objects done.2.objects := hbetween.trans hdone
  obtain ⟨st', v', hget₂⟩ := evolves_cluster hevolves hget
  obtain ⟨hagain, t, ht⟩ := run_of_wp (by decide)
    (wp_reconcile_of_converged (T := T) (r := r) hlive hget₂ hconv) hfs
  refine ⟨hres, hconv.reconciled hevolves hget, ?_, hagain, ?_, ?_, ?_⟩
  · intro pre hpre o ho
    have hpost := (evolves_attempts_of_isPrefix hlive hget hpre).trans hdone
    obtain ⟨o', ho', hd⟩ := hpost.existing ho
    rcases hd with rfl | ⟨hr, -⟩
    · exact ho'
    · cases hr.1
  · exact (congrArg World.objects ht :)
  · exact (congrArg World.revision ht :)
  · exact (congrArg World.events ht :)

end

/-- A cluster with the finalizer, as it is stored before its first reconcile. -/
def sampleCluster : PostgresCluster where
  metadata :=
    { name := lit "db"
      namespace_ := lit "default"
      uid := uidAt 1
      resourceVersion := 1
      generation := 1
      finalizers := [postgresClusterFinalizer] }
  spec := { postgresVersion := 16, instances := 3, storage := { size := .ofBinary 10 30 } }
  status := ({} : PostgresClusterStatus)

/-- The API server with that cluster and nothing else. -/
def sampleWorld : World where
  objects := Store.empty.put sampleCluster (by decide)
  revision := 1
  clock := 0
  events := []

/-- The sample is live. -/
theorem live_sampleCluster : Live sampleCluster := ⟨rfl, rfl, by decide⟩

/-- The first attempt fails when it creates the ConfigMap, the second at its first read. -/
theorem reconcile_converges_sampleCluster :
    Live sampleCluster ∧
      (run serve (reconcile .basic {} sampleCluster.key) []
        (runAll serve (reconcile .basic {} sampleCluster.key)
          [List.replicate 41 default ++ [{ fault := some (.other (lit "timeout")) }],
            [{ fault := some .notFound }]] sampleWorld)).1 = ({ requeueAfter := 30 }, none) :=
  ⟨live_sampleCluster, (reconcile_converges .basic {} sampleCluster sampleWorld live_sampleCluster
    (Store.get_put_self _ (by decide)) _ [] [] (fun _ h => nomatch h) (fun _ h => nomatch h)).1⟩

end Athos.Cluster
