import Athos.Cluster.Convergence
import Athos.Pooler.Steps

/-!
# Poolers on request

What the calls of the pooler controller leave behind in histories in which the annotation, the
objects and everything else change arbitrarily between the calls.
-/

namespace Athos.Pooler

open Base Base.Prog Kube Api Postgres List

/-- Reconciles of a pooler, with any change between two calls. -/
def poolerCalls (key : NamespacedName) : Process Op Res (Result × Option GoError) World Ambient :=
  calls (reconcile key) (fun _ => True) fun _ _ => True

/-- A Service of the pooler's name has the desired selector. -/
def Selects (c : PostgresCluster) (s : Store) : Prop :=
  ∀ o, s.get .service (desiredService c).key = some o →
    o.spec.selector = (desiredService c).spec.selector

/-- The objects of the pooler are there with the desired data, spec and ports. The selector of
a Service that is there already is not written. -/
structure Provided (c : PostgresCluster) (s s' : Store) : Prop where
  configMap : ∃ o, s'.get .configMap (desiredConfigMap c).key = some o ∧
    o.spec.data = (desiredConfigMap c).spec.data
  deployment : ∃ o, s'.get .deployment (desiredDeployment c).key = some o ∧
    o.spec = (desiredDeployment c).spec
  service : ∃ o, s'.get .service (desiredService c).key = some o ∧
    o.spec.ports = (desiredService c).spec.ports
  selector : Selects c s → Selects c s'

section

variable {A : Ambient → Prop} {c : PostgresCluster}

/-- A step keeps the selector, if the Service has it or is missing. -/
def KeepsSelector (A : Ambient → Prop) (c : PostgresCluster) {α : Type} (p : Action α) : Prop :=
  Within (within A) (fun w w' => Selects c w.objects → Selects c w'.objects) p

private theorem KeepsSelector.bind {α β : Type} {p : Action α} {f : α → Action β}
    (hp : KeepsSelector A c p) (hf : ∀ a, KeepsSelector A c (f a)) :
    KeepsSelector A c (p >>= f) :=
  Within.bind (within_monotone A) (fun _ _ _ h₁ h₂ h => h₂ (h₁ h)) hp hf

private theorem keepsSelector_return {α : Type} (a : α) : KeepsSelector A c (return a : Action α) :=
  Within.ret (fun _ h => h) a

private theorem keepsSelector_untilError {steps : List (Action (Except GoError Unit))}
    (h : ∀ step ∈ steps, KeepsSelector A c step) : KeepsSelector A c (untilError steps) := by
  induction steps with
  | nil => exact keepsSelector_return _
  | cons step steps ih =>
    obtain ⟨hstep, hsteps⟩ := forall_mem_cons.1 h
    refine hstep.bind ?_
    rintro (e | _)
    · exact keepsSelector_return _
    · exact ih hsteps

private theorem keepsSelector_of_secures {P : Policy} {ts : List (Kind × NamespacedName)}
    {step : Action (Except GoError Unit)} (h : Secures A P .service ts step) :
    KeepsSelector A c step := by
  intro w
  refine wp_mono (within_monotone A) (h w) ?_
  rintro _ w' ⟨⟨-, hservices⟩, -⟩ hw o ho
  rw [hservices] at ho
  exact hw o ho

private theorem keepsSelector_service (c : PostgresCluster) :
    KeepsSelector A c (reconcilePoolerService c defaultConfig) := by
  intro w
  by_cases h : Selects c w.objects
  · rw [reconcilePoolerService, reconcilePoolerObject, setControllerReference_new rfl rfl]
    refine wp_mono (within_monotone A) (wp_createOrUpdate_keeps
      (k := .service)
      (R := fun sp : ServiceSpec => sp.selector = (desiredService c).spec.selector) (by decide) rfl
      (fun _ hsp => hsp) (keeps_return A) (fun _ => keeps_return A) h) ?_
    exact fun _ _ hw' _ => hw'
  · exact wp_of_forall (fun _ _ hw => absurd hw h) _ _

private theorem keepsSelector_reconcileFetched (c : PostgresCluster) :
    KeepsSelector A c (reconcileFetched c) := by
  by_cases h : Pooled c
  · rw [reconcileFetched_of_pooled h]
    refine KeepsSelector.bind (keepsSelector_untilError ?_) ?_
    · simp only [forall_mem_cons]
      exact ⟨keepsSelector_of_secures (secures_poolerConfigMap c (by decide)),
        keepsSelector_of_secures (secures_poolerDeployment c (by decide)),
        keepsSelector_service c, forall_mem_nil _⟩
    · rintro (e | _)
      · exact keepsSelector_return _
      · exact keepsSelector_return _
  · rw [reconcileFetched_of_not_pooled h]
    exact keepsSelector_return _

private theorem provided_of_settled {s s' : Store}
    (h : ∀ t ∈ targets c, Settled (policy c) s' t.1 t.2) (hs : Selects c s → Selects c s') :
    Provided c s s' := by
  have hcm := h (.configMap, (desiredConfigMap c).key) (by simp [targets])
  have hdeploy := h (.deployment, (desiredDeployment c).key) (by simp [targets])
  have hsvc := h (.service, (desiredService c).key) (by simp [targets])
  refine ⟨?_, ?_, ?_, hs⟩
  · obtain ⟨o, ho, hm⟩ := hcm
    exact ⟨o, ho, (congrArg ConfigMapSpec.data (hm _ (if_pos rfl))).symm⟩
  · obtain ⟨o, ho, hm⟩ := hdeploy
    exact ⟨o, ho, (hm _ (if_pos rfl)).symm⟩
  · obtain ⟨o, ho, hm⟩ := hsvc
    exact ⟨o, ho, (congrArg ServiceSpec.ports (hm _ (if_pos rfl))).symm⟩

end

/-- What a call without an error leaves behind, for a cluster that is reconciled. -/
structure Follows (c : PostgresCluster) (s s' : Store) : Prop where
  requested : poolerRequested c = true → Provided c s s'
  otherwise : poolerRequested c = false → s' = s

/-- What a call leaves behind if it reports no error and its cluster is reconciled. -/
def CallFollows (key : NamespacedName) (x : Call (Result × Option GoError) World) : Prop :=
  ∀ c, x.before.objects.get .postgresCluster key = some c → c.spec.paused = false →
    c.metadata.deletionTimestamp = none → x.result.2 = none →
    Follows c x.before.objects x.after.objects

private theorem follows_of_pooled {c : PostgresCluster} {s s' : Store} (hp : c.spec.paused = false)
    (hd : c.metadata.deletionTimestamp = none) (hno : ¬ Pooled c → s' = s)
    (hyes : Pooled c → Provided c s s') : Follows c s s' where
  requested h := hyes ⟨hp, hd, h⟩
  otherwise h := by
    apply hno
    intro hpooled
    rw [hpooled.requested] at h
    cases h

private theorem wp_reconcile_follows (key : NamespacedName) (w : World) :
    wp (within Ambient.Honest) (reconcile key) (fun res w' => CallFollows key ⟨w, res, w'⟩) w := by
  refine wp_lookup ?_ ?_ ?_
  · intro e hne _ t
    cases e with
    | notFound => exact absurd rfl hne
    | alreadyExists | conflict | invalid | other _ => exact fun _ _ _ _ hres => nomatch hres
  · intro hmissing t c hc
    cases (hmissing.resolve_left not_faults_honest).symm.trans hc
  · intro c hget t
    refine wp_mono (within_monotone _) (wp_and (wp_reconcileFetched (w.advance t))
      (keepsSelector_reconcileFetched c (w.advance t))) ?_
    rintro res w' ⟨⟨-, hno, hyes, -⟩, hsel⟩ c' hc' hp hd hres
    obtain rfl : c = c' := Option.some.inj (hget.symm.trans hc')
    exact follows_of_pooled hp hd hno fun hpooled =>
      provided_of_settled (hyes hpooled hres) hsel

/-- After every call of a history that reports no error, on a cluster neither paused nor being
deleted, the pooler is provided if the annotation asks for it, and otherwise nothing has
changed. -/
theorem pooler_follows {key : NamespacedName} {h : List (Call (Result × Option GoError) World)}
    {w : World} (hh : (poolerCalls key).History h w) : ∀ x ∈ h, CallFollows key x := by
  intro x hx
  exact hh.of_mem (by decide : Ambient.Honest default) (wp_reconcile_follows key) hx

/-- The sample cluster with the annotation. -/
def sampleEnabled : PostgresCluster :=
  { Cluster.sampleCluster with
    metadata := { Cluster.sampleCluster.metadata with
      annotations := mapOf [(lit "pg.athos.io/enable-pooler", lit "true")] } }

/-- The API server with that cluster only. -/
def sampleRequest : World :=
  { Cluster.sampleWorld with objects := Store.empty.put sampleEnabled (by decide) }

private theorem sampleCluster_pinned : Cluster.sampleCluster.metadata.Pinned := by decide

/-- The annotation is removed. -/
def withoutRequest (w : World) : World :=
  { w with objects := w.objects.put Cluster.sampleCluster sampleCluster_pinned }

/-- The call that finds the annotation provides the pooler. -/
theorem pooler_follows_sampleEnabled :
    Provided sampleEnabled sampleRequest.objects
      (smoothCall (reconcile sampleEnabled.key) sampleRequest).after.objects := by
  have hhist : (poolerCalls sampleEnabled.key).History
      [smoothCall (reconcile sampleEnabled.key) sampleRequest]
      (smoothCall (reconcile sampleEnabled.key) sampleRequest).after :=
    history_smoothCall (.start trivial)
  exact (pooler_follows hhist _ mem_cons_self sampleEnabled
    (Store.get_put_self _ (by decide)) rfl rfl (by decide +kernel)).requested (by decide +kernel)

/-- Without the annotation the ConfigMap, Deployment and Service of the last request stay, and
the cluster controls them. -/
theorem pooler_stays_sampleEnabled :
    ∃ h x y, (poolerCalls sampleEnabled.key).History (y :: x :: h) y.after ∧
      y.before.objects.get .postgresCluster sampleEnabled.key = some Cluster.sampleCluster ∧
      poolerRequested Cluster.sampleCluster = false ∧ y.result.2 = none ∧
      ((y.after.objects.get .configMap (desiredConfigMap sampleEnabled).key).bind
        fun o => controllerOf o.metadata).map (·.uid) = some Cluster.sampleCluster.metadata.uid ∧
      ((y.after.objects.get .deployment (desiredDeployment sampleEnabled).key).bind
        fun o => controllerOf o.metadata).map (·.uid) = some Cluster.sampleCluster.metadata.uid ∧
      ((y.after.objects.get .service (desiredService sampleEnabled).key).bind
        fun o => controllerOf o.metadata).map (·.uid) =
          some Cluster.sampleCluster.metadata.uid := by
  let x := smoothCall (reconcile sampleEnabled.key) sampleRequest
  let y := smoothCall (reconcile sampleEnabled.key) (withoutRequest x.after)
  have hhist : (poolerCalls sampleEnabled.key).History [y, x] y.after :=
    history_smoothCall (.edit (history_smoothCall (.start trivial)) trivial)
  exact ⟨[], x, y, hhist, Store.get_put_self _ sampleCluster_pinned, by decide +kernel,
    by decide +kernel, by decide +kernel, by decide +kernel, by decide +kernel⟩

end Athos.Pooler
