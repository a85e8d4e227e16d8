import Athos.Backup.Safety

/-!
# The time stamps of a backup

The start time is written by the request that follows the creation of the Job. If each created Job
is recorded, the time stamps are complete in every state; a failure between the two requests leaves
a backup without a start time for ever.
-/

namespace Athos.Backup

open Base Base.Prog Kube Api Postgres List

section

variable {T : RuneTables} {careful : Prop} {n : NamespacedName} {s s' : Timeline}

/-- A started backup has a start time, a finished one also a completion time after it. -/
def Complete (st : PostgresBackupStatus) : Prop :=
  (st.phase = .running → st.startTime.isSome = true) ∧
    (isTerminal st.phase = true →
      ∃ t t', st.startTime = some t ∧ st.completionTime = some t' ∧ t ≤ t')

/-- Statuses are complete, start times are in the past, and a Job that exists and is recorded
belongs to a backup that has started. -/
structure Stamped (n : NamespacedName) (s : Timeline) : Prop where
  complete : ∀ {b}, s.world.objects.get .postgresBackup n = some b → Complete b.status
  past : ∀ {h b t}, h ∈ s.worlds → h.objects.get .postgresBackup n = some b →
    b.status.startTime = some t → t ≤ h.clock
  started : ∀ {b}, (s.world.objects.get .job (jobKey n)).isSome = true →
    recording s.log = false → s.world.objects.get .postgresBackup n = some b →
    b.status.phase = .running ∨ isTerminal b.status.phase = true

private theorem Stamped.same (h : Stamped n s) (hpast : s'.past = s.world :: s.past)
    (hback : s'.world.objects.get .postgresBackup n = s.world.objects.get .postgresBackup n)
    (hstart : (s'.world.objects.get .job (jobKey n)).isSome = true → recording s'.log = false →
      (s.world.objects.get .job (jobKey n)).isSome = true ∧ recording s.log = false) :
    Stamped n s' := by
  have hclock := (grows_of_past hpast).clock
  refine ⟨fun hb => h.complete (hback ▸ hb), fun {x b t} hx hb ht => ?_, fun hj hr hb => ?_⟩
  · rw [Timeline.worlds, hpast, mem_cons] at hx
    rcases hx with rfl | hx
    · exact Int.le_trans (h.past mem_cons_self (hback ▸ hb) ht) hclock
    · exact h.past hx hb ht
  · exact h.started (hstart hj hr).1 (hstart hj hr).2 (hback ▸ hb)

private theorem Stamped.environment (h : Stamped n s)
    (he : (system T n careful).environment s s') : Stamped n s' := by
  obtain ⟨hu, hpast, hlog⟩ := he
  refine h.same hpast (hu.backups n) fun hj hr => ?_
  rw [hu.jobs] at hj
  rw [hlog] at hr
  exact ⟨hj, hr⟩

private theorem Stamped.request (h : Stamped n s) (hc : Consistent n s) {b : PostgresBackup}
    (hb : s.world.objects.get .postgresBackup n = some b)
    (hopen : isTerminal b.status.phase = false) {st : PostgresBackupStatus}
    (hreq : StatusRequest True n s b st) :
    Complete st ∧ (∀ t, st.startTime = some t → t ≤ s.world.clock) ∧
      ((s.world.objects.get .job (jobKey n)).isSome = true →
        st.phase = .running ∨ isTerminal st.phase = true) := by
  have hpast : ∀ t, b.status.startTime = some t → t ≤ s.world.clock :=
    fun t ht => h.past mem_cons_self hb ht
  cases hreq with
  | noted cs hrest => exact ⟨h.complete hb, hpast, fun hj => h.started hj (hrest trivial) hb⟩
  | started t cs ht =>
    refine ⟨⟨fun _ => rfl, fun hterm => nomatch hterm⟩, fun t' ht' => ?_, fun _ => .inl rfl⟩
    cases ht'
    exact ht
  | ended phase t cs hphase hby hjob hrest =>
    obtain ⟨w, hw, hjw⟩ := hjob
    -- The Job was seen, so the backup has started, and its start was seen by then.
    have hrun : b.status.phase = .running :=
      (h.started (hc.jobs hw hjw) (hrest trivial) hb).resolve_right (by simp [hopen])
    obtain ⟨t₀, ht₀⟩ := Option.isSome_iff_exists.1 ((h.complete hb).1 hrun)
    obtain ⟨w', hw', hget, hle⟩ := hby
    have horder : t₀ ≤ t := Int.le_trans (h.past hw' hget ht₀) hle
    refine ⟨⟨fun hr => ?_, fun _ => ⟨t₀, t, ht₀, rfl, horder⟩⟩, hpast, fun _ => .inr hphase⟩
    rw [show phase = .running from hr] at hphase
    cases hphase

private theorem Stamped.effect (h : Stamped n s) (hc : Consistent n s)
    (hpast : s'.past = s.world :: s.past) (he : Effect True n s s') : Stamped n s' := by
  cases he with
  | quiet hobj _ _ hrec =>
    refine h.same hpast (by rw [hobj]) fun hj hr => ?_
    rw [hobj] at hj
    exact ⟨hj, hrec ▸ hr⟩
  | created _ _ hback _ _ hrec =>
    refine h.same hpast hback fun _ hr => ?_
    rw [hrec] at hr
    cases hr
  | stored b st v hbefore hopen hreq hafter _ hjob _ _ =>
    obtain ⟨hcomplete, hstart, hphase⟩ := h.request hc hbefore hopen hreq
    have hclock := (grows_of_past hpast).clock
    refine ⟨fun {b'} hb' => ?_, fun {x b' t} hx hb' ht => ?_, fun {b'} hj _ hb' => ?_⟩
    · rw [hafter, Option.some.injEq] at hb'
      rw [← hb']
      exact hcomplete
    · rw [Timeline.worlds, hpast, mem_cons] at hx
      rcases hx with rfl | hx
      · rw [hafter, Option.some.injEq] at hb'
        rw [← hb'] at ht
        exact Int.le_trans (hstart t ht) hclock
      · exact h.past hx hb' ht
    · rw [hafter, Option.some.injEq] at hb'
      rw [← hb']
      exact hphase (hjob ▸ hj)

end

/-- Time stamps are complete. In every run in which each created Job is recorded, that is, the
status write that follows its creation does not fail and the worker is not lost in between,
the stored status of a backup that started with an empty one is complete. -/
theorem backup_stamped (T : RuneTables) (n : NamespacedName) (w : World)
    (hrev : ∀ b, w.objects.get .postgresBackup n = some b →
      b.metadata.resourceVersion ≤ w.revision)
    (hnew : ∀ b, w.objects.get .postgresBackup n = some b → b.status = {})
    (hjob : w.objects.get .job (jobKey n) = none)
    {c : Config Op Res (Result × Option GoError) Timeline}
    (hrun : (system T n True).Run ⟨.begin w, none⟩ c) :
    ∀ b, c.state.world.objects.get .postgresBackup n = some b → Complete b.status := by
  have hi : Consistent n (.begin w) ∧ Stamped n (.begin w) := by
    refine ⟨consistent_begin hrev, fun hb => ?_, fun {x b t} hx hb ht => ?_, fun hj => ?_⟩
    · rw [hnew _ hb]
      exact ⟨nofun, nofun⟩
    · rw [mem_singleton.1 hx] at hb
      rw [hnew _ hb] at ht
      cases ht
    · rw [show (Timeline.begin w).world.objects.get .job (jobKey n) = none from hjob] at hj
      cases hj
  intro b hb
  have hc := (disciplined T n True).invariant (I := fun s => Consistent n s ∧ Stamped n s) ?_ ?_ hi
    (fun _ => rfl) hrun
  · exact hc.2.complete hb
  · exact fun hi he => ⟨hi.1.environment he, hi.2.environment he⟩
  · exact fun hi hp ha => ⟨consistent_request hi.1 hp ha,
      hi.2.effect hi.1 ha.1.past (effect_of_permitted hi.1 hp ha.1)⟩

/-- A worker whose writes all succeed. -/
theorem backup_stamped_sampleBackup :
    ∃ c, (system .basic sampleBackup.key True).Run ⟨.begin sampleWorld, none⟩ c ∧
      c.state.world = (run serve (reconcile .basic sampleBackup.key) [] sampleWorld).2 ∧
      ∀ b, c.state.world.objects.get .postgresBackup sampleBackup.key = some b →
        Complete b.status := by
  obtain ⟨s, hrun, hw⟩ := exists_run .basic sampleBackup.key True [] (.begin sampleWorld)
    (fun x hx _ => (show ∀ x ∈ trace serve (reconcile .basic sampleBackup.key) [] sampleWorld,
      failedReport x.1 x.2 = false by decide +kernel) x hx)
  refine ⟨_, hrun, hw, backup_stamped .basic sampleBackup.key sampleWorld ?_ ?_ ?_ hrun⟩
  · intro b hb
    rw [sampleWorld_backup hb]
    decide
  · intro b hb
    rw [sampleWorld_backup hb]
    rfl
  · decide +kernel

/-- The Job of the sample backup, as it reports its completion. -/
def sampleJobDone : Job :=
  { (buildBackupJob sampleBackup sampleRunning).created 3 with
    status := ({ conditions := [{ type := .complete, status := .true }] } : JobStatus) }

/-- The status write after the creation of the Job times out; the Job then completes. -/
theorem backup_unstamped_sampleBackup :
    ∃ c b, (system .basic sampleBackup.key False).Run ⟨.begin sampleWorld, none⟩ c ∧
      c.state.world.objects.get .postgresBackup sampleBackup.key = some b ∧
      b.status.phase = .completed ∧ b.status.startTime = none := by
  obtain ⟨s₁, hrun₁, hw₁⟩ := exists_run .basic sampleBackup.key False
    (List.replicate 6 default ++ [{ fault := some (.other (lit "timeout")) }])
    (.begin sampleWorld) (fun _ _ h => h.elim)
  obtain ⟨s₂, hrun₂, hw₂⟩ := exists_run_jobStatus .basic sampleBackup.key False
    sampleJobDone s₁
  obtain ⟨s₃, hrun₃, hw₃⟩ := exists_run .basic sampleBackup.key False [] s₂
    (fun _ _ h => h.elim)
  have hstatus : (s₃.world.objects.get .postgresBackup sampleBackup.key).map
      (fun b => (b.status.phase, b.status.startTime)) = some (.completed, none) := by
    rw [hw₃, hw₂, hw₁]
    decide +kernel
  obtain ⟨b, hb, heq⟩ := Option.map_eq_some_iff.1 hstatus
  rw [Prod.mk.injEq] at heq
  exact ⟨_, b, (hrun₁.trans hrun₂).trans hrun₃, hb, heq⟩

end Athos.Backup
