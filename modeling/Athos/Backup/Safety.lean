import Athos.Backup.Requests

/-!
# The backup state machine

Over every run of the controller among late and failing requests: at most one Job is created, phases
only move forward, and a terminal status is never written again. If every created Job is recorded,
the time stamps are complete as well.
-/

namespace Athos.Backup

open Base Base.Prog Kube Api Postgres List Option

/-- The versions of the backup: every state so far held the current one or an older one. -/
structure Consistent (n : NamespacedName) (s : Timeline) : Prop where
  revision : ∀ {b}, s.world.objects.get .postgresBackup n = some b →
    b.metadata.resourceVersion ≤ s.world.revision
  versions : ∀ {h b}, h ∈ s.worlds → h.objects.get .postgresBackup n = some b →
    ∃ b', s.world.objects.get .postgresBackup n = some b' ∧
      (b = b' ∨ b.metadata.resourceVersion < b'.metadata.resourceVersion)
  jobs : ∀ {h}, h ∈ s.worlds → (h.objects.get .job (jobKey n)).isSome = true →
    (s.world.objects.get .job (jobKey n)).isSome = true
  created : createdJobs s.log = 0 ∨
    createdJobs s.log = 1 ∧ (s.world.objects.get .job (jobKey n)).isSome = true

/-- What an answered request of the controller does: nothing, create the Job, or store a
status computed from the current version of the backup. -/
inductive Effect (careful : Prop) (n : NamespacedName) (s s' : Timeline) : Prop
  | quiet (objects : s'.world.objects = s.world.objects)
    (revision : s'.world.revision = s.world.revision)
    (created : createdJobs s'.log = createdJobs s.log)
    (record : recording s'.log = recording s.log)
  | created (absent : s.world.objects.get .job (jobKey n) = none)
    (present : (s'.world.objects.get .job (jobKey n)).isSome = true)
    (backup : s'.world.objects.get .postgresBackup n = s.world.objects.get .postgresBackup n)
    (revision : s'.world.revision = s.world.revision + 1)
    (created : createdJobs s'.log = createdJobs s.log + 1)
    (record : recording s'.log = true)
  | stored (b : PostgresBackup) (st : PostgresBackupStatus) (v : Nat)
    (before : s.world.objects.get .postgresBackup n = some b)
    (open_ : isTerminal b.status.phase = false)
    (request : StatusRequest careful n s b st)
    (after : s'.world.objects.get .postgresBackup n = some (b.withStatus st v))
    (revision : st = b.status ∧ v = b.metadata.resourceVersion ∧
      s'.world.revision = s.world.revision ∨
      v = s.world.revision + 1 ∧ s'.world.revision = s.world.revision + 1)
    (job : s'.world.objects.get .job (jobKey n) = s.world.objects.get .job (jobKey n))
    (created : createdJobs s'.log = createdJobs s.log)
    (record : recording s'.log = false)

section

variable {T : RuneTables} {careful : Prop} {n : NamespacedName} {s s' : Timeline}

private theorem effect_quiet {op : Op} {r : Res op} (ha : Timeline.Answers op s r s')
    (hw : ∃ t, s'.world = s.world.advance t) (hm : mark op r = .other) :
    Effect careful n s s' := by
  obtain ⟨t, ht⟩ := hw
  refine .quiet (by rw [ht]; rfl) (by rw [ht]; rfl) ?_ ?_
  · rw [ha.log, createdJobs, countP_cons, hm]
    rfl
  · rw [ha.log, recording, hm]

private theorem effect_create {o : Job} {r : Except ApiError Job}
    (ha : Timeline.Answers (.create .job o) s r s') (hkey : o.key = jobKey n) :
    Effect careful n s s' := by
  obtain ⟨t, ⟨hw, e, rfl⟩ | hserved⟩ := ha.create
  · exact effect_quiet ha ⟨t, hw⟩ rfl
  cases hget : s.world.objects.get .job (jobKey n) with
  | some cur =>
    rw [World.create_of_some (w := s.world.advance t) (by rw [hkey]; exact hget),
      Prod.mk.injEq] at hserved
    obtain ⟨rfl, hw⟩ := hserved
    exact effect_quiet ha ⟨t, hw.symm⟩ rfl
  | none =>
    rw [World.create_of_none (w := s.world.advance t) (by rw [hkey]; exact hget),
      Prod.mk.injEq] at hserved
    obtain ⟨rfl, hw⟩ := hserved
    have hcreated : createdJobs s'.log = createdJobs s.log + 1 := by
      rw [ha.log, createdJobs, countP_cons]
      rfl
    refine .created hget ?_ ?_ (by rw [← hw]; rfl) hcreated (by rw [ha.log]; rfl)
    · rw [← hw, ← hkey]
      exact isSome_of_eq_some (Store.get_put_self _ (World.created_pinned o _))
    · rw [← hw]
      exact Store.get_put_of_ne _ (World.created_pinned o _) (by simp)

private theorem effect_updateStatus (hc : Consistent n s) {o : PostgresBackup}
    {r : Except ApiError PostgresBackup}
    (ha : Timeline.Answers (.updateStatus .postgresBackup o) s r s')
    (hp : Permitted careful n (.updateStatus .postgresBackup o) s) :
    Effect careful n s s' := by
  obtain ⟨b, st, hseen, hb, hreq, rfl⟩ := hp
  have hkey : b.key = n := hseen.key
  obtain ⟨t, ⟨hw, e, rfl⟩ | hserved⟩ := ha.updateStatus
  · exact effect_quiet ha ⟨t, hw⟩ rfl
  rcases World.updateStatus_cases (s.world.advance t)
    ({ b with status := st } : PostgresBackup) with ⟨e, he⟩ | ⟨cur, hcur, hv, hres⟩
  · rw [he, Prod.mk.injEq] at hserved
    obtain ⟨rfl, hw⟩ := hserved
    exact effect_quiet ha ⟨t, hw.symm⟩ rfl
  -- The write was accepted, so the backup it was computed from is the current one.
  have hbcur : b = cur := by
    obtain ⟨w, hw, hget⟩ := hseen
    obtain ⟨b', hb', hor⟩ := hc.versions hw hget
    have hcur' : s.world.objects.get .postgresBackup n = some cur := hkey ▸ hcur
    rw [hcur', some.injEq] at hb'
    subst hb'
    exact hor.resolve_right fun hlt => absurd hv (Nat.ne_of_lt hlt)
  subst hbcur
  have hbefore : s.world.objects.get .postgresBackup n = some b := hkey ▸ hcur
  have hlog : ∀ o', r = .ok o' → createdJobs s'.log = createdJobs s.log ∧
      recording s'.log = false := by
    rintro o' rfl
    rw [ha.log, createdJobs, countP_cons]
    exact ⟨rfl, rfl⟩
  rcases hres with ⟨hst, he⟩ | ⟨hpin, he⟩
  · rw [he, Prod.mk.injEq] at hserved
    obtain ⟨hr, hw⟩ := hserved
    obtain ⟨hcreated, hrec⟩ := hlog _ hr.symm
    refine .stored b st b.metadata.resourceVersion hbefore hb hreq ?_ (.inl ⟨hst, rfl, ?_⟩) ?_
      hcreated hrec
    · rw [← hw, show st = b.status from hst]
      exact hbefore
    · rw [← hw]
      rfl
    · rw [← hw]
      rfl
  · rw [he, Prod.mk.injEq] at hserved
    obtain ⟨hr, hw⟩ := hserved
    obtain ⟨hcreated, hrec⟩ := hlog _ hr.symm
    refine .stored b st (s.world.revision + 1) hbefore hb hreq ?_ (.inr ⟨rfl, ?_⟩) ?_
      hcreated hrec
    · rw [← hw, ← hkey]
      exact Store.get_put_self _ hpin
    · rw [← hw]
      rfl
    · rw [← hw]
      exact Store.get_put_of_ne _ hpin (by simp)

/-- Every permitted request has such an effect. -/
theorem effect_of_permitted (hc : Consistent n s) {op : Op} {r : Res op}
    (hp : Permitted careful n op s) (ha : Timeline.Answers op s r s') :
    Effect careful n s s' := by
  cases op with
  | get k m => exact effect_quiet ha ha.get.1 rfl
  | now => exact effect_quiet ha ha.now.1 rfl
  | create k o =>
    cases k with
    | job => exact effect_create ha hp
    | _ => exact hp.elim
  | updateStatus k o =>
    cases k with
    | postgresBackup => exact effect_updateStatus hc ha hp
    | _ => exact hp.elim
  | update | randInt | exec | event => exact hp.elim

private theorem Consistent.next (hc : Consistent n s) (hpast : s'.past = s.world :: s.past)
    (hrev : s.world.revision ≤ s'.world.revision)
    (hbackup : s'.world.objects.get .postgresBackup n = s.world.objects.get .postgresBackup n ∨
      ∃ b b', s.world.objects.get .postgresBackup n = some b ∧
        s'.world.objects.get .postgresBackup n = some b' ∧
        b'.metadata.resourceVersion = s.world.revision + 1 ∧
        s'.world.revision = s.world.revision + 1)
    (hjob : (s.world.objects.get .job (jobKey n)).isSome = true →
      (s'.world.objects.get .job (jobKey n)).isSome = true)
    (hcreated : createdJobs s'.log = 0 ∨
      createdJobs s'.log = 1 ∧ (s'.world.objects.get .job (jobKey n)).isSome = true) :
    Consistent n s' := by
  have hworlds : ∀ {h}, h ∈ s'.worlds → h = s'.world ∨ h ∈ s.worlds := by
    intro h hh
    rwa [Timeline.worlds, hpast, mem_cons] at hh
  refine ⟨fun hb => ?_, fun {h b} hh hb => ?_, fun {h} hh hj => ?_, hcreated⟩
  · rcases hbackup with heq | ⟨b, b', -, hb', hv, hr⟩
    · exact (hc.revision (heq ▸ hb)).trans hrev
    · rw [hb, some.injEq] at hb'
      rw [hb', hv, hr]
  · rcases hworlds hh with rfl | hh
    · exact ⟨b, hb, .inl rfl⟩
    obtain ⟨b₁, hb₁, hor⟩ := hc.versions hh hb
    rcases hbackup with heq | ⟨b₂, b', hb₂, hb', hv, hr⟩
    · exact ⟨b₁, heq.trans hb₁, hor⟩
    · -- Everything seen so far is at most at the old revision.
      have hle : b₁.metadata.resourceVersion ≤ s.world.revision := hc.revision hb₁
      refine ⟨b', hb', .inr ?_⟩
      rw [hv]
      rcases hor with rfl | hlt <;> omega
  · rcases hworlds hh with rfl | hh
    · exact hj
    · exact hjob (hc.jobs hh hj)

/-- Edits of others keep what is consistent. -/
theorem Consistent.environment (hc : Consistent n s)
    (he : (system T n careful).environment s s') : Consistent n s' := by
  obtain ⟨hu, hpast, hlog⟩ := he
  refine hc.next hpast hu.revision (.inl (hu.backups n)) (fun h => ?_) ?_
  · rw [hu.jobs]
    exact h
  · rw [hlog, hu.jobs]
    exact hc.created

private theorem Consistent.effect (hc : Consistent n s) (hpast : s'.past = s.world :: s.past)
    (he : Effect careful n s s') : Consistent n s' := by
  cases he with
  | quiet hobj hrev hcre _ =>
    refine hc.next hpast (Nat.le_of_eq hrev.symm) (.inl (by rw [hobj])) (fun h => ?_) ?_
    · rw [hobj]
      exact h
    · rw [hobj, hcre]
      exact hc.created
  | created habs hpres hback hrev hcre _ =>
    refine hc.next hpast (by omega) (.inl hback) (fun _ => hpres) (.inr ⟨?_, hpres⟩)
    -- No Job was created before, since there is none.
    rcases hc.created with h | ⟨-, h⟩
    · omega
    · rw [habs] at h
      cases h
  | stored b st v hbefore hopen _ hafter hrev hjob hcre _ =>
    have hle : s.world.revision ≤ s'.world.revision := by
      rcases hrev with ⟨-, -, h⟩ | ⟨-, h⟩ <;> omega
    refine hc.next hpast hle ?_ (fun h => ?_) ?_
    · rcases hrev with ⟨rfl, rfl, -⟩ | ⟨rfl, hr⟩
      · exact .inl (hafter.trans hbefore.symm)
      · exact .inr ⟨b, _, hbefore, hafter, rfl, hr⟩
    · rw [hjob]
      exact h
    · rw [hjob, hcre]
      exact hc.created

/-- How far a phase is. -/
def rank : BackupPhase → Nat
  | .empty | .pending => 0
  | .running => 1
  | .completed | .failed => 2

/-- How a stored status may change: not at all, or from an open phase without going back. -/
def Moves (st st' : PostgresBackupStatus) : Prop :=
  st' = st ∨ isTerminal st.phase = false ∧ (st'.phase = st.phase ∨ rank st.phase < rank st'.phase)

private theorem Moves.trans {st₁ st₂ st₃ : PostgresBackupStatus} (h₁ : Moves st₁ st₂)
    (h₂ : Moves st₂ st₃) : Moves st₁ st₃ := by
  rcases h₁ with rfl | ⟨hopen, h₁⟩
  · exact h₂
  · rcases h₂ with rfl | ⟨-, h₂⟩
    · exact .inr ⟨hopen, h₁⟩
    · refine .inr ⟨hopen, ?_⟩
      rcases h₁ with h₁ | h₁ <;> rcases h₂ with h₂ | h₂
      · exact .inl (h₂.trans h₁)
      · exact .inr (h₁ ▸ h₂)
      · exact .inr (h₂ ▸ h₁)
      · exact .inr (h₁.trans h₂)

/-- Every status that the controller asks for is a move. -/
theorem StatusRequest.moves {b : PostgresBackup} {st : PostgresBackupStatus}
    (h : StatusRequest careful n s b st) (hopen : isTerminal b.status.phase = false) :
    Moves b.status st := by
  refine .inr ⟨hopen, ?_⟩
  cases h with
  | noted => exact .inl rfl
  | started => cases hp : b.status.phase <;> simp_all [isTerminal, rank]
  | ended phase => cases hp : b.status.phase <;> cases phase <;> simp_all [isTerminal, rank]

/-- The stored backup stays and its status moves. -/
def Progress (n : NamespacedName) (s s' : Timeline) : Prop :=
  ∀ {b}, s.world.objects.get .postgresBackup n = some b →
    ∃ b', s'.world.objects.get .postgresBackup n = some b' ∧ Moves b.status b'.status

private theorem Effect.progress (he : Effect careful n s s') : Progress n s s' := by
  intro b hb
  cases he with
  | quiet hobj => exact ⟨b, hobj ▸ hb, .inl rfl⟩
  | created _ _ hback => exact ⟨b, hback.trans hb, .inl rfl⟩
  | stored b₁ st v hbefore hopen hreq hafter =>
    rw [hb, some.injEq] at hbefore
    subst hbefore
    exact ⟨_, hafter, hreq.moves hopen⟩

/-- A reconcile whose status writes are answered as the system demands. -/
theorem exists_run (T : RuneTables) (n : NamespacedName) (careful : Prop) (es : List Ambient)
    (s : Timeline)
    (h : ∀ x ∈ trace serve (reconcile T n) es s.world, careful → failedReport x.1 x.2 = false) :
    ∃ s', (system T n careful).Run ⟨s, none⟩ ⟨s', none⟩ ∧
      s'.world = (run serve (reconcile T n) es s.world).2 := by
  obtain ⟨s', hrun, hw⟩ := System.run_of_run (S := system T n careful) Timeline.world
    (G := fun op r => careful → failedReport op r = false) (fun a op s hg => by
      obtain ⟨s', ha, hw⟩ := Timeline.exists_answers a op s
      exact ⟨s', ⟨ha, fun hc _ => hg hc⟩, hw⟩) (reconcile T n) h
  exact ⟨s', .head .start hrun, hw⟩

/-- A Job reports its status. -/
theorem exists_run_jobStatus (T : RuneTables) (n : NamespacedName) (careful : Prop) (o : Job)
    (s : Timeline) :
    ∃ s', (system T n careful).Run ⟨s, none⟩ ⟨s', none⟩ ∧
      s'.world = (s.world.updateStatus o).2 := by
  have hclock : s.world.clock ≤ (s.world.updateStatus o).2.clock ∧
      Undisturbed s.world (s.world.updateStatus o).2 := by
    rcases World.updateStatus_cases s.world o with ⟨e, he⟩ | ⟨cur, hcur, -, ⟨-, he⟩ | ⟨hpin, he⟩⟩
    · rw [he]
      exact ⟨Int.le_refl _, fun _ => rfl, fun _ => rfl, Nat.le_refl _⟩
    · rw [he]
      exact ⟨Int.le_refl _, fun _ => rfl, fun _ => rfl, Nat.le_refl _⟩
    · rw [he]
      refine ⟨Int.le_refl _, fun m => Store.get_put_of_ne _ hpin (by simp), fun m => ?_,
        Nat.le_succ _⟩
      by_cases hm : m = (cur.withStatus o.status (s.world.revision + 1)).key
      · have hkey : m = o.key := hm.trans (s.world.objects.keyed hcur :)
        have hput : (s.world.objects.put _ hpin).get .job m = some _ :=
          hm ▸ Store.get_put_self _ hpin
        exact (isSome_of_eq_some hput).trans
          (isSome_of_eq_some (hkey ▸ hcur)).symm
      · exact congrArg Option.isSome (Store.get_put_of_ne _ hpin (by simpa using hm))
  have hordered : ∀ h ∈ s.world :: s.past, h.clock ≤ (s.world.updateStatus o).2.clock := by
    intro h hh
    rcases mem_cons.1 hh with rfl | hh
    · exact hclock.1
    · exact Int.le_trans (s.ordered h hh) hclock.1
  exact ⟨⟨(s.world.updateStatus o).2, s.world :: s.past, s.log, hordered⟩,
    .single (.environment ⟨hclock.2, rfl, rfl⟩), rfl⟩

/-- A backup not newer than the revision of the server is consistent at the beginning. -/
theorem consistent_begin {w : World}
    (h : ∀ b, w.objects.get .postgresBackup n = some b →
      b.metadata.resourceVersion ≤ w.revision) : Consistent n (.begin w) := by
  have hworlds : ∀ {x}, x ∈ (Timeline.begin w).worlds → x = w := fun hx => mem_singleton.1 hx
  refine ⟨fun hb => h _ hb, fun hx hb => ?_, fun hx hj => ?_, .inl rfl⟩
  · rw [hworlds hx] at hb
    exact ⟨_, hb, .inl rfl⟩
  · rwa [hworlds hx] at hj

/-- Permitted requests keep what is consistent. -/
theorem consistent_request {op : Op} {r : Res op} (hc : Consistent n s)
    (hp : Permitted careful n op s) (ha : (system T n careful).answer op s r s') :
    Consistent n s' := hc.effect ha.1.past (effect_of_permitted hc hp ha.1)

end

/-- Safety of the backup state machine. In every run of the controller on one backup, with
late lookups, failing requests and lost workers, at most one Job is created, and between any
two states of the run the stored backup keeps its status or moves from an open phase without
going back; in particular a terminal status does not change any more. -/
theorem backup_safety (T : RuneTables) (n : NamespacedName) (w : World)
    (hrev : ∀ b, w.objects.get .postgresBackup n = some b →
      b.metadata.resourceVersion ≤ w.revision)
    {c c' : Config Op Res (Result × Option GoError) Timeline}
    (hrun : (system T n False).Run ⟨.begin w, none⟩ c) (hrun' : (system T n False).Run c c') :
    createdJobs c'.state.log ≤ 1 ∧
      ∀ b, c.state.world.objects.get .postgresBackup n = some b →
        ∃ b', c'.state.world.objects.get .postgresBackup n = some b' ∧
          Moves b.status b'.status := by
  have hd := disciplined T n False
  have hrest : Rest False (.begin w) := nofun
  have hi := consistent_begin hrev
  constructor
  · have hc := hd.invariant (fun hc he => hc.environment he) consistent_request hi hrest
      (hrun.trans hrun')
    rcases hc.created with h | h <;> omega
  · intro b hb
    refine hd.related (R := Progress n) (fun hc he => hc.environment he) consistent_request ?_ ?_ ?_
      ?_ hi hrest hrun hrun' hb
    · exact fun _ b hb => ⟨b, hb, .inl rfl⟩
    · intro s₁ s₂ s₃ h₁ h₂ b hb
      obtain ⟨b', hb', hm⟩ := h₁ hb
      obtain ⟨b'', hb'', hm'⟩ := h₂ hb'
      exact ⟨b'', hb'', hm.trans hm'⟩
    · intro s s' _ he b hb
      exact ⟨b, (he.1.backups n).trans hb, .inl rfl⟩
    · exact fun hc hp ha => (effect_of_permitted hc hp ha.1).progress

/-- A new backup of a cluster that is running. -/
def sampleBackup : PostgresBackup where
  metadata :=
    { name := lit "nightly"
      namespace_ := lit "default"
      uid := uidAt 2
      resourceVersion := 2
      generation := 1 }
  spec := { clusterName := lit "db" }
  status := ({} : PostgresBackupStatus)

/-- The cluster. -/
def sampleRunning : PostgresCluster where
  metadata :=
    { name := lit "db", namespace_ := lit "default", uid := uidAt 1, resourceVersion := 1 }
  spec := { postgresVersion := 16, instances := 1, storage := { size := .ofBinary 10 30 } }
  status := ({ phase := .running } : PostgresClusterStatus)

/-- The API server with both. -/
def sampleWorld : World where
  objects := (Store.empty.put sampleRunning (by decide)).put sampleBackup (by decide)
  revision := 2
  clock := 0
  events := []

/-- The one backup of the sample. -/
theorem sampleWorld_backup {b : PostgresBackup}
    (hb : sampleWorld.objects.get .postgresBackup sampleBackup.key = some b) :
    b = sampleBackup := by
  rw [sampleWorld, Store.get_put_self, some.injEq] at hb
  exact hb.symm

/-- A worker that creates the Job and records it. -/
theorem backup_safety_sampleBackup :
    ∃ c, (system .basic sampleBackup.key False).Run ⟨.begin sampleWorld, none⟩ c ∧
      c.state.world = (run serve (reconcile .basic sampleBackup.key) [] sampleWorld).2 ∧
      createdJobs c.state.log ≤ 1 := by
  obtain ⟨s, hrun, hw⟩ := exists_run .basic sampleBackup.key False [] (.begin sampleWorld)
    (fun _ _ h => h.elim)
  refine ⟨_, hrun, hw, (backup_safety .basic sampleBackup.key sampleWorld ?_ .refl hrun).1⟩
  intro b hb
  rw [sampleWorld_backup hb]
  decide

end Athos.Backup
