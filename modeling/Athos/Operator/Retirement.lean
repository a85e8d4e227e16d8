import Athos.Backup.Conditions
import Athos.Backup.Timestamps
import Athos.User.Conditions

/-!
# Retired conditions

Whether the conditions of users and backups describe the last outcome. They do in histories in which
no earlier outcome left a condition of another type behind.
-/

namespace Athos.Operator

open Base Base.Prog Kube Api Postgres List Backup

/-- Reconciles of an object. Only they write its status; an object that is created starts with an
empty one. Everything else may change between two calls. -/
def statusCalls {k : Kind} (program : Action (Result × Option GoError)) (key : NamespacedName)
    (empty : Status k) : Process Op Res (Result × Option GoError) World Ambient :=
  calls program (fun w => ∀ o, w.objects.get k key = some o → o.status = empty)
    (fun w w' => ∀ o', w'.objects.get k key = some o' →
      o'.status = empty ∨ ∃ o, w.objects.get k key = some o ∧ o'.status = o.status)

/-- Reconciles of a user. -/
def userCalls (T : RuneTables) (r : User.PostgresUserReconciler) (key : NamespacedName) :
    Process Op Res (Result × Option GoError) World Ambient :=
  statusCalls (k := .postgresUser) (User.reconcile T r key) key {}

/-- Reconciles of a backup. -/
def backupCalls (T : RuneTables) (key : NamespacedName) :
    Process Op Res (Result × Option GoError) World Ambient :=
  statusCalls (k := .postgresBackup) (Backup.reconcile T key) key {}

/-- No condition of an applied user is false. -/
def UserRetired (key : NamespacedName) (w : World) : Prop :=
  ∀ u, w.objects.get .postgresUser key = some u → u.status.applied = true →
    ∀ x ∈ u.status.conditions, x.status ≠ .false

/-- The conditions of a backup that has ended do not say that its cluster is missing or not
ready. -/
def ClusterRetired (key : NamespacedName) (w : World) : Prop :=
  ∀ b, w.objects.get .postgresBackup key = some b →
    b.status.phase = .completed ∨ b.status.phase = .failed →
    ∀ x ∈ b.status.conditions,
      x.type = lit "ClusterFound" ∨ x.type = lit "ClusterReady" → x.status ≠ .false

/-- The conditions of a backup that has ended do not say that it runs. -/
def RunningRetired (key : NamespacedName) (w : World) : Prop :=
  ∀ b, w.objects.get .postgresBackup key = some b →
    b.status.phase = .completed ∨ b.status.phase = .failed →
    ∀ x ∈ b.status.conditions, x.type = lit "Running" → x.status ≠ .true

section

variable {T : RuneTables} {r : User.PostgresUserReconciler} {key : NamespacedName}
  {h : List (Call (Result × Option GoError) World)} {w : World}

private theorem status_of_history {k : Kind} {program : Action (Result × Option GoError)}
    {empty : Status k} {Q : World → Prop}
    {I : List (Call (Result × Option GoError) World) → Status k → Prop}
    (hh : (statusCalls program key empty).History h w) (hQ : ∀ x ∈ h, Q x.before)
    (hempty : ∀ h, I h empty)
    (hcall : ∀ h w, Q w → (∀ o, w.objects.get k key = some o → I h o.status) →
      wp (within Ambient.Honest) program (fun a w' => ∀ o', w'.objects.get k key = some o' →
        I (⟨w, a, w'⟩ :: h) o'.status) w) :
    ∀ o, w.objects.get k key = some o → I h o.status := by
  refine hh.invariant (I := fun h w => (∀ x ∈ h, Q x.before) →
    ∀ o, w.objects.get k key = some o → I h o.status)
    (by decide : Ambient.Honest default) ?_ ?_ ?_ hQ
  · intro w hinit _ o ho
    rw [hinit o ho]
    exact hempty []
  · intro h w w' ih hedit hQ o' ho'
    rcases hedit o' ho' with he | ⟨o, ho, he⟩
    · rw [he]
      exact hempty h
    · rw [he]
      exact ih hQ o ho
  · intro h w ih
    by_cases hall : Q w ∧ ∀ x ∈ h, Q x.before
    · exact wp_mono (within_monotone _) (hcall h w hall.1 (ih hall.2)) fun _ _ h' _ => h'
    · exact wp_of_forall (fun _ _ hQ => absurd (forall_mem_cons.1 hQ) hall) _ _

/-- The status of a user whose cluster was always running. -/
def OnlyApplied (st : PostgresUserStatus) : Prop :=
  (st.applied = false ∧ marks st.conditions = []) ∨
    marks st.conditions = [User.appliedMark st.applied]

private theorem OnlyApplied.attempted {u u' : PostgresUser} (hu : OnlyApplied u.status)
    (h : User.Attempted u u') : OnlyApplied u'.status := by
  obtain ⟨ok, hok, hm⟩ := h
  refine .inr ?_
  rw [hm, hok]
  rcases hu with ⟨-, hnil⟩ | hone
  · rw [hnil]
    rfl
  · rw [hone]
    cases ok <;> cases u.status.applied <;> rfl

private theorem onlyApplied_of_history (hh : (userCalls T r key).History h w)
    (hrun : ∀ x ∈ h, User.FindsRunning key x.before) :
    ∀ u, w.objects.get .postgresUser key = some u → OnlyApplied u.status := by
  refine status_of_history (I := fun _ st => OnlyApplied st) hh hrun (fun _ => .inl ⟨rfl, rfl⟩) ?_
  intro h w hfinds ih
  refine wp_mono (within_monotone _) (User.wp_reconcile_becomes T r hfinds) ?_
  intro _ w' hbecomes u' hu'
  obtain ⟨u, hu, he | he⟩ := hbecomes u' hu'
  · rw [he]
    exact ih u hu
  · exact (ih u hu).attempted he

private theorem userRetired_of_onlyApplied
    (h : ∀ u, w.objects.get .postgresUser key = some u → OnlyApplied u.status) :
    UserRetired key w := by
  intro u hu happlied x hx
  have hm : (x.type, x.status, x.reason) ∈ marks u.status.conditions := mem_marks.2 ⟨x, hx, rfl⟩
  rcases h u hu with ⟨hfalse, -⟩ | hone
  · rw [happlied] at hfalse
    cases hfalse
  · rw [hone, happlied, mem_singleton] at hm
    have hstatus : x.status = .true := (congrArg (fun m : Postgres.Mark => m.2.1) hm :)
    rw [hstatus]
    decide

/-- All conditions of a backup are of some types. -/
def OnlyTypes (types : List GoString) (st : PostgresBackupStatus) : Prop :=
  ∀ m ∈ marks st.conditions, m.1 ∈ types

private theorem OnlyTypes.put {types : List GoString} {st st' : PostgresBackupStatus}
    {m : Postgres.Mark} (h : OnlyTypes types st)
    (hst' : marks st'.conditions = putMark m (marks st.conditions)) (hm : m.1 ∈ types) :
    OnlyTypes types st' := by
  intro m' hmem
  rw [hst'] at hmem
  rcases mem_putMark hmem with rfl | hmem
  · exact hm
  · exact h m' hmem

/-- A backup whose cluster was always running has no condition about the cluster, and if its
Job always existed none about running. -/
theorem onlyTypes_of_history (hh : (backupCalls T key).History h w)
    (hrun : ∀ x ∈ h, FindsRunning key x.before) :
    ∀ b, w.objects.get .postgresBackup key = some b →
      OnlyTypes [lit "Running", lit "Complete"] b.status ∧
        ((∀ x ∈ h, FindsJob key x.before) → OnlyTypes [lit "Complete"] b.status) := by
  have hempty : ∀ types, OnlyTypes types ({} : PostgresBackupStatus) := fun _ => forall_mem_nil _
  refine status_of_history (I := fun h st => OnlyTypes [lit "Running", lit "Complete"] st ∧
    ((∀ x ∈ h, FindsJob key x.before) → OnlyTypes [lit "Complete"] st)) hh hrun
    (fun _ => ⟨hempty _, fun _ => hempty _⟩) ?_
  intro h w hfinds ih
  refine wp_mono (within_monotone _) (wp_reconcile_becomes T hfinds) ?_
  intro _ w' hbecomes b' hb'
  obtain ⟨b, hb, hcase⟩ := hbecomes b' hb'
  obtain ⟨hold, hold'⟩ := ih b hb
  rcases hcase with he | ⟨hjob, -, hm⟩ | ⟨status, reason, hm⟩
  · rw [he]
    exact ⟨hold, fun hj => hold' (forall_mem_cons.1 hj).2⟩
  · exact ⟨hold.put hm mem_cons_self, fun hj => absurd (forall_mem_cons.1 hj).1 hjob⟩
  · exact ⟨hold.put hm (mem_cons_of_mem _ mem_cons_self),
      fun hj => (hold' (forall_mem_cons.1 hj).2).put hm mem_cons_self⟩

private theorem type_mem_of_onlyTypes {types : List GoString} {st : PostgresBackupStatus}
    (h : OnlyTypes types st) {x : Condition} (hx : x ∈ st.conditions) : x.type ∈ types :=
  h _ (mem_marks.2 ⟨x, hx, rfl⟩)

end

/-- In histories in which no call finds the cluster missing or not running, an applied user has
no false condition and a backup that has ended none that says its cluster is missing or not
ready; if in addition no call finds the Job missing, none says that it runs. -/
theorem conditions_retired (T : RuneTables) (r : User.PostgresUserReconciler)
    (user backup : NamespacedName) {h h' : List (Call (Result × Option GoError) World)}
    {w w' : World} (hh : (userCalls T r user).History h w)
    (hh' : (backupCalls T backup).History h' w') (hrun : ∀ x ∈ h, User.FindsRunning user x.before)
    (hrun' : ∀ x ∈ h', FindsRunning backup x.before) :
    UserRetired user w ∧ ClusterRetired backup w' ∧
      ((∀ x ∈ h', FindsJob backup x.before) → RunningRetired backup w') := by
  refine ⟨userRetired_of_onlyApplied (onlyApplied_of_history hh hrun), ?_, ?_⟩
  · intro b hb _ x hx htype
    have hmem := type_mem_of_onlyTypes (onlyTypes_of_history hh' hrun' b hb).1 hx
    rcases htype with ht | ht
    · rw [ht] at hmem
      exact absurd hmem (by decide)
    · rw [ht] at hmem
      exact absurd hmem (by decide)
  · intro hjob b hb _ x hx htype
    have hmem := type_mem_of_onlyTypes ((onlyTypes_of_history hh' hrun' b hb).2 hjob) hx
    rw [htype] at hmem
    exact absurd hmem (by decide)

/-- A user of the sample cluster. -/
def sampleUser : PostgresUser where
  metadata :=
    { name := lit "app"
      namespace_ := lit "default"
      uid := uidAt 3
      resourceVersion := 3
      generation := 1 }
  spec := { clusterName := lit "db" }
  status := {}

/-- The API server with that user only. -/
def sampleMissing : World where
  objects := Store.empty.put sampleUser (by decide)
  revision := 3
  clock := 0
  events := []

private theorem sampleRunning_pinned : sampleRunning.metadata.Pinned := by decide

/-- The cluster appears. -/
def withCluster (w : World) : World :=
  { w with objects := w.objects.put sampleRunning sampleRunning_pinned }

private theorem sampleJobDone_pinned :
    sampleJobDone.metadata.Pinned := World.created_pinned _ 3

/-- The Job of the sample backup ends. -/
def withJobDone (w : World) : World :=
  { w with objects := w.objects.put sampleJobDone sampleJobDone_pinned }

private theorem sampleMissing_user {u : PostgresUser}
    (hu : (withCluster sampleMissing).objects.get .postgresUser sampleUser.key = some u) :
    u = sampleUser := by
  rw [withCluster, Store.get_put_of_ne _ sampleRunning_pinned (by simp), sampleMissing,
    Store.get_put_self, Option.some.injEq] at hu
  exact hu.symm

private theorem withJobDone_backup {w : World} :
    (withJobDone w).objects.get .postgresBackup sampleBackup.key =
      w.objects.get .postgresBackup sampleBackup.key :=
  Store.get_put_of_ne _ sampleJobDone_pinned (by simp)

/-- A user that is applied, and a backup whose Job is found and has ended. -/
theorem conditions_retired_sampleUser :
    let x := smoothCall (User.reconcile .basic {} sampleUser.key) (withCluster sampleMissing)
    let y := smoothCall (reconcile .basic sampleBackup.key)
      (withJobDone Backup.sampleWorld)
    (x.after.objects.get .postgresUser sampleUser.key).map (fun u => u.status.applied) = some true ∧
      UserRetired sampleUser.key x.after ∧
      (y.after.objects.get .postgresBackup sampleBackup.key).map (fun b => b.status.phase) =
        some .completed ∧
      ClusterRetired sampleBackup.key y.after ∧
      RunningRetired sampleBackup.key y.after := by
  intro x y
  have hx : (userCalls .basic {} sampleUser.key).History [x] x.after :=
    history_smoothCall (.start fun u hu => by rw [sampleMissing_user hu]; rfl)
  have hy : (backupCalls .basic sampleBackup.key).History [y] y.after := by
    refine history_smoothCall (.start fun b hb => ?_)
    rw [withJobDone_backup] at hb
    rw [sampleWorld_backup hb]
    rfl
  have hfound : ∀ b, y.before.objects.get .postgresBackup sampleBackup.key = some b →
      b = sampleBackup := fun b hb =>
    sampleWorld_backup (withJobDone_backup.symm.trans hb)
  obtain ⟨huser, hcluster, hrunning⟩ := conditions_retired .basic {} sampleUser.key
    sampleBackup.key hx hy
    (forall_mem_singleton.2 fun u hu => ⟨sampleRunning, by
      rw [sampleMissing_user hu]
      exact Store.get_put_self _ sampleRunning_pinned, by decide⟩)
    (forall_mem_singleton.2 fun b hb => ⟨sampleRunning, by
      rw [hfound b hb]
      decide +kernel, by decide⟩)
  refine ⟨by decide +kernel, huser, by decide +kernel, hcluster, hrunning ?_⟩
  refine forall_mem_singleton.2 fun b hb => ?_
  rw [hfound b hb]
  decide +kernel

/-- A user whose cluster was missing first keeps that condition when it is applied, and a backup
that ran keeps saying so when it is complete. -/
theorem conditions_stay_sampleUser :
    (∃ h w u, (userCalls .basic {} sampleUser.key).History h w ∧
      w.objects.get .postgresUser sampleUser.key = some u ∧ u.status.applied = true ∧
      (lit "ClusterFound", .false, lit "ClusterNotFound") ∈ marks u.status.conditions) ∧
    ∃ h w b, (backupCalls .basic sampleBackup.key).History h w ∧
      w.objects.get .postgresBackup sampleBackup.key = some b ∧
      b.status.phase = .completed ∧
      (lit "Running", .true, lit "JobCreated") ∈ marks b.status.conditions := by
  constructor
  · let x := smoothCall (User.reconcile .basic {} sampleUser.key) sampleMissing
    let y := smoothCall (User.reconcile .basic {} sampleUser.key) (withCluster x.after)
    have hhist : (userCalls .basic {} sampleUser.key).History [y, x] y.after := by
      refine history_smoothCall (.edit (history_smoothCall (.start fun u hu => ?_)) ?_)
      · rw [sampleMissing, Store.get_put_self, Option.some.injEq] at hu
        rw [← hu]
        rfl
      · intro u' hu'
        rw [withCluster, Store.get_put_of_ne _ sampleRunning_pinned (by simp)] at hu'
        exact .inr ⟨u', hu', rfl⟩
    have hstatus : (y.after.objects.get .postgresUser sampleUser.key).map
        (fun u => (u.status.applied, marks u.status.conditions)) =
        some (true, [(lit "ClusterFound", .false, lit "ClusterNotFound"),
          (lit "Applied", .true, lit "UserReconciled")]) := by decide +kernel
    obtain ⟨u, hu, heq⟩ := Option.map_eq_some_iff.1 hstatus
    rw [Prod.mk.injEq] at heq
    exact ⟨_, _, u, hhist, hu, heq.1, by rw [heq.2]; exact mem_cons_self⟩
  · let x := smoothCall (reconcile .basic sampleBackup.key) Backup.sampleWorld
    let y := smoothCall (reconcile .basic sampleBackup.key) (withJobDone x.after)
    have hhist : (backupCalls .basic sampleBackup.key).History [y, x] y.after := by
      refine history_smoothCall (.edit (history_smoothCall (.start fun b hb => ?_)) ?_)
      · rw [sampleWorld_backup hb]
        rfl
      · intro b' hb'
        rw [withJobDone_backup] at hb'
        exact .inr ⟨b', hb', rfl⟩
    have hstatus : (y.after.objects.get .postgresBackup sampleBackup.key).map
        (fun b => (b.status.phase, marks b.status.conditions)) =
        some (.completed, [(lit "Running", .true, lit "JobCreated"),
          (lit "Complete", .true, lit "JobSucceeded")]) := by decide +kernel
    obtain ⟨b, hb, heq⟩ := Option.map_eq_some_iff.1 hstatus
    rw [Prod.mk.injEq] at heq
    exact ⟨_, _, b, hhist, hb, heq.1, by rw [heq.2]; exact mem_cons_self⟩

end Athos.Operator
