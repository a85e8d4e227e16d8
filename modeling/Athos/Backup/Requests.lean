import Athos.Backup.Controller
import Athos.Kube.Timeline

/-!
# Which requests the backup controller makes

The controller as a worker among changes of cluster phases and Job statuses, with requests that fail
and lookups that are answered late. Whatever the answers, it creates only the Job of its backup, and
every status it asks to store is computed from a version of the backup that it has seen and that was
not in a terminal phase.
-/

namespace Athos.Backup

open Base Base.Prog Kube Api Postgres

/-- The key of the Job of a backup. -/
def jobKey (n : NamespacedName) : NamespacedName := ⟨n.namespace_, n.name ++ lit "-backup"⟩

/-- `BackupPhaseCompleted` and `BackupPhaseFailed` are final. -/
def isTerminal (phase : BackupPhase) : Bool := phase = .completed || phase = .failed

/-- What an answered request means for the record of a created Job. -/
inductive Mark where
  | created
  | recorded
  | other
  deriving DecidableEq

/-- Successful Job creations and successful status writes. -/
def mark : (op : Op) → Res op → Mark
  | .create .job _, .ok _ => .created
  | .updateStatus .postgresBackup _, .ok _ => .recorded
  | _, _ => .other

/-- A Job was created and no status was stored since. -/
def recording : List ((op : Op) × Res op) → Bool
  | [] => false
  | x :: log =>
    match mark x.1 x.2 with
    | .created => true
    | .recorded => false
    | .other => recording log

/-- The number of Jobs created. -/
def createdJobs (log : List ((op : Op) × Res op)) : Nat :=
  log.countP fun x => mark x.1 x.2 = .created

/-- A status write that failed. -/
def failedReport : (op : Op) → Res op → Bool
  | .updateStatus .postgresBackup _, .error _ => true
  | _, _ => false

/-- What others may do: change cluster phases and Job statuses, while time passes. Nobody
else writes the backup or creates or deletes its Job. -/
structure Undisturbed (w w' : World) : Prop where
  backups : ∀ n, w'.objects.get .postgresBackup n = w.objects.get .postgresBackup n
  jobs : ∀ n, (w'.objects.get .job n).isSome = (w.objects.get .job n).isSome
  revision : w.revision ≤ w'.revision

/-- The controller working on one backup. In a `careful` system a created Job is always
recorded: the status write after it does not fail and the worker is not lost in between.
A worker that is lost after a write also stands for an answer that is lost, since no request
follows a failed write. -/
def system (T : RuneTables) (n : NamespacedName) (careful : Prop) :
    System Op Res (Result × Option GoError) Timeline where
  program := reconcile T n
  environment s s' := Undisturbed s.world s'.world ∧ s'.past = s.world :: s.past ∧ s'.log = s.log
  answer op s r s' := Timeline.Answers op s r s' ∧
    (careful → recording s.log = true → failedReport op r = false)
  abort s := careful → recording s.log = false

/-- Some state so far held the backup. -/
def Seen (n : NamespacedName) (b : PostgresBackup) (s : Timeline) : Prop :=
  ∃ h ∈ s.worlds, h.objects.get .postgresBackup n = some b

/-- Some state up to a time held the backup. -/
def SeenBy (n : NamespacedName) (b : PostgresBackup) (t : Time) (s : Timeline) : Prop :=
  ∃ h ∈ s.worlds, h.objects.get .postgresBackup n = some b ∧ h.clock ≤ t

/-- Some state so far held the Job. -/
def JobSeen (n : NamespacedName) (s : Timeline) : Prop :=
  ∃ h ∈ s.worlds, (h.objects.get .job (jobKey n)).isSome = true

/-- The statuses that may be asked for, given the backup they are computed from. -/
inductive StatusRequest (careful : Prop) (n : NamespacedName) (s : Timeline) (b : PostgresBackup) :
    PostgresBackupStatus → Prop
  | noted (cs : List Condition) : (careful → recording s.log = false) →
    StatusRequest careful n s b { b.status with conditions := cs }
  | started (t : Time) (cs : List Condition) : t ≤ s.world.clock → recording s.log = true →
    StatusRequest careful n s b
      { b.status with phase := .running, startTime := some t, conditions := cs }
  | ended (phase : BackupPhase) (t : Time) (cs : List Condition) : isTerminal phase = true →
    SeenBy n b t s → JobSeen n s → (careful → recording s.log = false) →
    StatusRequest careful n s b
      { b.status with phase := phase, completionTime := some t, conditions := cs }

/-- The requests of the controller and when it makes them. -/
def Permitted (careful : Prop) (n : NamespacedName) : Op → Timeline → Prop
  | .get .., _ => True
  | .now, _ => True
  | .create .job o, _ => o.key = jobKey n
  | .updateStatus .postgresBackup o, s => ∃ b st, Seen n b s ∧ isTerminal b.status.phase = false ∧
    StatusRequest careful n s b st ∧ o = { b with status := st }
  | _, _ => False

section

variable {T : RuneTables} {careful : Prop} {n : NamespacedName} {b : PostgresBackup}
  {s s' : Timeline}

/-- States are not forgotten and the clock does not go backwards. -/
structure Grows (s s' : Timeline) : Prop where
  worlds : ∀ h ∈ s.worlds, h ∈ s'.worlds
  clock : s.world.clock ≤ s'.world.clock

/-- A timeline whose past is the whole of another one has grown. -/
theorem grows_of_past (h : s'.past = s.world :: s.past) : Grows s s' := by
  refine ⟨fun w hw => ?_, s'.ordered _ (by rw [h]; exact List.mem_cons_self)⟩
  rw [Timeline.worlds, h]
  exact List.mem_cons_of_mem _ hw

private theorem Seen.grows (h : Seen n b s) (hg : Grows s s') : Seen n b s' := by
  obtain ⟨w, hw, hget⟩ := h
  exact ⟨w, hg.worlds w hw, hget⟩

private theorem SeenBy.grows {t : Time} (h : SeenBy n b t s) (hg : Grows s s') :
    SeenBy n b t s' := by
  obtain ⟨w, hw, hget⟩ := h
  exact ⟨w, hg.worlds w hw, hget⟩

private theorem JobSeen.grows (h : JobSeen n s) (hg : Grows s s') : JobSeen n s' := by
  obtain ⟨w, hw, hget⟩ := h
  exact ⟨w, hg.worlds w hw, hget⟩

private theorem Seen.seenBy (h : Seen n b s) {t : Time} (ht : s.world.clock ≤ t) :
    SeenBy n b t s := by
  obtain ⟨w, hw, hget⟩ := h
  refine ⟨w, hw, hget, ?_⟩
  rcases List.mem_cons.1 hw with rfl | hw
  · exact ht
  · exact Int.le_trans (s.ordered w hw) ht

/-- A backup is seen under its own key. -/
theorem Seen.key (h : Seen n b s) : b.key = n := by
  obtain ⟨w, -, hget⟩ := h
  exact w.objects.keyed hget

variable {log : List ((op : Op) × Res op)} {o : PostgresBackup}

@[simp] private theorem recording_get {k : Kind} {m : NamespacedName} {r : Res (.get k m)} :
    recording (⟨.get k m, r⟩ :: log) = recording log := rfl

@[simp] private theorem recording_now {r : Res .now} :
    recording (⟨.now, r⟩ :: log) = recording log := rfl

@[simp] private theorem recording_create_ok {o o' : Job} :
    recording (⟨.create .job o, .ok o'⟩ :: log) = true := rfl

@[simp] private theorem recording_create_error {o : Job} {e : ApiError} :
    recording (⟨.create .job o, .error e⟩ :: log) = recording log := rfl

@[simp] private theorem recording_updateStatus_error {e : ApiError} :
    recording (⟨.updateStatus .postgresBackup o, .error e⟩ :: log) = recording log := rfl

/-- Nothing is left to be recorded, if it ever is. -/
def Rest (careful : Prop) (s : Timeline) : Prop := careful → recording s.log = false

/-- A fact about what was seen and logged. -/
def Lasting (F : Timeline → Prop) : Prop :=
  ∀ s s' : Timeline, Grows s s' → s'.log = s.log → F s → F s'

/-- Only permitted requests are made from `s` on, and nothing is left to be recorded. -/
abbrev Behaves (T : RuneTables) (n : NamespacedName) (careful : Prop) {α : Type} (p : Action α)
    (s : Timeline) : Prop :=
  wp ((system T n careful).asks (Permitted careful n)) p (fun _ s' => Rest careful s') s

private theorem behaves_request {F : Timeline → Prop} (hF : Lasting F) {op : Op} {α : Type}
    {k : Res op → Action α} (hs : F s)
    (hp : ∀ s₁, F s₁ → Permitted careful n op s₁)
    (h : ∀ s₁ s₂ r, F s₁ → Grows s₁ s₂ → Timeline.Answers op s₁ r s₂ →
      (careful → recording s₁.log = true → failedReport op r = false) →
      Behaves T n careful (k r) s₂) :
    Behaves T n careful (.call op k) s := by
  have hstable : (system T n careful).Stable F :=
    fun s s' he => hF s s' (grows_of_past he.2.1) he.2.2
  exact System.wp_asks hstable hs fun s₁ h₁ =>
    ⟨hp s₁ h₁, fun r s₂ ha => h s₁ s₂ r h₁ (grows_of_past ha.1.past) ha.1 ha.2⟩

/-- What the worker knows of the backup it works on. -/
structure Knows (careful : Prop) (n : NamespacedName) (b : PostgresBackup) (s : Timeline) :
    Prop where
  seen : Seen n b s
  rest : Rest careful s

private theorem lasting_knows : Lasting (Knows careful n b) :=
  fun _ _ hg hl h => ⟨h.seen.grows hg, fun hc => by rw [hl]; exact h.rest hc⟩

private theorem Knows.next (h : Knows careful n b s) (hg : Grows s s')
    (hl : recording s'.log = recording s.log) : Knows careful n b s' :=
  ⟨h.seen.grows hg, fun hc => hl.trans (h.rest hc)⟩

private theorem rest_of_updateStatus {r : Except ApiError PostgresBackup}
    (ha : Timeline.Answers (.updateStatus .postgresBackup o) s r s')
    (h : careful → recording s.log = true →
      failedReport (.updateStatus .postgresBackup o) r = false) : Rest careful s' := by
  intro hc
  rw [ha.log]
  cases r with
  | ok o' => rfl
  | error e =>
    rw [recording_updateStatus_error]
    cases hr : recording s.log with
    | false => rfl
    | true => cases h hc hr

section

variable (hk : Knows careful n b s) (hb : isTerminal b.status.phase = false)

include hk hb

private theorem behaves_waitWith {type reason message : GoString} {seconds : Int} :
    Behaves T n careful (waitWith b type reason message seconds) s := by
  refine behaves_request lasting_knows hk (fun _ _ => trivial) fun s₁ s₂ t h₁ hg ha _ => ?_
  have h₂ : Knows careful n b s₂ := h₁.next hg (by rw [ha.log, recording_now])
  refine behaves_request lasting_knows h₂ (fun s₃ h₃ => ?_) fun s₃ s₄ r _ _ ha hc => ?_
  · exact ⟨b, _, h₃.seen, hb, .noted _ h₃.rest, rfl⟩
  · exact rest_of_updateStatus ha hc

private theorem behaves_finishBackup (hj : JobSeen n s) {phase : BackupPhase}
    (hphase : isTerminal phase = true) {status : ConditionStatus} {reason message : GoString} :
    Behaves T n careful (finishBackup b phase status reason message) s := by
  have hlast : Lasting fun s => Knows careful n b s ∧ JobSeen n s :=
    fun _ _ hg hl h => ⟨lasting_knows _ _ hg hl h.1, h.2.grows hg⟩
  refine behaves_request hlast ⟨hk, hj⟩ (fun _ _ => trivial) fun s₁ s₂ t h₁ hg ha _ => ?_
  obtain ⟨-, rfl⟩ := ha.now
  have h₂ : Knows careful n b s₂ := h₁.1.next hg (by rw [ha.log, recording_now])
  have hby : SeenBy n b s₂.world.clock s₂ := (h₁.1.seen.seenBy hg.clock).grows hg
  have hlast₂ : Lasting fun s => Knows careful n b s ∧ JobSeen n s ∧ SeenBy n b s₂.world.clock s :=
    fun _ _ hg hl h => ⟨lasting_knows _ _ hg hl h.1, h.2.1.grows hg, h.2.2.grows hg⟩
  refine behaves_request hlast₂ ⟨h₂, h₁.2.grows hg, hby⟩ (fun _ _ => trivial)
    fun s₃ s₄ t' h₃ hg' ha' _ => ?_
  have h₄ : Knows careful n b s₄ := h₃.1.next hg' (by rw [ha'.log, recording_now])
  refine behaves_request hlast₂ ⟨h₄, h₃.2.1.grows hg', h₃.2.2.grows hg'⟩ (fun s₅ h₅ => ?_)
    fun s₅ s₆ r _ _ ha hc => rest_of_updateStatus ha hc
  exact ⟨b, _, h₅.1.seen, hb, .ended phase _ _ hphase h₅.2.2 h₅.2.1 h₅.1.rest, rfl⟩

private theorem behaves_syncBackupStatus (hj : JobSeen n s) (conds : List JobCondition) :
    Behaves T n careful (syncBackupStatus b conds) s := by
  induction conds with
  | nil => exact hk.rest
  | cons cond conds ih =>
    unfold syncBackupStatus
    split
    · exact behaves_finishBackup hk hb hj rfl
    · split
      · exact behaves_finishBackup hk hb hj rfl
      · exact ih

private theorem behaves_createBackupJob (cluster : PostgresCluster) :
    Behaves T n careful (createBackupJob b cluster) s := by
  rw [createBackupJob, setControllerReference_new rfl rfl]
  refine behaves_request lasting_knows hk (fun s₁ h₁ => ?_) fun s₁ s₂ r h₁ hg ha _ => ?_
  · show (⟨b.metadata.namespace_, b.metadata.name ++ lit "-backup"⟩ : NamespacedName) = jobKey n
    rw [← h₁.seen.key]
    rfl
  cases r with
  | error e => exact fun hc => by rw [ha.log, recording_create_error]; exact h₁.rest hc
  | ok job =>
    have hlast : Lasting fun s => Seen n b s ∧ recording s.log = true :=
      fun _ _ hg hl h => ⟨h.1.grows hg, by rw [hl]; exact h.2⟩
    have h₂ : Seen n b s₂ ∧ recording s₂.log = true :=
      ⟨h₁.seen.grows hg, by rw [ha.log, recording_create_ok]⟩
    refine behaves_request hlast h₂ (fun _ _ => trivial) fun s₃ s₄ t h₃ hg' ha' _ => ?_
    obtain ⟨-, rfl⟩ := ha'.now
    have hlast₂ : Lasting fun s => Seen n b s ∧ recording s.log = true ∧
        s₄.world.clock ≤ s.world.clock :=
      fun _ _ hg hl h => ⟨h.1.grows hg, by rw [hl]; exact h.2.1, Int.le_trans h.2.2 hg.clock⟩
    have h₄ : Seen n b s₄ ∧ recording s₄.log = true ∧ s₄.world.clock ≤ s₄.world.clock :=
      ⟨h₃.1.grows hg', by rw [ha'.log, recording_now]; exact h₃.2, Int.le_refl _⟩
    refine behaves_request hlast₂ h₄ (fun _ _ => trivial) fun s₅ s₆ t' h₅ hg'' ha'' _ => ?_
    have h₆ : Seen n b s₆ ∧ recording s₆.log = true ∧ s₄.world.clock ≤ s₆.world.clock :=
      ⟨h₅.1.grows hg'', by rw [ha''.log, recording_now]; exact h₅.2.1,
        Int.le_trans h₅.2.2 hg''.clock⟩
    refine behaves_request hlast₂ h₆ (fun s₇ h₇ => ?_)
      fun s₇ s₈ r _ _ ha hc => rest_of_updateStatus ha hc
    exact ⟨b, _, h₇.1, hb, .started _ _ h₇.2.2 h₇.2.1, rfl⟩

private theorem behaves_reconcileWithCluster (cluster : PostgresCluster) :
    Behaves T n careful (reconcileWithCluster T b cluster) s := by
  unfold reconcileWithCluster
  split
  · exact behaves_waitWith hk hb
  refine behaves_request lasting_knows hk (fun _ _ => trivial) fun s₁ s₂ r h₁ hg ha _ => ?_
  have h₂ : Knows careful n b s₂ := h₁.next hg (by rw [ha.log, recording_get])
  cases r with
  | error e =>
    cases e with
    | notFound => exact behaves_createBackupJob h₂ hb cluster
    | alreadyExists | conflict | invalid | other _ => exact h₂.rest
  | ok job =>
    refine behaves_syncBackupStatus h₂ hb ?_ job.status.conditions
    rcases ha.get.2 with ⟨e, he⟩ | ⟨o, ho, w, hw, hget⟩
    · cases he
    · have hkey : (⟨b.metadata.namespace_, backupJobName b⟩ : NamespacedName) = jobKey n := by
        rw [← h₁.seen.key]
        rfl
      rw [hkey] at hget
      exact ⟨w, hg.worlds w hw, Option.isSome_of_eq_some hget⟩

end

/-- The controller makes permitted requests only. -/
theorem disciplined (T : RuneTables) (n : NamespacedName) (careful : Prop) :
    (system T n careful).Disciplined (Permitted careful n) (Rest careful) where
  stable s s' he h hc := by
    rw [he.2.2]
    exact h hc
  abort h := h
  program {s} hs := by
    have hrest : Lasting (Rest careful) := fun _ _ _ hl h hc => by rw [hl]; exact h hc
    refine behaves_request hrest hs (fun _ _ => trivial) fun s₁ s₂ r h₁ hg ha _ => ?_
    have h₂ : Rest careful s₂ := fun hc => by rw [ha.log, recording_get]; exact h₁ hc
    cases r with
    | error e =>
      cases e with
      | notFound | alreadyExists | conflict | invalid | other _ => exact h₂
    | ok b =>
      have hk : Knows careful n b s₂ := by
        rcases ha.get.2 with ⟨e, he⟩ | ⟨o, ho, w, hw, hget⟩
        · cases he
        · cases ho
          exact ⟨⟨w, hg.worlds w hw, hget⟩, h₂⟩
      show wp _ (if _ then _ else _) _ _
      split
      · exact h₂
      next hb =>
      have hb' : isTerminal b.status.phase = false := by
        simpa [isTerminal] using hb
      refine behaves_request lasting_knows hk (fun _ _ => trivial) fun s₃ s₄ r h₃ hg' ha' _ => ?_
      have h₄ : Knows careful n b s₄ := h₃.next hg' (by rw [ha'.log, recording_get])
      cases r with
      | error e =>
        cases e with
        | notFound => exact behaves_waitWith h₄ hb'
        | alreadyExists | conflict | invalid | other _ => exact h₄.rest
      | ok cluster => exact behaves_reconcileWithCluster h₄ hb' cluster

end

end Athos.Backup
