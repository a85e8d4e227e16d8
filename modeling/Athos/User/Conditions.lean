import Athos.Kube.Evolution
import Athos.User.Controller

/-!
# Conditions of a user over time

What a reconcile makes of the conditions it finds. Each outcome sets a condition of its own type,
and none is ever set back when a later reconcile gets further.
-/

namespace Athos.User

open Base Base.Prog Kube Api Postgres

/-- The mark of the last step, by whether it succeeded. -/
def appliedMark : Bool → Mark
  | true => (lit "Applied", .true, lit "UserReconciled")
  | false => (lit "Applied", .false, lit "ExecFailed")

/-- The script was run, and the outcome stored. -/
def Attempted (user user' : PostgresUser) : Prop :=
  ∃ ok, user'.status.applied = ok ∧
    marks user'.status.conditions = putMark (appliedMark ok) (marks user.status.conditions)

/-- The cluster of the user, if there is a user, exists and is running. -/
def FindsRunning (key : NamespacedName) (w : World) : Prop :=
  ∀ user, w.objects.get .postgresUser key = some user →
    ∃ c, w.objects.get .postgresCluster ⟨user.metadata.namespace_, user.spec.clusterName⟩ = some c ∧
      isClusterRunning c = true

section

variable {T : RuneTables} {r : PostgresUserReconciler} {A : Ambient → Prop} {user : PostgresUser}
  {w : World}

/-- What the user may have become. -/
def Settles (user : PostgresUser) (w' : World) : Prop :=
  ∀ user', w'.objects.get .postgresUser user.key = some user' →
    user'.status = user.status ∨ Attempted user user'

variable (hget : w.objects.get .postgresUser user.key = some user)

include hget

private theorem settles_of_get : Settles user w := by
  intro user' h
  rw [hget, Option.some.injEq] at h
  exact .inl (by rw [h])

private theorem wp_store {α : Type} (ok : Bool) {message : GoString}
    {f : Except ApiError PostgresUser → Action α} (hf : ∀ res, ∃ a, f res = return a) :
    wp (within A) (do
      let user ← setUserCondition user (appliedMark ok).1 (appliedMark ok).2.1 (appliedMark ok).2.2
        message
      let res ← Client.updateStatus (k := .postgresUser) { user with status := { user.status with
        applied := ok
        observedGeneration := user.metadata.generation } }
      f res) (fun _ w' => Settles user w') w := by
  refine wp_now fun t => wp_updateStatus_of_get (w := w.advance t) hget rfl ?_ ?_
  · intro e _ u
    obtain ⟨a, ha⟩ := hf (.error e)
    rw [ha]
    exact settles_of_get hget
  · intro v w' hstored _
    obtain ⟨a, ha⟩ := hf (.ok _)
    rw [ha]
    intro user' h
    have heq := Option.some.inj (h.symm.trans hstored)
    rw [heq]
    exact .inr ⟨ok, rfl, marks_setCondition ..⟩

private theorem wp_applyUser {req : NamespacedName} {cluster : PostgresCluster}
    {password : GoString} :
    wp (within A) (applyUser T r req user cluster password) (fun _ w' => Settles user w') w := by
  unfold applyUser execSQL
  split
  · refine wp_store hget true ?_
    rintro (e | o) <;> exact ⟨_, rfl⟩
  · refine wp_exec fun res t => ?_
    cases res with
    | error e => exact wp_store (w := w.advance t) hget false fun _ => ⟨_, rfl⟩
    | ok _ =>
      refine wp_store (w := w.advance t) hget true ?_
      rintro (e | o) <;> exact ⟨_, rfl⟩

end

/-- What a call makes of the stored user. -/
def Becomes (key : NamespacedName) (w w' : World) : Prop :=
  ∀ user', w'.objects.get .postgresUser key = some user' →
    ∃ user, w.objects.get .postgresUser key = some user ∧
      (user'.status = user.status ∨ Attempted user user')

section

variable {T : RuneTables} {r : PostgresUserReconciler} {key : NamespacedName}
  {user : PostgresUser} {w w₁ : World}

private theorem becomes_of_eq (w₁ : World) (h : w₁.objects = w.objects) : Becomes key w w₁ := by
  intro user' hu'
  rw [h] at hu'
  exact ⟨user', hu', .inl rfl⟩

private theorem wp_running {cluster : PostgresCluster}
    (hget : w.objects.get .postgresUser key = some user)
    (hrunning : isClusterRunning cluster = true) (hw₁ : w₁.objects = w.objects) :
    wp (within Ambient.Honest) (reconcileWithCluster T r key user cluster)
      (fun _ w' => Becomes key w w') w₁ := by
  have hkey : user.key = key := w.objects.keyed hget
  have hfinish : ∀ password (w₂ : World), w₂.objects = w.objects →
      wp (within Ambient.Honest) (applyUser T r key user cluster password)
        (fun _ w' => Becomes key w w') w₂ := by
    intro password w₂ hw₂
    have hget₂ : w₂.objects.get .postgresUser user.key = some user := by
      rw [hw₂, hkey]
      exact hget
    refine wp_mono (within_monotone _) (wp_applyUser hget₂) ?_
    intro _ w' hs user' hu'
    exact ⟨user, hget, hs user' (by rw [hkey]; exact hu')⟩
  unfold reconcileWithCluster
  rw [hrunning]
  cases user.spec.passwordSecret with
  | none =>
    dsimp only
    exact hfinish _ _ hw₁
  | some name =>
    dsimp only
    refine wp_get (fun e _ s => becomes_of_eq (w₁.advance s) hw₁) fun s => ?_
    cases hread : w₁.read .secret ⟨user.metadata.namespace_, name⟩ with
    | error e => exact becomes_of_eq (w₁.advance s) hw₁
    | ok secret => exact hfinish _ (w₁.advance s) hw₁

/-- A reconcile of a user whose cluster is running. -/
theorem wp_reconcile_becomes (T : RuneTables) (r : PostgresUserReconciler)
    (hrun : FindsRunning key w) :
    wp (within Ambient.Honest) (reconcile T r key) (fun _ w' => Becomes key w w') w := by
  have hsame : ∀ t, Becomes key w (w.advance t) := fun t => becomes_of_eq _ rfl
  refine wp_lookup ?_ (fun _ t => hsame t) ?_
  · intro e _ _ t
    cases e with
    | notFound | alreadyExists | conflict | invalid | other _ => exact hsame t
  · intro user hget t
    obtain ⟨c, hc, hrunning⟩ := hrun user hget
    refine wp_get ?_ ?_
    · intro e he u
      cases e with
      | notFound => exact absurd he not_faults_honest
      | alreadyExists | conflict | invalid | other _ =>
        exact becomes_of_eq ((w.advance t).advance u) rfl
    · intro u
      rw [World.read_of_some (w := w.advance t) hc]
      exact wp_running hget hrunning rfl

end

end Athos.User
