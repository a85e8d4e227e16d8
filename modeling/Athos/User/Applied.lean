import Athos.User.Controller

/-!
# When a stored `applied` is truthful

The controller stores `applied = true` after every script that runs without error. Nothing looks at
what the script left out: a refused name or password gives the empty script, and roles, databases
and privileges that fail their check are skipped.
-/

namespace Athos.User

open Base Base.Prog Kube Api Postgres List

/-- A successful status write with `applied = true`. -/
def storesApplied : (op : Op) × Res op → Bool
  | ⟨.updateStatus .postgresUser o, .ok _⟩ => o.status.applied
  | _ => false

/-- The script of a command that was run without error. -/
def executedScript : (op : Op) × Res op → Option GoString
  | ⟨.exec _ _ _ [_, _, _, _, sql], .ok _⟩ => some sql
  | _ => none

/-- Statements that bring about everything a user asks for. -/
structure Covers (user : PostgresUser) (ss : List Statement) : Prop where
  role : ∃ o, .ensureRole user.metadata.name o ∈ ss ∧ .alterRole user.metadata.name o ∈ ss ∧
    (user.spec.passwordSecret.isSome = true → o.password ≠ [])
  roles : ∀ role ∈ user.spec.roles, .grantRole role user.metadata.name ∈ ss
  databases : ∀ g ∈ user.spec.databases, .grantConnect g.name user.metadata.name ∈ ss ∧
    ∀ p ∈ g.privileges, .grantOnTables p user.metadata.name ∈ ss

/-- If `applied = true` is stored, a script that covers the user was run without error. -/
def Truthful (T : RuneTables) (user : PostgresUser) (password : GoString)
    (tr : List ((op : Op) × Res op)) : Prop :=
  (∃ x ∈ tr, storesApplied x = true) →
    (∃ x ∈ tr, executedScript x = some (renderAll (scriptStatements T user password))) ∧
      Covers user (scriptStatements T user password)

/-- The password of a user, given the data of the Secret it names. -/
def passwordOf (user : PostgresUser) (data : StringMap) : GoString :=
  match user.spec.passwordSecret with
  | none => []
  | some _ => passwordIn data

/-- What an execution reads: the user, and the data of the Secret. -/
structure Reads (user : PostgresUser) (data : StringMap) (tr : List ((op : Op) × Res op)) :
    Prop where
  user : ∀ u, ⟨.get .postgresUser user.key, .ok u⟩ ∈ tr → u = user
  secret : ∀ n s, ⟨.get .secret n, .ok s⟩ ∈ tr → s.spec.data = data

/-- Nothing a user asks for is refused or skipped. -/
structure Expressible (T : RuneTables) (user : PostgresUser) (password : GoString) : Prop where
  name : isValidIdentifier T user.metadata.name = true
  safe : assertSafePassword password = true
  password : user.spec.passwordSecret.isSome = true → password ≠ []
  roles : ∀ role ∈ user.spec.roles, isValidIdentifier T role = true
  databases : ∀ g ∈ user.spec.databases, isValidIdentifier T g.name = true ∧
    ∀ p ∈ g.privileges, isValidPrivilege T p = true

section

variable {T : RuneTables} {r : PostgresUserReconciler} {user : PostgresUser}
  {cluster : PostgresCluster} {password : GoString} {req : NamespacedName}
  {tr : List ((op : Op) × Res op)}

private theorem mem_databaseStatements {name : GoString} {g : DatabaseGrant} {st : Statement} :
    st ∈ databaseStatements T name g ↔ isValidIdentifier T g.name = true ∧
      (st = .grantConnect g.name name ∨
        ∃ p ∈ g.privileges, isValidPrivilege T p = true ∧ st = .grantOnTables p name) := by
  unfold databaseStatements
  split
  next h =>
    simp only [h, mem_cons, mem_map, mem_filter, true_and, and_assoc, eq_comm (b := st)]
  next h => simp [h]

private theorem mem_userStatements {st : Statement} :
    st ∈ userStatements T user password ↔
      st = .ensureRole user.metadata.name (roleOptions user password) ∨
      st = .alterRole user.metadata.name (roleOptions user password) ∨
      (∃ role ∈ user.spec.roles, isValidIdentifier T role = true ∧
        st = .grantRole role user.metadata.name) ∨
      ∃ g ∈ user.spec.databases, isValidIdentifier T g.name = true ∧
        (st = .grantConnect g.name user.metadata.name ∨
          ∃ p ∈ g.privileges, isValidPrivilege T p = true ∧
            st = .grantOnTables p user.metadata.name) := by
  simp only [userStatements, grantStatements, mem_cons, mem_append, mem_map,
    mem_filter, mem_flatMap, mem_databaseStatements, and_assoc, eq_comm (b := st)]

private theorem covers_scriptStatements_iff :
    Covers user (scriptStatements T user password) ↔ Expressible T user password := by
  unfold scriptStatements
  constructor
  · split
    next h =>
      rw [Bool.and_eq_true] at h
      rintro ⟨⟨o, ho, -, hpw⟩, hroles, hdbs⟩
      refine ⟨h.1, h.2, fun hs => ?_, fun role hr => ?_, fun g hg => ⟨?_, fun p hp => ?_⟩⟩
      · simp only [mem_userStatements, Statement.ensureRole.injEq, true_and, reduceCtorEq,
          and_false, exists_false, or_false] at ho
        have hne := hpw hs
        rw [ho] at hne
        exact hne
      · have hm := hroles role hr
        simp only [mem_userStatements, Statement.grantRole.injEq, and_true, reduceCtorEq,
          and_false, exists_false, or_false, false_or] at hm
        obtain ⟨_, -, hv, rfl⟩ := hm
        exact hv
      · have hm := (hdbs g hg).1
        simp only [mem_userStatements, Statement.grantConnect.injEq, and_true, reduceCtorEq,
          and_false, exists_false, or_false, false_or] at hm
        obtain ⟨g', -, hv, heq⟩ := hm
        rw [heq]
        exact hv
      · have hm := (hdbs g hg).2 p hp
        simp only [mem_userStatements, Statement.grantOnTables.injEq, and_true, reduceCtorEq,
          and_false, exists_false, false_or] at hm
        obtain ⟨_, -, -, _, -, hv, rfl⟩ := hm
        exact hv
    next h =>
      rintro ⟨⟨o, ho, -⟩, -⟩
      cases ho
  · intro h
    rw [if_pos (by rw [h.name, h.safe]; rfl)]
    refine ⟨⟨roleOptions user password, ?_, ?_, h.password⟩, fun role hr => ?_,
      fun g hg => ⟨?_, fun p hp => ?_⟩⟩
    · exact mem_userStatements.2 (.inl rfl)
    · exact mem_userStatements.2 (.inr (.inl rfl))
    · exact mem_userStatements.2 (.inr (.inr (.inl ⟨role, hr, h.roles role hr, rfl⟩)))
    · exact mem_userStatements.2 (.inr (.inr (.inr ⟨g, hg, (h.databases g hg).1, .inl rfl⟩)))
    · exact mem_userStatements.2 (.inr (.inr (.inr ⟨g, hg, (h.databases g hg).1,
        .inr ⟨p, hp, (h.databases g hg).2 p hp, rfl⟩⟩)))

/-- A request that does not claim that the user is applied. -/
private def Modest (op : Op) : Prop :=
  ∀ o, op = .updateStatus .postgresUser o → o.status.applied = false

private theorem not_storesApplied {op : Op} {a : Res op} (h : Modest op) :
    storesApplied ⟨op, a⟩ = false := by
  unfold storesApplied
  split
  next o o' heq =>
    cases heq
    exact h o rfl
  next => rfl

private theorem not_exists_storesApplied {α : Type} {p : Action α} (h : p.Executes tr)
    (hp : p.Calls anyAnswer Modest) : ¬ ∃ x ∈ tr, storesApplied x = true := by
  rintro ⟨x, hx, hs⟩
  rw [not_storesApplied (hp.of_mem h (fun _ _ => trivial) hx)] at hs
  cases hs

section

variable (hs : ∃ x ∈ tr, storesApplied x = true)

include hs

private theorem executed_of_applyUser (hr : r.hasRestConfig = true)
    (h : (applyUser T r req user cluster password).Executes tr) :
    ∃ x ∈ tr, executedScript x = some (buildUserSQL T user password) := by
  simp only [applyUser, execSQL, hr, Bool.not_true, Bool.false_eq_true, ↓reduceIte] at h
  cases tr with
  | nil =>
    obtain ⟨x, hx, -⟩ := hs
    cases hx
  | cons x tr =>
    obtain ⟨a, rfl, h⟩ := h
    cases a with
    | ok a => exact ⟨_, mem_cons_self, rfl⟩
    | error e =>
      -- After a failed script only `applied = false` is stored.
      obtain ⟨y, hy, hst⟩ := hs
      rcases mem_cons.1 hy with rfl | hy
      · cases hst
      · refine absurd ⟨y, hy, hst⟩ (not_exists_storesApplied h ?_)
        exact ⟨nofun, fun _ _ => ⟨fun o ho => by cases ho; rfl, fun _ _ => trivial⟩⟩

private theorem executes_get {α : Type} {k : Kind} {n : NamespacedName}
    {f : Except ApiError (Object k) → Action α} (h : Executes (.call (.get k n) f) tr) :
    ∃ a tr', tr = ⟨.get k n, a⟩ :: tr' ∧ (f a).Executes tr' ∧
      ∃ x ∈ tr', storesApplied x = true := by
  obtain ⟨x, hx, hst⟩ := hs
  cases tr with
  | nil => cases hx
  | cons y tr =>
    obtain ⟨a, rfl, h⟩ := h
    rcases mem_cons.1 hx with rfl | hx
    · cases hst
    · exact ⟨a, tr, rfl, h, x, hx, hst⟩

private theorem executed_of_reconcileWithCluster (hr : r.hasRestConfig = true) {data : StringMap}
    (h : (reconcileWithCluster T r req user cluster).Executes tr)
    (hread : ∀ n s, ⟨.get .secret n, .ok s⟩ ∈ tr → s.spec.data = data) :
    ∃ x ∈ tr, executedScript x = some (buildUserSQL T user (passwordOf user data)) := by
  unfold reconcileWithCluster at h
  split at h
  · refine absurd hs (not_exists_storesApplied h ?_)
    exact ⟨nofun, fun _ _ => ⟨fun o ho => by cases ho; rfl, fun _ _ => trivial⟩⟩
  · cases hsec : user.spec.passwordSecret with
    | none =>
      simp only [hsec, passwordOf] at h ⊢
      exact executed_of_applyUser hs hr h
    | some n =>
      simp only [hsec, passwordOf] at h ⊢
      obtain ⟨a, tr', rfl, h', hs'⟩ := executes_get hs h
      cases a with
      | error e => exact absurd hs' (not_exists_storesApplied h' trivial)
      | ok secret =>
        rw [← hread _ secret mem_cons_self]
        obtain ⟨x, hx, hex⟩ := executed_of_applyUser hs' hr h'
        exact ⟨x, mem_cons_of_mem _ hx, hex⟩

/-- Whatever is answered: if `applied = true` is stored, the script of the user that was read
was run without error. -/
theorem executed_of_reconcile (hr : r.hasRestConfig = true) {data : StringMap}
    (h : (reconcile T r user.key).Executes tr) (hread : Reads user data tr) :
    ∃ x ∈ tr, executedScript x = some (buildUserSQL T user (passwordOf user data)) := by
  obtain ⟨a, tr₁, rfl, h₁, hs₁⟩ := executes_get hs h
  cases a with
  | error e => cases e <;> exact absurd hs₁ (not_exists_storesApplied h₁ trivial)
  | ok u =>
    obtain rfl := hread.user u mem_cons_self
    obtain ⟨a, tr₂, rfl, h₂, hs₂⟩ := executes_get hs₁ h₁
    cases a with
    | error e =>
      cases e with
      | notFound =>
        refine absurd hs₂ (not_exists_storesApplied h₂ ?_)
        exact ⟨nofun, fun _ _ => ⟨fun o ho => by cases ho; rfl, fun _ _ => trivial⟩⟩
      | alreadyExists | conflict | invalid | other _ =>
        exact absurd hs₂ (not_exists_storesApplied h₂ trivial)
    | ok cluster =>
      obtain ⟨x, hx, hex⟩ := executed_of_reconcileWithCluster hs₂ hr h₂
        fun n s hm => hread.secret n s (mem_cons_of_mem _ (mem_cons_of_mem _ hm))
      exact ⟨x, mem_cons_of_mem _ (mem_cons_of_mem _ hx), hex⟩

end

/-- A running cluster of a user. -/
private def runningFor (user : PostgresUser) : PostgresCluster where
  metadata := { name := user.spec.clusterName, namespace_ := user.metadata.namespace_ }
  spec := { postgresVersion := 16, instances := 1, storage := { size := .ofBinary 1 30 } }
  status := ({ phase := .running } : PostgresClusterStatus)

/-- The requests after the password is known, when everything succeeds. -/
private def appliedTail (T : RuneTables) (r : PostgresUserReconciler) (user : PostgresUser)
    (password : GoString) : List ((op : Op) × Res op) :=
  (if r.hasRestConfig then
    [⟨.exec user.metadata.namespace_ (podName (runningFor user) 0) (lit "postgres")
      (psqlCommand (buildUserSQL T user password)), .ok ()⟩]
  else []) ++
    [⟨.now, 0⟩, ⟨.updateStatus .postgresUser { user with status :=
      { user.status with
        conditions := setCondition user.metadata.generation 0 (lit "Applied") .true
          (lit "UserReconciled")
          (lit "User " ++ goQuote T user.metadata.name ++ lit " has been reconciled")
          user.status.conditions
        applied := true
        observedGeneration := user.metadata.generation } }, .ok user⟩]

private theorem executes_appliedTail :
    (applyUser T r user.key user (runningFor user) password).Executes
      (appliedTail T r user password) := by
  unfold applyUser execSQL appliedTail
  cases r.hasRestConfig with
  | true => exact ⟨_, rfl, _, rfl, _, rfl, trivial⟩
  | false => exact ⟨_, rfl, _, rfl, trivial⟩

/-- The lookup of the Secret, if the user names one. -/
private def secretReads (user : PostgresUser) (data : StringMap) : List ((op : Op) × Res op) :=
  match user.spec.passwordSecret with
  | none => []
  | some n => [⟨.get .secret ⟨user.metadata.namespace_, n⟩, .ok
      { metadata := { name := n, namespace_ := user.metadata.namespace_ }
        spec := ({ data := data } : SecretSpec)
        status := Status.zero .secret }⟩]

private theorem exists_storesApplied (T : RuneTables) (r : PostgresUserReconciler)
    (user : PostgresUser) (data : StringMap) :
    ∃ tr, (reconcile T r user.key).Executes tr ∧ Reads user data tr ∧
      (∃ x ∈ tr, storesApplied x = true) ∧
      (r.hasRestConfig = false → ∀ x ∈ tr, executedScript x = none) := by
  refine ⟨⟨.get .postgresUser user.key, .ok user⟩ ::
    ⟨.get .postgresCluster ⟨user.metadata.namespace_, user.spec.clusterName⟩,
      .ok (runningFor user)⟩ ::
    (secretReads user data ++ appliedTail T r user (passwordOf user data)), ?_, ?_, ?_, ?_⟩
  · refine ⟨_, rfl, _, rfl, ?_⟩
    show (reconcileWithCluster T r user.key user (runningFor user)).Executes _
    have hrun : isClusterRunning (runningFor user) = true := rfl
    simp only [reconcileWithCluster, hrun, secretReads, passwordOf, Bool.not_true,
      Bool.false_eq_true, ↓reduceIte]
    cases user.spec.passwordSecret with
    | none => exact executes_appliedTail
    | some n => exact ⟨_, rfl, executes_appliedTail⟩
  · constructor
    · intro u hu
      cases hr : r.hasRestConfig <;> cases hs : user.spec.passwordSecret <;>
        simpa [secretReads, appliedTail, hr, hs] using hu
    · intro n s hu
      cases hr : r.hasRestConfig <;> cases hs : user.spec.passwordSecret <;>
        simp [secretReads, appliedTail, hr, hs] at hu
      all_goals
        obtain ⟨-, rfl⟩ := hu
        rfl
  · refine ⟨_, mem_cons_of_mem _ (mem_cons_of_mem _ (mem_append_right _
      (mem_append_right _ (mem_cons_of_mem _ mem_cons_self)))), rfl⟩
  · intro hr x hx
    cases hs : user.spec.passwordSecret <;>
      simp only [secretReads, appliedTail, hr, hs, mem_cons, not_mem_nil, or_false,
        cons_append, nil_append, Bool.false_eq_true, ↓reduceIte] at hx
    · rcases hx with rfl | rfl | rfl | rfl <;> rfl
    · rcases hx with rfl | rfl | rfl | rfl | rfl <;> rfl

end

/-- When a stored `applied` is truthful. Over every execution of the controller that reads a
given user and Secret, whatever else is answered and wherever it is cut, `applied = true` is
stored only after a script that covers the user was run without error, if and only if the
operator can run scripts, the name and the password are accepted, a Secret that is named
holds a password, and every role, database and privilege passes its check. -/
theorem applied_truthful_iff (T : RuneTables) (r : PostgresUserReconciler) (user : PostgresUser)
    (data : StringMap) :
    (∀ tr, (reconcile T r user.key).Executes tr → Reads user data tr →
      Truthful T user (passwordOf user data) tr) ↔
    r.hasRestConfig = true ∧ Expressible T user (passwordOf user data) := by
  constructor
  · intro h
    obtain ⟨tr, hex, hread, hs, hnone⟩ := exists_storesApplied T r user data
    obtain ⟨⟨x, hx, hscript⟩, hcovers⟩ := h tr hex hread hs
    refine ⟨?_, covers_scriptStatements_iff.1 hcovers⟩
    cases hr : r.hasRestConfig with
    | true => rfl
    | false =>
      rw [hnone hr x hx] at hscript
      cases hscript
  · rintro ⟨hr, he⟩ tr hex hread hs
    rw [← buildUserSQL_eq_renderAll]
    exact ⟨executed_of_reconcile hs hr hex hread, covers_scriptStatements_iff.2 he⟩

/-- A user whose name is a DNS subdomain but too long for an identifier. -/
def sampleLongUser : PostgresUser where
  metadata :=
    { name := List.replicate 64 0x61
      namespace_ := lit "default"
      uid := uidAt 2
      resourceVersion := 2
      generation := 1 }
  spec := { clusterName := lit "db", roles := [lit "readers"] }
  status := {}

/-- The API server with that user and its running cluster. -/
def sampleWorld : World where
  objects :=
    (Store.empty.put
      ({ metadata := { name := lit "db", namespace_ := lit "default", resourceVersion := 1 }
         spec := { postgresVersion := 16, instances := 1, storage := { size := .ofBinary 10 30 } }
         status := ({ phase := .running } : PostgresClusterStatus) } : PostgresCluster)
      (by decide)).put sampleLongUser (by decide)
  revision := 2
  clock := 0
  events := []

/-- The empty script is run and `applied = true` is stored. -/
theorem applied_sampleLongUser :
    let tr := trace serve (reconcile .basic {} sampleLongUser.key) [] sampleWorld
    (∃ x ∈ tr, storesApplied x = true) ∧ tr.filterMap executedScript = [[]] ∧
      ¬ Truthful .basic sampleLongUser [] tr := by
  intro tr
  have hs : ∃ x ∈ tr, storesApplied x = true := by decide +kernel
  refine ⟨hs, by decide +kernel, fun h => ?_⟩
  have hname := (covers_scriptStatements_iff.1 (h hs).2).name
  revert hname
  decide +kernel

end Athos.User
