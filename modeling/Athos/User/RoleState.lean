import Athos.User.Database

/-!
# The role of a user

What the script of a user makes of its role. The text of the script is read and executed in one
transaction, so that either all of it takes effect or nothing. Scripts only ever add grants, and
`LOGIN` is set only when the role is created, so that after a sequence of specs the role holds what
any of them granted.
-/

namespace Athos.User

open Base Kube Api Sql List

/-- The server accepts the script of a user: it is not refused and can be read, the role can be
created and altered, and every grant names what exists. -/
def Realisable (T : RuneTables) (S : Server) (user : PostgresUser) (password : GoString) : Prop :=
  (assertSafePassword password = true ∧ ¬ [0x24, 0x24] <:+: user.metadata.name ∧
    ¬ [0x24, 0x24] <:+: password) ∧
  (isReserved user.metadata.name = false ∧ -1 ≤ (roleOptions user password).connectionLimit) ∧
  ∀ st ∈ grantStatements T user, st.command.Accepted S

instance (T : RuneTables) (S : Server) (user : PostgresUser) (password : GoString) :
    Decidable (Realisable T S user password) :=
  inferInstanceAs (Decidable (_ ∧ _))

/-- Everything the script of a user grants. -/
def granted (T : RuneTables) (S : Server) (user : PostgresUser) : Finset Grant :=
  ((grantStatements T user).map Statement.command).toFinset.biUnion (Command.grants S)

/-- Whether a role can log in once it exists: a new one can. -/
def canLogin (role : Option RoleState) : Bool := (role.map RoleState.login).getD true

/-- The role after an accepted script. -/
def reached (T : RuneTables) (S : Server) (user : PostgresUser) (password : GoString)
    (role : Option RoleState) : RoleState where
  login := canLogin role
  superuser := user.spec.superuser
  connectionLimit := (roleOptions user password).connectionLimit
  password := if password = [] then (role.map RoleState.password).getD [] else password
  grants := held role ∪ granted T S user

section

variable {T : RuneTables} {S : Server} {user : PostgresUser} {password : GoString}

private theorem exec_roleStatements (name : GoString) (o : RoleOptions) (role : Option RoleState) :
    ((Statement.ensureRole name o).command.step S role >>= fun role =>
      (Statement.alterRole name o).command.step S role) =
      if isReserved name = false ∧ -1 ≤ o.connectionLimit then
        some (some {
          login := canLogin role
          superuser := o.superuser
          connectionLimit := o.connectionLimit
          password := if o.password = [] then (role.map RoleState.password).getD [] else o.password
          grants := held role })
      else none := by
  have hadmits : ∀ c : RoleClauses, c.connectionLimit = some o.connectionLimit →
      (Admits name c ↔ isReserved name = false ∧ -1 ≤ o.connectionLimit) := by
    intro c hc
    simp [Admits, hc]
  cases role with
  | none =>
    by_cases h : isReserved name = false ∧ -1 ≤ o.connectionLimit
    · by_cases hp : o.password = [] <;>
        simp [Statement.command, Command.step, Command.exec, hadmits, RoleOptions.clauses, h, hp,
          RoleState.created, RoleState.altered, canLogin, held]
    · simp [Statement.command, Command.step, Command.exec, hadmits, RoleOptions.clauses, h]
  | some s =>
    by_cases h : isReserved name = false ∧ -1 ≤ o.connectionLimit
    · by_cases hp : o.password = [] <;>
        simp [Statement.command, Command.step, Command.exec, hadmits, RoleOptions.clauses, h, hp,
          RoleState.altered, canLogin, held]
    · simp [Statement.command, Command.step, Command.exec, hadmits, RoleOptions.clauses, h]

private theorem run_userStatements (S : Server) (role : Option RoleState) :
    (Transaction.run (Command.step S) ((userStatements T user password).map Statement.command)
      role).1 =
      if (isReserved user.metadata.name = false ∧
            -1 ≤ (roleOptions user password).connectionLimit) ∧
          ∀ st ∈ grantStatements T user, st.command.Accepted S then
        some (reached T S user password role)
      else role := by
  have hgrants : ∀ c ∈ (grantStatements T user).map Statement.command, c.isGrant = true := by
    intro c hc
    obtain ⟨st, hst, rfl⟩ := mem_map.1 hc
    exact (mem_grantStatements hst).2
  rw [Transaction.run, userStatements, map_cons, map_cons, foldlM_cons]
  simp only [foldlM_cons, ← bind_assoc]
  rw [exec_roleStatements]
  by_cases hrole : isReserved user.metadata.name = false ∧
      -1 ≤ (roleOptions user password).connectionLimit
  · rw [if_pos hrole, Option.bind_eq_bind, Option.bind_some, foldlM_step_of_isGrant hgrants]
    simp only [forall_mem_map, hrole, and_self, true_and]
    by_cases hacc : ∀ st ∈ grantStatements T user, st.command.Accepted S
    · rw [if_pos hacc, if_pos hacc]
      rfl
    · rw [if_neg hacc, if_neg hacc]
  · rw [if_neg hrole, if_neg fun h => hrole h.1]
    rfl

/-- What the script of a user does in a database. -/
theorem run_buildUserSQL (rules : Rules) (user : PostgresUser) (password : GoString)
    (hn : isValidIdentifier T user.metadata.name = true) (db : Database) :
    (db.run rules (buildUserSQL T user password)).1 =
      if Realisable T (db.server rules user.metadata.name) user password then
        db.setRole user.metadata.name (some (reached T (db.server rules user.metadata.name) user
          password db.roles[user.metadata.name]?))
      else db := by
  by_cases hp : assertSafePassword password = true
  · by_cases hpair : [0x24, 0x24] <:+: user.metadata.name ∨ [0x24, 0x24] <:+: password
    · -- The server does not get past the syntax error.
      have hread := (readAll_singleton _).trans
        (readScript_of_pair (T := T) (buildUserSQL_ne_nil_iff.2 ⟨hn, hp⟩) hpair)
      have hnot : ¬ Realisable T (db.server rules user.metadata.name) user password :=
        fun h => hpair.elim h.1.2.1 h.1.2.2
      rw [Database.run, Database.runAll_of_none hread, if_neg hnot]
    · obtain ⟨hname, hpw⟩ := not_or.1 hpair
      have hread := (readAll_singleton _).trans (readScript_buildUserSQL (T := T) hname hpw)
      have hstatements : scriptStatements T user password = userStatements T user password := by
        rw [scriptStatements, hn, hp]
        rfl
      have hiff : Realisable T (db.server rules user.metadata.name) user password ↔
          (isReserved user.metadata.name = false ∧
            -1 ≤ (roleOptions user password).connectionLimit) ∧
          ∀ st ∈ grantStatements T user,
            st.command.Accepted (db.server rules user.metadata.name) :=
        and_iff_right ⟨hp, hname, hpw⟩
      rw [Database.run, Database.runAll_eq hread fun c hc => name_of_mem_command hc, hstatements]
      simp only [run_userStatements, hiff]
      split
      · rfl
      · exact Database.setRole_getElem?
  · -- A refused password leaves an empty script.
    have hempty : buildUserSQL T user password = [] := by simp [buildUserSQL, hp]
    have hnot : ¬ Realisable T (db.server rules user.metadata.name) user password :=
      fun h => hp h.1.1
    rw [hempty, if_neg hnot]
    rfl

end

/-- Run the scripts for a sequence of specs of one user. -/
def applyAll (T : RuneTables) (rules : Rules) (user : PostgresUser) (password : GoString)
    (specs : List PostgresUserSpec) (db : Database) : Database :=
  specs.foldl
    (fun db spec => (db.run rules (buildUserSQL T { user with spec := spec } password)).1) db

/-- What a spec is meant to determine. -/
structure RoleView where
  login : Bool
  superuser : Bool
  connectionLimit : Int
  grants : Finset Grant
  deriving DecidableEq

/-- A role without its password. -/
def view (s : RoleState) : RoleView := ⟨s.login, s.superuser, s.connectionLimit, s.grants⟩

section

variable {T : RuneTables} {S : Server} {rules : Rules} {user : PostgresUser} {password : GoString}
  {db : Database}

/-- What the scripts for a sequence of specs make of the role, on a server that does not change. -/
private def reachedAll (T : RuneTables) (S : Server) (user : PostgresUser) (password : GoString)
    (specs : List PostgresUserSpec) (role : Option RoleState) : Option RoleState :=
  specs.foldl (fun role spec =>
    if Realisable T S { user with spec := spec } password then
      some (reached T S { user with spec := spec } password role)
    else role) role

private theorem reachedAll_cons (spec : PostgresUserSpec) (specs : List PostgresUserSpec)
    (role : Option RoleState) :
    reachedAll T S user password (spec :: specs) role = reachedAll T S user password specs
      (if Realisable T S { user with spec := spec } password then
        some (reached T S { user with spec := spec } password role)
      else role) :=
  rfl

private theorem roles_applyAll (hn : isValidIdentifier T user.metadata.name = true)
    (specs : List PostgresUserSpec) (db : Database) :
    (applyAll T rules user password specs db).roles[user.metadata.name]? =
      reachedAll T (db.server rules user.metadata.name) user password specs
        db.roles[user.metadata.name]? := by
  induction specs generalizing db with
  | nil => rfl
  | cons spec specs ih =>
    have hrun := run_buildUserSQL rules { user with spec := spec } password hn db
    rw [applyAll, foldl_cons, ← applyAll, ih, hrun, reachedAll_cons]
    split
    · rw [Database.server_setRole, Database.setRole_self]
    · rfl

private theorem canLogin_reachedAll (specs : List PostgresUserSpec) (role : Option RoleState) :
    canLogin (reachedAll T S user password specs role) = canLogin role := by
  induction specs generalizing role with
  | nil => rfl
  | cons spec specs ih =>
    rw [reachedAll_cons, ih]
    split <;> rfl

private theorem mem_held_reachedAll {g : Grant} (specs : List PostgresUserSpec)
    (role : Option RoleState) :
    g ∈ held (reachedAll T S user password specs role) ↔ g ∈ held role ∨
      ∃ spec ∈ specs, Realisable T S { user with spec := spec } password ∧
        g ∈ granted T S { user with spec := spec } := by
  induction specs generalizing role with
  | nil => simp [reachedAll]
  | cons spec specs ih =>
    rw [reachedAll_cons, ih]
    split
    next h =>
      have hheld : held (some (reached T S { user with spec := spec } password role)) =
        held role ∪ granted T S { user with spec := spec } := rfl
      simp only [hheld, Finset.mem_union, mem_cons, exists_eq_or_imp, h, true_and, or_assoc]
    next h => simp only [mem_cons, exists_eq_or_imp, h, false_and, false_or]

private theorem reachedAll_eq_none_iff (specs : List PostgresUserSpec) (role : Option RoleState) :
    reachedAll T S user password specs role = none ↔
      role = none ∧ ∀ spec ∈ specs, ¬ Realisable T S { user with spec := spec } password := by
  induction specs generalizing role with
  | nil => simp [reachedAll]
  | cons spec specs ih =>
    rw [reachedAll_cons, ih]
    split
    next h => simp [h]
    next h => simp [h]

end

/-- When the last spec alone determines the role. After the scripts for a sequence of specs of
one user the role is as the script of the last spec alone would make it, where there is no role,
if and only if the server accepts that script, the role was new or able to log in, and all it held
before and all that the accepted earlier scripts granted is among what the last spec grants; or no
script was accepted and there was no role. -/
theorem applyAll_view_eq_iff (T : RuneTables) (rules : Rules) (db : Database) (user : PostgresUser)
    (password : GoString) (hn : isValidIdentifier T user.metadata.name = true)
    (specs : List PostgresUserSpec) (last : PostgresUserSpec) :
    ((applyAll T rules user password (specs ++ [last]) db).roles[user.metadata.name]?).map view =
        ((applyAll T rules user password [last]
          (db.setRole user.metadata.name none)).roles[user.metadata.name]?).map view ↔
      let S := db.server rules user.metadata.name
      let role := db.roles[user.metadata.name]?
      if Realisable T S { user with spec := last } password then
        canLogin role = true ∧ held role ⊆ granted T S { user with spec := last } ∧
          ∀ spec ∈ specs, Realisable T S { user with spec := spec } password →
            granted T S { user with spec := spec } ⊆ granted T S { user with spec := last }
      else role = none ∧ ∀ spec ∈ specs, ¬ Realisable T S { user with spec := spec } password := by
  rw [roles_applyAll hn, roles_applyAll hn, Database.server_setRole, Database.setRole_self]
  generalize db.server rules user.metadata.name = S
  generalize db.roles[user.metadata.name]? = role
  have happend : reachedAll T S user password (specs ++ [last]) role =
      reachedAll T S user password [last] (reachedAll T S user password specs role) :=
    foldl_append
  have hlast : ∀ role, reachedAll T S user password [last] role =
      if Realisable T S { user with spec := last } password then
        some (reached T S { user with spec := last } password role)
      else role := fun _ => rfl
  rw [happend, hlast, hlast]
  split
  next h =>
    -- Only the login flag and the grants still depend on what was there before.
    have hview : ∀ role', view (reached T S { user with spec := last } password role') =
        ⟨canLogin role', last.superuser,
          (roleOptions { user with spec := last } password).connectionLimit,
          held role' ∪ granted T S { user with spec := last }⟩ := fun _ => rfl
    have hnone : canLogin none = true ∧ held none = ∅ := ⟨rfl, rfl⟩
    simp only [Option.map_some, Option.some.injEq, hview, RoleView.mk.injEq, hnone,
      Finset.empty_union, true_and, Finset.union_eq_right, canLogin_reachedAll, if_pos h]
    refine and_congr_right fun _ => ?_
    simp only [Finset.subset_iff, mem_held_reachedAll]
    constructor
    · exact fun hsub => ⟨fun g hg => hsub (.inl hg),
        fun spec hs hr g hg => hsub (.inr ⟨spec, hs, hr, hg⟩)⟩
    · rintro ⟨hrole, hspecs⟩ g (hg | ⟨spec, hs, hr, hg⟩)
      · exact hrole hg
      · exact hspecs spec hs hr hg
  next h =>
    simp only [Option.map_none, Option.map_eq_none_iff, reachedAll_eq_none_iff, if_neg h]

/-- The sample user with other roles. -/
def sampleRoles (roles : List GoString) : PostgresUserSpec :=
  { sampleUser.spec with roles := roles }

/-- A role is added to the spec. -/
theorem applyAll_sampleUser_added :
    ((applyAll .basic sampleRules sampleUser (lit "secret")
        ([sampleRoles [lit "readers"]] ++ [sampleRoles [lit "readers", lit "writers"]])
        sampleDatabase).roles[lit "app-user"]?).map view =
      ((applyAll .basic sampleRules sampleUser (lit "secret")
        [sampleRoles [lit "readers", lit "writers"]]
        (sampleDatabase.setRole (lit "app-user") none)).roles[lit "app-user"]?).map view :=
  (applyAll_view_eq_iff .basic sampleRules sampleDatabase sampleUser (lit "secret") (by decide)
    _ _).2 (by decide +kernel)

/-- A role is removed from the spec, and still held. -/
theorem applyAll_sampleUser_removed :
    .member (lit "writers") ∈ held (applyAll .basic sampleRules sampleUser (lit "secret")
        [sampleRoles [lit "readers", lit "writers"], sampleRoles [lit "readers"]]
        sampleDatabase).roles[lit "app-user"]? ∧
      ((applyAll .basic sampleRules sampleUser (lit "secret")
        [sampleRoles [lit "readers", lit "writers"], sampleRoles [lit "readers"]]
        sampleDatabase).roles[lit "app-user"]?).map view ≠
      ((applyAll .basic sampleRules sampleUser (lit "secret") [sampleRoles [lit "readers"]]
        (sampleDatabase.setRole (lit "app-user") none)).roles[lit "app-user"]?).map view := by
  decide +kernel

end Athos.User
