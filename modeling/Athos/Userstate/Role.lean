import Athos.User.RoleState
import Athos.Userstate.Lexing

/-!
# What a plan makes of a role

A plan is executed as its texts are read, in one transaction, on the same model of a database as
the script of the user controller. A plan sets the login flag of every role, but leaves a
connection limit of zero as it is; the script sets every limit, but leaves the login flag of a role
that exists.
-/

namespace Athos.Userstate

open Base Kube Athos.User Sql Option
open List hiding lex

/-- A statement as it is read. -/
def Statement.command : Statement → Command
  | .login exist name =>
    if exist then .alterRole name { login := some true }
    else .createRole name { login := some true }
  | .password name pw => .alterRole name { password := some pw }
  | .superuser name su => .alterRole name { superuser := some su }
  | .connectionLimit name limit => .alterRole name { connectionLimit := some limit }
  | .grantRole role name => .grantRole role name
  | .grantOnDatabase privilege database name =>
    .grantOnDatabase (privilege.map asciiUpper) database name

section

variable {T : RuneTables}

private theorem readCommand_tokens (st : Statement) : readCommand st.tokens = some st.command := by
  cases st with
  | login exist name => cases exist <;> rfl
  | password name pw => rfl
  | superuser name su => cases su <;> rfl
  | connectionLimit name limit =>
    have hread : readCommand (Statement.connectionLimit name limit).tokens =
        (readClauses .clause {} ([.connectionLimit limit].flatMap Clause.tokens)).map
          (.alterRole name) := by
      rw [flatMap_singleton]
      rfl
    rw [hread, readClauses_flatMap]
    rfl
  | grantRole role name => rfl
  | grantOnDatabase g database name =>
    have h : readCommand (Statement.grantOnDatabase g database name).tokens =
        some (.grantOnDatabase (g.map asciiUpper ++ []) database name) := rfl
    rw [h, append_nil]
    rfl

private theorem tokens_plain (st : Statement) :
    st.tokens.all Token.isPlain = true ∧ st.tokens ≠ [] ∧ .symbol 0x3B ∉ st.tokens := by
  cases st with
  | login exist => cases exist <;> simp [Statement.tokens, keywords, wordTokens, Token.isPlain]
  | superuser name su => cases su <;> simp [Statement.tokens, keywords, wordTokens, Token.isPlain]
  | connectionLimit name limit =>
    cases limit <;> simp [Statement.tokens, intTokens, keywords, wordTokens, Token.isPlain]
  | password | grantRole | grantOnDatabase =>
    simp [Statement.tokens, keywords, wordTokens, Token.isPlain]

private theorem readScript_render {st : Statement} (h : st.Checked T) :
    readScript st.render = if st.Plain then some [st.command] else none := by
  split
  next hp =>
    obtain ⟨hplain, hne, hsemi⟩ := tokens_plain st
    exact readScript_of_readCommand ((lex_render_iff h).2 hp) hplain hne hsemi
      (readCommand_tokens st)
  next hp =>
    cases hlex : lex st.render with
    | none => rw [readScript, lexScript, hlex]; rfl
    | some ts =>
      obtain ⟨us, rfl, hsemi, hshort⟩ := lex_of_not_plain h hp hlex
      exact readScript_grant_eq_none hlex hsemi (hshort.imp_left (·.trans (by decide)))

private theorem readAll_render {sts : List Statement} (h : ∀ st ∈ sts, st.Checked T) :
    readAll (sts.map Statement.render) =
      if ∀ st ∈ sts, st.Plain then some (sts.map Statement.command) else none := by
  induction sts with
  | nil => rfl
  | cons st sts ih =>
    obtain ⟨hst, hsts⟩ := forall_mem_cons.1 h
    have hcons : readAll ((st :: sts).map Statement.render) =
        (readScript st.render).bind fun cs =>
          (readAll (sts.map Statement.render)).map (cs ++ ·) := by
      rw [readAll, readAll, map_cons, mapM_cons]
      cases readScript st.render with
      | none => rfl
      | some cs => cases (sts.map Statement.render).mapM readScript <;> rfl
    rw [hcons, readScript_render hst, ih hsts]
    by_cases hp : st.Plain
    · by_cases hps : ∀ st ∈ sts, st.Plain
      · rw [if_pos hp, if_pos hps, if_pos (forall_mem_cons.2 ⟨hp, hps⟩)]
        rfl
      · rw [if_pos hp, if_neg hps, if_neg fun hall => hps (forall_mem_cons.1 hall).2]
        rfl
    · rw [if_neg hp, if_neg fun hall => hp (forall_mem_cons.1 hall).1]
      rfl

end

/-- What a user is meant to determine. -/
def attributes (s : RoleState) : Bool × Bool × Int := (s.login, s.superuser, s.connectionLimit)

/-- Execute `Plan(u, exists)`, with the flag that tells whether the role exists. -/
def execPlan (T : RuneTables) (S : SliceSort) (rules : Rules) (keys : List GoString) (u : User)
    (db : Database) : Database :=
  match plan T S keys u (decide (u.name ∈ db.roles)) with
  | .ok texts => (db.runAll rules texts).1
  | .error _ => db

/-- The server accepts a plan: the role can be created or altered, its limit is one, and the roles,
databases and privileges exist. -/
def PlanAccepted (server : Server) (u : User) : Prop :=
  (isReserved u.name = false ∧ -1 ≤ u.connectionLimit) ∧
  (∀ role ∈ u.roles, server.roles role = true) ∧
  ∀ db ∈ u.grantsByDatabase, ∀ g ∈ u.grants db,
    server.databases db = true ∧ (databasePrivileges (g.map asciiUpper)).isSome = true

/-- What the statements about the role itself make of it: everything is set but a limit of zero
and an empty password. -/
def planned (u : User) (role : Option RoleState) : RoleState where
  login := true
  superuser := u.superuser
  connectionLimit := if u.connectionLimit ≠ 0 then u.connectionLimit
    else (role.map RoleState.connectionLimit).getD (-1)
  password := if u.password ≠ [] then u.password else (role.map RoleState.password).getD []
  grants := held role

section

variable {T : RuneTables} {S : SliceSort} {keys : List GoString} {u : User} {exist : Bool}
  {server : Server} {rules : Rules}

private theorem foldlM_attributes (u : User) (role : Option RoleState) :
    ((u.attributes role.isSome).map Statement.command).foldlM
        (fun role c => Command.step server c role) role =
      if isReserved u.name = false ∧ -1 ≤ u.connectionLimit then some (some (planned u role))
      else none := by
  by_cases hreserved : isReserved u.name = false
  · by_cases hlimit : u.connectionLimit = 0
    · cases role <;> by_cases hp : u.password = [] <;>
        simp [User.attributes, hp, hlimit, Statement.command, Command.step, Command.exec, Admits,
          hreserved, RoleState.created, RoleState.altered, planned, held]
    · by_cases hle : -1 ≤ u.connectionLimit <;> cases role <;> by_cases hp : u.password = [] <;>
        simp [User.attributes, hp, hlimit, hle, Statement.command, Command.step, Command.exec,
          Admits, hreserved, RoleState.created, RoleState.altered, planned, held]
  · cases role <;> simp [User.attributes, Statement.command, Command.step, Command.exec, Admits,
      hreserved]

/-- The grants of a plan. -/
private def grantCommands (S : SliceSort) (keys : List GoString) (u : User) : List Command :=
  ((sorted S u.roles).map (Statement.grantRole · u.name) ++ (sortedKeys S keys).flatMap fun db =>
    (sorted S (u.grants db)).map (Statement.grantOnDatabase · db u.name)).map Statement.command

private theorem command_planStatements :
    (planStatements S keys u exist).map Statement.command =
      (u.attributes exist).map Statement.command ++ grantCommands S keys u := by
  rw [planStatements, append_assoc, map_append]
  rfl

private theorem mem_grantCommands (hkeys : Ranges u.grantsByDatabase keys) {c : Command} :
    c ∈ grantCommands S keys u ↔ (∃ role ∈ u.roles, c = .grantRole role u.name) ∨
      ∃ db ∈ u.grantsByDatabase, ∃ g ∈ u.grants db,
        c = .grantOnDatabase (g.map asciiUpper) db u.name := by
  simp only [grantCommands, map_append, List.map_map, map_flatMap, mem_append, List.mem_map,
    mem_flatMap, mem_sorted, mem_sortedKeys hkeys, eq_comm, Function.comp, Statement.command]

private theorem accepted_iff (hkeys : Ranges u.grantsByDatabase keys) :
    PlanAccepted server u ↔ (isReserved u.name = false ∧ -1 ≤ u.connectionLimit) ∧
      ∀ c ∈ grantCommands S keys u, c.Accepted server := by
  refine and_congr_right fun _ => ?_
  simp only [mem_grantCommands hkeys]
  constructor
  · rintro ⟨hroles, hgrants⟩ c (⟨role, hrole, rfl⟩ | ⟨db, hdb, g, hg, rfl⟩)
    · exact hroles role hrole
    · exact hgrants db hdb g hg
  · intro h
    exact ⟨fun role hrole => h _ (.inl ⟨role, hrole, rfl⟩),
      fun db hdb g hg => h _ (.inr ⟨db, hdb, g, hg, rfl⟩)⟩

private theorem plain_of_databasePrivileges {g : GoString}
    (h : (databasePrivileges (g.map asciiUpper)).isSome = true) : PlainPrivilege g := by
  have hupper : PlainPrivilege (g.map asciiUpper) → PlainPrivilege g := by
    rintro ⟨hdash, hdot, hhead⟩
    refine ⟨fun hm => hdash (List.mem_map.2 ⟨_, hm, rfl⟩),
      fun hm => hdot (List.mem_map.2 ⟨_, hm, rfl⟩), ?_⟩
    cases g with
    | nil => rfl
    | cons b g =>
      have hb : ∀ b : UInt8, (!isDigitByte (asciiUpper b) && asciiUpper b != 0x24) = true →
          (!isDigitByte b && b != 0x24) = true := by
        intro b
        grind [asciiUpper, isDigitByte]
      exact hb b hhead
  apply hupper
  unfold databasePrivileges at h
  split_ifs at h with h₁ h₂ h₃ h₄
  · rw [h₁]; decide
  · rw [h₂]; decide
  · rcases h₃ with h₃ | h₃ <;> rw [h₃] <;> decide
  · rcases h₄ with h₄ | h₄ <;> rw [h₄] <;> decide
  · cases h

variable (hkeys : Ranges u.grantsByDatabase keys)

include hkeys

private theorem name_of_mem_planStatements {c : Command}
    (hc : c ∈ (planStatements S keys u exist).map Statement.command) : c.name = u.name := by
  obtain ⟨st, hst, rfl⟩ := List.mem_map.1 hc
  rcases (mem_planStatements hkeys).1 hst with hst | ⟨role, -, rfl⟩ | ⟨db, -, g, -, rfl⟩
  · rcases mem_attributes hst with rfl | rfl | rfl | rfl
    · cases exist <;> rfl
    · rfl
    · rfl
    · rfl
  · rfl
  · rfl

private theorem run_planStatements (S : SliceSort) (server : Server) (role : Option RoleState) :
    (PlanAccepted server u →
      (Transaction.run (Command.step server)
        ((planStatements S keys u role.isSome).map Statement.command) role).1 =
        some ((planned u role).granted
          ((grantCommands S keys u).toFinset.biUnion (Command.grants server)))) ∧
      (¬ PlanAccepted server u → (Transaction.run (Command.step server)
        ((planStatements S keys u role.isSome).map Statement.command) role).1 = role) := by
  have hgrants : ∀ c ∈ grantCommands S keys u, c.isGrant = true := by
    intro c hc
    rcases (mem_grantCommands hkeys).1 hc with ⟨role, -, rfl⟩ | ⟨db, -, g, -, rfl⟩ <;> rfl
  rw [accepted_iff (S := S) hkeys, Transaction.run, command_planStatements, foldlM_append,
    foldlM_attributes]
  by_cases hrole : isReserved u.name = false ∧ -1 ≤ u.connectionLimit
  · rw [if_pos hrole, bind_eq_bind, bind_some, foldlM_step_of_isGrant hgrants]
    refine ⟨fun h => by rw [if_pos h.2], fun h => ?_⟩
    rw [if_neg fun hall => h ⟨hrole, hall⟩]
  · rw [if_neg hrole]
    exact ⟨fun h => absurd h.1 hrole, fun _ => rfl⟩

private theorem execPlan_eq (hvalid : u.Valid T) (db : Database) :
    execPlan T S rules keys u db = (db.runAll rules
      ((planStatements S keys u db.roles[u.name]?.isSome).map Statement.render)).1 := by
  have hexist : decide (u.name ∈ db.roles) = db.roles[u.name]?.isSome := by
    rw [Bool.eq_iff_iff, decide_eq_true_iff, Std.ExtTreeMap.mem_iff_isSome_getElem?]
  have hplan : plan T S keys u db.roles[u.name]?.isSome = .ok _ :=
    (plan_eq_ok_iff hkeys).2 ⟨hvalid, rfl⟩
  rw [execPlan, hexist, hplan]

private theorem not_accepted_of_not_plain (h : ¬ ∀ st ∈ planStatements S keys u exist, st.Plain) :
    ¬ PlanAccepted server u := by
  rintro ⟨-, -, hgrants⟩
  refine h ((forall_plain_iff S exist hkeys).2 fun db hdb g hg => ?_)
  exact plain_of_databasePrivileges (hgrants db hdb g hg).2

private theorem attributes_execPlan (S : SliceSort) (rules : Rules) (hvalid : u.Valid T)
    (db : Database) :
    (PlanAccepted (db.server rules u.name) u →
      ((execPlan T S rules keys u db).roles[u.name]?).map attributes =
        some (attributes (planned u db.roles[u.name]?))) ∧
    (¬ PlanAccepted (db.server rules u.name) u →
      ((execPlan T S rules keys u db).roles[u.name]?).map attributes =
        (db.roles[u.name]?).map attributes) := by
  have hread := readAll_render
    fun st (hst : st ∈ planStatements S keys u db.roles[u.name]?.isSome) =>
      checked_of_mem hvalid hkeys hst
  rw [execPlan_eq hkeys hvalid]
  by_cases hplain : ∀ st ∈ planStatements S keys u db.roles[u.name]?.isSome, st.Plain
  · rw [if_pos hplain] at hread
    have hrun := run_planStatements hkeys S (db.server rules u.name) db.roles[u.name]?
    rw [Database.runAll_eq hread fun c hc => name_of_mem_planStatements hkeys hc,
      Database.setRole_self]
    exact ⟨fun h => by rw [hrun.1 h]; rfl, fun h => by rw [hrun.2 h]⟩
  · rw [if_neg hplain] at hread
    rw [Database.runAll_of_none hread]
    exact ⟨fun h => absurd h (not_accepted_of_not_plain hkeys hplain), fun _ => rfl⟩

end

/-- A `User` and a `PostgresUser` that stand for the same user. -/
structure SameAccount (u : User) (user : PostgresUser) : Prop where
  name : user.metadata.name = u.name
  superuser : user.spec.superuser = u.superuser
  connectionLimit : user.spec.connectionLimit = u.connectionLimit

section

variable {T : RuneTables} {server : Server} {u : User} {user : PostgresUser}

-- If the server accepts both, the flag of the one and the limit of the other are in the way.
private theorem planned_eq_reached_iff (hsame : SameAccount u user) (prior : Option RoleState) :
    (attributes (planned u prior) = attributes (planned u none) ∧
      attributes (planned u prior) = attributes (reached T server user u.password prior)) ↔
      ∀ a ∈ prior, a.login = true ∧ (u.connectionLimit ≠ 0 ∨ a.connectionLimit = -1) := by
  have hlimit : (roleOptions user u.password).connectionLimit =
      if u.connectionLimit = 0 then -1 else u.connectionLimit := by
    rw [roleOptions, hsame.connectionLimit]
  cases prior <;> by_cases h : u.connectionLimit = 0 <;>
    simp [h, attributes, planned, reached, canLogin, hlimit, hsame.superuser]

private theorem planned_eq_prior_iff (prior : Option RoleState) :
    (attributes (planned u prior) = attributes (planned u none) ∧
      some (attributes (planned u prior)) = prior.map attributes) ↔
      ∃ a ∈ prior, attributes a = attributes (planned u none) := by
  cases prior with
  | none => simp
  | some a =>
    simp only [map_some, some.injEq, mem_def, exists_eq_left']
    constructor
    · rintro ⟨hnone, ha⟩
      exact ha.symm.trans hnone
    · intro ha
      have hlimit : a.connectionLimit = (planned u none).connectionLimit := congrArg (·.2.2) ha
      have hkept : attributes (planned u (some a)) = attributes (planned u none) := by
        by_cases h : u.connectionLimit = 0 <;> simp_all [attributes, planned]
      exact ⟨hkept, hkept.trans ha.symm⟩

end

/-- When a plan determines the role. In any database, a plan leads to the flags and the limit it
gives a new role and that the script of the user controller establishes from the same state, if
and only if the server accepts both, and there was no role, or it could log in and the limit is
not zero or was −1 before; or it accepts the plan only, and the role was as the plan makes a new
one; or it accepts neither, and there was no role. -/
theorem plan_determines_iff (T : RuneTables) (S : SliceSort) (rules : Rules) (u : User)
    (hvalid : u.Valid T) (keys : List GoString) (hkeys : Ranges u.grantsByDatabase keys)
    (user : PostgresUser) (hsame : SameAccount u user) (db : Database) :
    (((execPlan T S rules keys u db).roles[u.name]?).map attributes =
        ((execPlan T S rules keys u (db.setRole u.name none)).roles[u.name]?).map attributes ∧
      ((execPlan T S rules keys u db).roles[u.name]?).map attributes =
        ((db.run rules (buildUserSQL T user u.password)).1.roles[u.name]?).map attributes) ↔
      let server := db.server rules u.name
      let prior := db.roles[u.name]?
      (PlanAccepted server u ∧ Realisable T server user u.password ∧
        ∀ a ∈ prior, a.login = true ∧ (u.connectionLimit ≠ 0 ∨ a.connectionLimit = -1)) ∨
      (PlanAccepted server u ∧ ¬ Realisable T server user u.password ∧
        ∃ a ∈ prior, attributes a = attributes (planned u none)) ∨
      (¬ PlanAccepted server u ∧ ¬ Realisable T server user u.password ∧ prior = none) := by
  have hname : isValidIdentifier T user.metadata.name = true := by
    rw [hsame.name]
    exact hvalid.name
  have hplan := attributes_execPlan hkeys S rules hvalid db
  have hnew := attributes_execPlan hkeys S rules hvalid (db.setRole u.name none)
  have hscript := run_buildUserSQL rules user u.password hname db
  rw [Database.server_setRole, Database.setRole_self] at hnew
  rw [hsame.name] at hscript
  simp only
  by_cases haccepted : PlanAccepted (db.server rules u.name) u
  · rw [hplan.1 haccepted, hnew.1 haccepted, hscript, some.injEq]
    by_cases hreal : Realisable T (db.server rules u.name) user u.password
    · rw [if_pos hreal, Database.setRole_self, map_some, some.injEq, planned_eq_reached_iff hsame]
      simp only [haccepted, hreal, true_and, not_true_eq_false, false_and, or_false]
    · rw [if_neg hreal, planned_eq_prior_iff]
      simp only [haccepted, hreal, true_and, not_true_eq_false, not_false_eq_true, false_and,
        false_or, or_false]
  · rw [hplan.2 haccepted, hnew.2 haccepted, hscript]
    simp only [haccepted, false_and, not_false_eq_true, true_and, false_or, map_none,
      map_eq_none_iff]
    by_cases hreal : Realisable T (db.server rules u.name) user u.password
    · rw [if_pos hreal, Database.setRole_self]
      simp only [hreal, not_true_eq_false, false_and, iff_false]
      rintro ⟨hnone, heq⟩
      rw [hnone] at heq
      cases heq
    · simp [hreal]

/-- The sample user as a resource. -/
def samplePostgresUser : PostgresUser :=
  { User.sampleUser with
    metadata := { User.sampleUser.metadata with name := lit "alice" }
    spec := { User.sampleUser.spec with superuser := false, connectionLimit := 5 } }

/-- A database with a role for the sample user, and two that it can become a member of. -/
def samplePrior (role : Option RoleState) : Database :=
  { User.sampleDatabase with databases := {lit "app", lit "logs"} }.setRole (lit "alice") role

/-- A limit is set on a role that had another. -/
theorem plan_determines_sampleUser :
    ((execPlan .basic .insertion sampleRules [lit "app", lit "logs"]
        (sampleUser [lit "readers"] [lit "temp"])
        (samplePrior (some ⟨true, true, 7, [], ∅⟩))).roles[lit "alice"]?).map attributes =
      (((samplePrior (some ⟨true, true, 7, [], ∅⟩)).run sampleRules
        (buildUserSQL .basic samplePostgresUser (lit "it's"))).1.roles[lit "alice"]?).map
          attributes := by
  have hkeys : Ranges (sampleUser [lit "readers"] [lit "temp"]).grantsByDatabase
      [lit "app", lit "logs"] := by decide +kernel
  obtain ⟨out, hplan⟩ : ∃ out, plan .basic .insertion [lit "app", lit "logs"]
      (sampleUser [lit "readers"] [lit "temp"]) true = .ok out := ⟨_, rfl⟩
  have hvalid : (sampleUser [lit "readers"] [lit "temp"]).Valid .basic :=
    ((plan_eq_ok_iff hkeys).1 hplan).1
  have haccepted : PlanAccepted ((samplePrior (some ⟨true, true, 7, [], ∅⟩)).server sampleRules
      (lit "alice")) (sampleUser [lit "readers"] [lit "temp"]) := by
    refine ⟨by decide, by decide +kernel, fun db hdb => ?_⟩
    have hmem := hkeys.mem_iff.2 hdb
    simp only [mem_cons, not_mem_nil, or_false] at hmem
    rcases hmem with rfl | rfl <;> decide +kernel
  have hreal : Realisable .basic ((samplePrior (some ⟨true, true, 7, [], ∅⟩)).server sampleRules
      (lit "alice")) samplePostgresUser (lit "it's") := by decide +kernel
  have hprior : ∀ a ∈ (samplePrior (some ⟨true, true, 7, [], ∅⟩)).roles[lit "alice"]?,
      a.login = true ∧ ((5 : Int) ≠ 0 ∨ a.connectionLimit = -1) := by decide +kernel
  have hdetermines := plan_determines_iff .basic .insertion sampleRules _ hvalid _ hkeys
    samplePostgresUser ⟨rfl, rfl, rfl⟩ (samplePrior (some ⟨true, true, 7, [], ∅⟩))
  have hname : (sampleUser [lit "readers"] [lit "temp"]).name = lit "alice" := rfl
  have hpassword : (sampleUser [lit "readers"] [lit "temp"]).password = lit "it's" := rfl
  have hlimit : (sampleUser [lit "readers"] [lit "temp"]).connectionLimit = 5 := rfl
  rw [hname, hpassword, hlimit] at hdetermines
  exact (hdetermines.2 (.inl ⟨haccepted, hreal, hprior⟩)).2

/-- No limit is asked for, and the role keeps the one it had; and it could not log in before. -/
theorem plan_keeps_limit :
    ((execPlan .basic .insertion sampleRules [] ⟨lit "alice", [], false, 0, [], ∅⟩
        (samplePrior (some ⟨false, false, 7, [], ∅⟩))).roles[lit "alice"]?).map attributes =
        some (true, false, 7) ∧
      ((execPlan .basic .insertion sampleRules [] ⟨lit "alice", [], false, 0, [], ∅⟩
        (samplePrior none)).roles[lit "alice"]?).map attributes = some (true, false, -1) ∧
      (((samplePrior (some ⟨false, false, 7, [], ∅⟩)).run sampleRules
        (buildUserSQL .basic { samplePostgresUser with
          spec := { samplePostgresUser.spec with connectionLimit := 0 } } [])).1.roles[
            lit "alice"]?).map attributes = some (false, false, -1) := by
  decide +kernel

end Athos.Userstate
