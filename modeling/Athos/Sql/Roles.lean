import Athos.Base.Transaction
import Athos.Sql.Statements
import Mathlib.Data.Finset.Union
import Std.Data.ExtTreeMap.Lemmas

/-!
# Roles in a database

What statements about roles do: a role has flags, a connection limit, a password and what was
granted to it. Texts are read as statements and executed in one transaction, as `psql -c` does with
one text: if a statement is rejected, or a text cannot be read, nothing happens. Statements about
one role leave all others alone, and what the server accepts does not depend on the state of that
role, so that a transaction about one role is a transaction on its state.
-/

namespace Athos.Sql

open Base List

/-- What can be granted on a table. -/
inductive TablePrivilege where
  | select
  | insert
  | update
  | delete
  | truncate
  | references
  | trigger
  | maintain
  deriving DecidableEq

/-- What can be granted on a database. -/
inductive DatabasePrivilege where
  | create
  | connect
  | temporary
  deriving DecidableEq

/-- What was granted to a role. -/
inductive Grant where
  | member (role : GoString)
  | database (privilege : DatabasePrivilege) (name : GoString)
  | table (privilege : TablePrivilege)
  deriving DecidableEq

/-- What statements about a role refer to: the roles that can be granted to it, the databases, and
what `ALL` stands for on a table, which depends on the version. -/
structure Server where
  roles : GoString → Bool
  databases : GoString → Bool
  allPrivileges : Finset TablePrivilege

/-- The privileges a keyword stands for before `ON ALL TABLES`. Keywords for other kinds of objects
are rejected there. -/
def Server.tablePrivileges (S : Server) (keyword : GoString) : Option (Finset TablePrivilege) :=
  if keyword = lit "SELECT" then some {.select}
  else if keyword = lit "INSERT" then some {.insert}
  else if keyword = lit "UPDATE" then some {.update}
  else if keyword = lit "DELETE" then some {.delete}
  else if keyword = lit "TRUNCATE" then some {.truncate}
  else if keyword = lit "REFERENCES" then some {.references}
  else if keyword = lit "TRIGGER" then some {.trigger}
  else if keyword = lit "ALL" ∨ keyword = lit "ALL PRIVILEGES" then some S.allPrivileges
  else none

/-- The privileges a keyword stands for before `ON DATABASE`. -/
def databasePrivileges (keyword : GoString) : Option (Finset DatabasePrivilege) :=
  if keyword = lit "CREATE" then some {.create}
  else if keyword = lit "CONNECT" then some {.connect}
  else if keyword = lit "TEMPORARY" ∨ keyword = lit "TEMP" then some {.temporary}
  else if keyword = lit "ALL" ∨ keyword = lit "ALL PRIVILEGES" then
    some {.create, .connect, .temporary}
  else none

/-- A role of the database; an empty password means none. -/
structure RoleState where
  login : Bool
  superuser : Bool
  connectionLimit : Int
  password : GoString
  grants : Finset Grant
  deriving DecidableEq

/-- `ALTER ROLE`: what is not mentioned stays. -/
def RoleState.altered (s : RoleState) (c : RoleClauses) : RoleState where
  login := c.login.getD s.login
  superuser := c.superuser.getD s.superuser
  connectionLimit := c.connectionLimit.getD s.connectionLimit
  password := c.password.getD s.password
  grants := s.grants

/-- A role just created. -/
def RoleState.created (c : RoleClauses) : RoleState :=
  { login := false, superuser := false, connectionLimit := -1, password := [], grants := ∅ :
    RoleState }.altered c

/-- `GRANT` to a role. -/
def RoleState.granted (s : RoleState) (gs : Finset Grant) : RoleState :=
  { s with grants := s.grants ∪ gs }

/-- Names that no role is created or altered under. -/
def isReserved (name : GoString) : Bool :=
  name = lit "public" || name = lit "none" || (lit "pg_").isPrefixOf name

/-- The server accepts the clauses of a role statement. -/
def Admits (name : GoString) (c : RoleClauses) : Prop :=
  isReserved name = false ∧ ∀ limit ∈ c.connectionLimit, -1 ≤ limit

instance (name : GoString) (c : RoleClauses) : Decidable (Admits name c) :=
  inferInstanceAs (Decidable (_ ∧ _))

/-- Execute a statement on its role, which may not exist yet; `none` is an error. -/
def Command.exec (S : Server) : Command → Option RoleState → Option RoleState
  | .createRole .., some _ => none
  | .ensureRole .., some s => some s
  | .createRole name c, none | .ensureRole name c, none =>
    if Admits name c then some (.created c) else none
  | .alterRole name c, some s => if Admits name c then some (s.altered c) else none
  | .grantRole role _, some s =>
    if S.roles role then some (s.granted {.member role}) else none
  | .grantOnDatabase privilege database _, some s =>
    if S.databases database then
      (databasePrivileges privilege).map fun ps => s.granted (ps.image (.database · database))
    else none
  | .grantOnTables privilege _, some s =>
    (S.tablePrivileges privilege).map fun ps => s.granted (ps.image .table)
  | .alterRole .., none | .grantRole .., none | .grantOnDatabase .., none
  | .grantOnTables .., none => none

/-- Execute a statement in a transaction about its role. -/
def Command.step (S : Server) (c : Command) (role : Option RoleState) :
    Option (Option RoleState) := (c.exec S role).map some

/-- The roles by name, and the names of the databases. -/
structure Database where
  roles : Std.ExtTreeMap GoString RoleState
  databases : Finset GoString

/-- What depends on the server: what `ALL` stands for on a table, and whether a role may become a
member of itself by a chain of grants, which PostgreSQL does not allow. -/
structure Rules where
  allPrivileges : Finset TablePrivilege
  acyclic : Bool

/-- What a role holds, nothing if it does not exist. -/
def held (role : Option RoleState) : Finset Grant := (role.map RoleState.grants).getD ∅

namespace Database

/-- Whether a role is a member of another through at most that many grants. -/
def isMember (db : Database) : Nat → GoString → GoString → Bool
  | 0, role, name => role = name
  | n + 1, role, name =>
    role = name || decide (∃ g ∈ held db.roles[role]?, (match g with
      | .member role' => db.isMember n role' name
      | _ => false) = true)

/-- The database as a statement about a role sees it, when the role exists. A chain of grants
that ends at the role and has no repetition passes through other roles only, and has no more links
than there are of these. -/
def server (rules : Rules) (db : Database) (name : GoString) : Server where
  roles role := (role = name ∨ role ∈ db.roles) ∧
    ¬ (rules.acyclic = true ∧ db.isMember (db.roles.erase name).size role name = true)
  databases database := database ∈ db.databases
  allPrivileges := rules.allPrivileges

/-- Execute a statement: on the role it is about, and on no other. -/
def exec (rules : Rules) (c : Command) (db : Database) : Option Database :=
  (c.exec (db.server rules c.name) db.roles[c.name]?).map fun role =>
    { db with roles := db.roles.insert c.name role }

/-- Run texts in one transaction; a text that cannot be read is an error. -/
def runAll (rules : Rules) (texts : List GoString) (db : Database) : Database × Bool :=
  match readAll texts with
  | none => (db, false)
  | some cs => Transaction.run (exec rules) cs db

/-- Run one text in a transaction. -/
def run (rules : Rules) (text : GoString) (db : Database) : Database × Bool :=
  db.runAll rules [text]

/-- The database with another state of one role. -/
def setRole (db : Database) (name : GoString) (role : Option RoleState) : Database :=
  { db with
    roles :=
      match role with
      | some s => db.roles.insert name s
      | none => db.roles.erase name }

section

variable {rules : Rules} {db : Database} {name : GoString} {role : Option RoleState}

private theorem getElem?_setRole (k : GoString) :
    (db.setRole name role).roles[k]? = if name = k then role else db.roles[k]? := by
  cases role with
  | some s =>
    simp only [setRole, Std.ExtTreeMap.getElem?_insert, Std.compare_eq_iff_eq]
  | none => simp only [setRole, Std.ExtTreeMap.getElem?_erase, Std.compare_eq_iff_eq]

/-- The state of the role that was set. -/
@[simp] theorem setRole_self : (db.setRole name role).roles[name]? = role := by
  rw [getElem?_setRole, if_pos rfl]

private theorem ext_roles {db' : Database} (hroles : ∀ k : GoString, db.roles[k]? = db'.roles[k]?)
    (hdatabases : db.databases = db'.databases) : db = db' := by
  have h : db.roles = db'.roles := Std.ExtTreeMap.ext_getElem? fun {k} => hroles k
  cases db
  cases db'
  simp only [mk.injEq]
  exact ⟨h, hdatabases⟩

/-- A role set to what it is. -/
@[simp] theorem setRole_getElem? : db.setRole name db.roles[name]? = db := by
  refine ext_roles (fun k => ?_) rfl
  rw [getElem?_setRole]
  split
  · next h => rw [h]
  · rfl

/-- Of two states the second remains. -/
@[simp] theorem setRole_setRole (role' : Option RoleState) :
    (db.setRole name role).setRole name role' = db.setRole name role' := by
  refine ext_roles (fun k => ?_) rfl
  simp only [getElem?_setRole]
  split <;> rfl

-- The fuel does not change, and a chain that reaches the role is not followed any further.
private theorem isMember_setRole (n : Nat) (role' : GoString) :
    (db.setRole name role).isMember n role' name = db.isMember n role' name := by
  induction n generalizing role' with
  | zero => rfl
  | succ n ih =>
    by_cases hrole : role' = name
    · simp [isMember, hrole]
    · simp only [isMember, getElem?_setRole, if_neg (Ne.symm hrole), ih]

private theorem erase_setRole : (db.setRole name role).roles.erase name = db.roles.erase name := by
  apply Std.ExtTreeMap.ext_getElem?
  intro k
  simp only [Std.ExtTreeMap.getElem?_erase, Std.compare_eq_iff_eq, getElem?_setRole]
  split <;> rfl

/-- What may be granted to a role does not depend on its state. -/
@[simp] theorem server_setRole :
    (db.setRole name role).server rules name = db.server rules name := by
  have hroles : ∀ role', (role' = name ∨ role' ∈ (db.setRole name role).roles) ↔
      (role' = name ∨ role' ∈ db.roles) := by
    intro role'
    by_cases hrole : role' = name
    · simp [hrole]
    · simp only [Std.ExtTreeMap.mem_iff_isSome_getElem?, getElem?_setRole, if_neg (Ne.symm hrole)]
  simp only [server, isMember_setRole, erase_setRole, hroles]
  rfl

private theorem exec_eq {c : Command} (hname : c.name = name) :
    db.exec rules c = (c.step (db.server rules name) db.roles[name]?).map (db.setRole name) := by
  subst hname
  rw [exec, Command.step, Option.map_map]
  rfl

private theorem foldlM_exec {cs : List Command} (hcs : ∀ c ∈ cs, c.name = name) (db : Database) :
    cs.foldlM (fun db c => db.exec rules c) db =
      (cs.foldlM (fun role c => Command.step (db.server rules name) c role) db.roles[name]?).map
        (db.setRole name) := by
  induction cs generalizing db with
  | nil => exact congrArg some setRole_getElem?.symm
  | cons c cs ih =>
    rw [foldlM_cons, foldlM_cons, exec_eq (hcs c mem_cons_self)]
    cases c.step (db.server rules name) db.roles[name]? with
    | none => rfl
    | some role =>
      have hrest := ih (fun c' hc' => hcs c' (mem_cons_of_mem c hc')) (db.setRole name role)
      rw [server_setRole, setRole_self] at hrest
      refine hrest.trans (congrArg (Option.map · _) (funext fun role' => setRole_setRole role'))

/-- A transaction about one role is a transaction on its state. -/
theorem runAll_eq {texts : List GoString} {cs : List Command} (hread : readAll texts = some cs)
    (hcs : ∀ c ∈ cs, c.name = name) (db : Database) :
    db.runAll rules texts =
      (db.setRole name
        (Transaction.run (Command.step (db.server rules name)) cs db.roles[name]?).1,
        (Transaction.run (Command.step (db.server rules name)) cs db.roles[name]?).2) := by
  rw [runAll, hread]
  simp only [Transaction.run, foldlM_exec hcs]
  cases cs.foldlM (fun role c => Command.step (db.server rules name) c role) db.roles[name]? with
  | none => simp only [Option.map_none, setRole_getElem?]
  | some role => rfl

/-- Texts that cannot be read change nothing. -/
theorem runAll_of_none {texts : List GoString} (hread : readAll texts = none) (db : Database) :
    db.runAll rules texts = (db, false) := by
  rw [runAll, hread]

end

end Database

/-- The statements that grant something. -/
def Command.isGrant : Command → Bool
  | .grantRole .. | .grantOnDatabase .. | .grantOnTables .. => true
  | .createRole .. | .ensureRole .. | .alterRole .. => false

/-- The server accepts a statement about a role that exists. -/
def Command.Accepted (S : Server) : Command → Prop
  | .createRole name c | .ensureRole name c | .alterRole name c => Admits name c
  | .grantRole role _ => S.roles role = true
  | .grantOnDatabase privilege database _ =>
    S.databases database = true ∧ (databasePrivileges privilege).isSome = true
  | .grantOnTables privilege _ => (S.tablePrivileges privilege).isSome = true

instance (S : Server) (c : Command) : Decidable (c.Accepted S) :=
  match c with
  | .createRole name c | .ensureRole name c | .alterRole name c =>
    inferInstanceAs (Decidable (Admits name c))
  | .grantRole .. | .grantOnTables .. => inferInstanceAs (Decidable (_ = _))
  | .grantOnDatabase .. => inferInstanceAs (Decidable (_ ∧ _))

/-- What an accepted statement grants. -/
def Command.grants (S : Server) : Command → Finset Grant
  | .createRole .. | .ensureRole .. | .alterRole .. => ∅
  | .grantRole role _ => {.member role}
  | .grantOnDatabase privilege database _ =>
    ((databasePrivileges privilege).getD ∅).image (.database · database)
  | .grantOnTables privilege _ => ((S.tablePrivileges privilege).getD ∅).image .table

section

variable {S : Server} {c c' : Command} {s s' : RoleState} {role role' : Option RoleState}

private theorem granted_granted (s : RoleState) (gs gs' : Finset Grant) :
    (s.granted gs).granted gs' = s.granted (gs ∪ gs') := by
  simp only [RoleState.granted, Finset.union_assoc]

private theorem exec_of_isGrant (hc : c.isGrant = true) (s : RoleState) :
    c.exec S (some s) = if c.Accepted S then some (s.granted (c.grants S)) else none := by
  cases c with
  | createRole | ensureRole | alterRole => cases hc
  | grantRole role name => rfl
  | grantOnDatabase p database name =>
    cases hp : databasePrivileges p <;>
      simp [Command.exec, Command.Accepted, Command.grants, hp]
  | grantOnTables p name =>
    cases hp : S.tablePrivileges p <;>
      simp [Command.exec, Command.Accepted, Command.grants, hp]

/-- Grants succeed together, or the first that is rejected fails them all. -/
theorem foldlM_step_of_isGrant {cs : List Command} (hcs : ∀ c ∈ cs, c.isGrant = true)
    (s : RoleState) :
    cs.foldlM (fun role c => Command.step S c role) (some s) =
      if ∀ c ∈ cs, c.Accepted S then
        some (some (s.granted (cs.toFinset.biUnion (Command.grants S))))
      else none := by
  induction cs generalizing s with
  | nil => simp [RoleState.granted]
  | cons c cs ih =>
    obtain ⟨hc, hcs⟩ := forall_mem_cons.1 hcs
    rw [foldlM_cons, Command.step, exec_of_isGrant hc]
    by_cases ha : c.Accepted S
    · rw [if_pos ha, Option.map_some, Option.bind_eq_bind, Option.bind_some, ih hcs]
      simp only [forall_mem_cons, ha, true_and, granted_granted, toFinset_cons,
        Finset.biUnion_insert]
    · rw [if_neg ha, if_neg fun hall => ha (hall c mem_cons_self)]
      rfl

/-- The place of a statement in a transaction: the role is created, altered, and granted to. -/
def Command.stage : Command → Nat
  | .createRole .. | .ensureRole .. => 0
  | .alterRole .. => 1
  | .grantRole .. | .grantOnDatabase .. | .grantOnTables .. => 2

/-- A statement that can stand before another one about the same role. -/
def Precedes (c c' : Command) : Prop := c.stage < c'.stage ∨ c'.isGrant = true

/-- A statement that can be executed again; a role is created only once. -/
def Command.Repeatable (c : Command) : Prop := ∀ name clauses, c ≠ .createRole name clauses

private theorem exec_grant_iff (hc : c.isGrant = true) :
    c.exec S (some s) = some s' ↔ c.Accepted S ∧ s.granted (c.grants S) = s' := by
  rw [exec_of_isGrant hc]
  simp

private theorem exec_alter_iff {name : GoString} {clauses : RoleClauses} :
    (Command.alterRole name clauses).exec S (some s) = some s' ↔
      Admits name clauses ∧ s.altered clauses = s' := by
  simp [Command.exec]

private theorem altered_altered (s : RoleState) (clauses : RoleClauses) :
    (s.altered clauses).altered clauses = s.altered clauses := by
  cases clauses with
  | mk login superuser limit password =>
    cases login <;> cases superuser <;> cases limit <;> cases password <;> rfl

private theorem exec_again (h : c.exec S (some s) = some s') : c.exec S (some s') = some s' := by
  cases c with
  | createRole => cases h
  | ensureRole => rfl
  | alterRole name clauses =>
    obtain ⟨hadmits, rfl⟩ := exec_alter_iff.1 h
    exact exec_alter_iff.2 ⟨hadmits, altered_altered s clauses⟩
  | grantRole | grantOnDatabase | grantOnTables =>
    obtain ⟨hacc, rfl⟩ := (exec_grant_iff rfl).1 h
    exact (exec_grant_iff rfl).2 ⟨hacc, by rw [granted_granted, Finset.union_self]⟩

-- A later statement leaves an earlier one nothing to do.
private theorem exec_after (hbefore : Precedes c c') (hc : c.exec S (some s) = some s)
    (hc' : c'.exec S (some s) = some s') : c.exec S (some s') = some s' := by
  cases c with
  | createRole => cases hc
  | ensureRole => rfl
  | alterRole name clauses =>
    have hgrant : c'.isGrant = true := by
      rcases hbefore with h | h
      · cases c' <;> simp_all [Command.stage, Command.isGrant]
      · exact h
    obtain ⟨hadmits, hs⟩ := exec_alter_iff.1 hc
    obtain ⟨-, rfl⟩ := (exec_grant_iff hgrant).1 hc'
    refine exec_alter_iff.2 ⟨hadmits, ?_⟩
    calc (s.granted (c'.grants S)).altered clauses
      _ = (s.altered clauses).granted (c'.grants S) := rfl
      _ = s.granted (c'.grants S) := by rw [hs]
  | grantRole | grantOnDatabase | grantOnTables =>
    have hgrant : c'.isGrant = true := by
      rcases hbefore with h | h
      · cases c' <;> simp [Command.stage] at h
      · exact h
    obtain ⟨hacc, hs⟩ := (exec_grant_iff rfl).1 hc
    obtain ⟨-, rfl⟩ := (exec_grant_iff hgrant).1 hc'
    refine (exec_grant_iff rfl).2 ⟨hacc, ?_⟩
    rw [granted_granted, Finset.union_comm, ← granted_granted, hs]

/-- A statement finds its role as it asks for: executing it changes nothing. -/
def Idle (S : Server) (c : Command) (role : Option RoleState) : Prop :=
  ∃ s, role = some s ∧ c.exec S (some s) = some s

private theorem step_of_idle (h : Idle S c role) : c.step S role = some role := by
  obtain ⟨s, rfl, hexec⟩ := h
  rw [Command.step, hexec]
  rfl

private theorem idle_of_step (hc : c.Repeatable) (h : c.step S role = some role') :
    Idle S c role' := by
  obtain ⟨s', hexec, rfl⟩ := Option.map_eq_some_iff.1 h
  refine ⟨s', rfl, ?_⟩
  cases role with
  | none =>
    -- Only the statement that creates the role can do without one.
    cases c with
    | createRole name clauses => exact absurd rfl (hc name clauses)
    | ensureRole => rfl
    | _ => cases hexec
  | some s => exact exec_again hexec

private theorem idle_after (hbefore : Precedes c c') (h : Idle S c role)
    (hstep : c'.step S role = some role') : Idle S c role' := by
  obtain ⟨s, rfl, hexec⟩ := h
  obtain ⟨s', hexec', rfl⟩ := Option.map_eq_some_iff.1 hstep
  exact ⟨s', rfl, exec_after hbefore hexec hexec'⟩

/-- Transactions can be repeated because each statement asks for what it leaves behind. -/
def goal (S : Server) : Transaction.Goal (Command.step S) Precedes where
  holds := Idle S
  repeatable := Command.Repeatable
  idle := step_of_idle
  attained := idle_of_step
  kept := idle_after

end

/-- Running texts about one role twice is running them once, if the role is created by a code
block, altered and granted to in this order. -/
theorem Database.runAll_runAll {rules : Rules} {texts : List GoString} {cs : List Command}
    {name : GoString} (hread : readAll texts = some cs) (hname : ∀ c ∈ cs, c.name = name)
    (horder : cs.Pairwise Precedes) (hrep : ∀ c ∈ cs, c.Repeatable) (db : Database) :
    (db.runAll rules texts).1.runAll rules texts = db.runAll rules texts := by
  have hagain := Transaction.run_run (goal (db.server rules name)) horder hrep db.roles[name]?
  rw [runAll_eq hread hname db, runAll_eq hread hname, server_setRole, setRole_self, hagain,
    setRole_setRole]

end Athos.Sql
