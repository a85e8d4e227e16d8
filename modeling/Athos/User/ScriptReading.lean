import Athos.Sql.Statements
import Athos.User.ScriptLexing

/-!
# Reading a user script

What the server reads in a user script. A script whose name and password have no dollar signs in a
row is read as its statements, whatever else they contain; any other is a syntax error.
-/

namespace Athos.User

open Base Kube Sql List

/-- The clauses both role statements of a script have. -/
def RoleOptions.clauses (o : RoleOptions) : RoleClauses where
  connectionLimit := some o.connectionLimit
  password := if o.password = [] then none else some o.password

/-- A statement as it is read. -/
def Statement.command : Statement → Command
  | .ensureRole name o => .ensureRole name
    { o.clauses with login := some true, superuser := if o.superuser then some true else none }
  | .alterRole name o => .alterRole name { o.clauses with superuser := some o.superuser }
  | .grantRole role name => .grantRole role name
  | .grantConnect database name => .grantOnDatabase (lit "CONNECT") database name
  | .grantOnTables privilege name => .grantOnTables (spelling privilege) name

private def optionClauses (o : RoleOptions) : List Clause :=
  .connectionLimit o.connectionLimit :: if o.password = [] then [] else [.password o.password]

private theorem flatMap_optionClauses (o : RoleOptions) :
    (optionClauses o).flatMap Clause.tokens = optionTokens o := by
  rw [optionClauses, optionTokens, flatMap_cons, Clause.tokens]
  by_cases hp : o.password = [] <;> simp [hp, Clause.tokens]

private theorem readCommand_create (name : GoString) (o : RoleOptions) :
    readCommand (keywords "CREATE ROLE" ++ .ident name :: (keywords "WITH LOGIN" ++
      (if o.superuser then keywords "SUPERUSER" else []) ++ optionTokens o)) =
      some (.createRole name { o.clauses with
        login := some true, superuser := if o.superuser then some true else none }) := by
  have htokens : keywords "WITH LOGIN" ++ (if o.superuser then keywords "SUPERUSER" else []) ++
      optionTokens o = .word (lit "WITH") :: ((Clause.login true :: (if o.superuser then
        [Clause.superuser true] else []) ++ optionClauses o).flatMap Clause.tokens) := by
    rw [cons_append, flatMap_cons, flatMap_append, flatMap_optionClauses]
    cases o.superuser <;> rfl
  have hread : ∀ ts,
      readCommand (keywords "CREATE ROLE" ++ .ident name :: .word (lit "WITH") :: ts) =
      (readClauses .clause {} ts).map fun c =>
        .createRole name { c with login := some (c.login.getD false) } := fun _ => rfl
  rw [htokens, hread, readClauses_flatMap]
  by_cases hp : o.password = [] <;> cases o.superuser <;>
    simp [optionClauses, hp, RoleClauses.add, RoleOptions.clauses]

private theorem readCommand_alter (name : GoString) (o : RoleOptions) :
    readCommand (keywords "ALTER ROLE" ++ .ident name ::
      ((if o.superuser then keywords "SUPERUSER" else keywords "NOSUPERUSER") ++ optionTokens o)) =
      some (.alterRole name { o.clauses with superuser := some o.superuser }) := by
  have htokens : (if o.superuser then keywords "SUPERUSER" else keywords "NOSUPERUSER") ++
      optionTokens o = (.superuser o.superuser :: optionClauses o).flatMap Clause.tokens := by
    rw [flatMap_cons, flatMap_optionClauses]
    cases o.superuser <;> rfl
  have hread : ∀ flag ts,
      readCommand (keywords "ALTER ROLE" ++ .ident name :: ((Clause.superuser flag).tokens ++ ts)) =
        (readClauses .clause {} ((Clause.superuser flag).tokens ++ ts)).map (.alterRole name) := by
    intro flag ts
    cases flag <;> rfl
  rw [htokens, flatMap_cons, hread, ← flatMap_cons, readClauses_flatMap]
  by_cases hp : o.password = [] <;>
    simp [optionClauses, hp, RoleClauses.add, RoleOptions.clauses]

private theorem symbol_not_mem_wordTokens (b : UInt8) (s : GoString) :
    .symbol b ∉ wordTokens s := by
  simp [wordTokens]

private theorem symbol_not_mem_keywords (b : UInt8) (s : String) : .symbol b ∉ keywords s :=
  symbol_not_mem_wordTokens b (lit s)

private theorem semicolon_not_mem_optionTokens (o : RoleOptions) :
    .symbol 0x3B ∉ optionTokens o := by
  have hint : .symbol 0x3B ∉ intTokens o.connectionLimit := by
    cases o.connectionLimit <;> simp [intTokens]
  by_cases hp : o.password = [] <;> simp [optionTokens, symbol_not_mem_keywords, hint, hp]

private theorem readBlock_blockTokens (name : GoString) (o : RoleOptions) :
    readBlock (blockTokens name o) = some (Statement.ensureRole name o).command := by
  have hthen : keywords "THEN CREATE ROLE" = keywords "THEN" ++ keywords "CREATE ROLE" := rfl
  have h := readBlock_of_readCommand (readCommand_create name o)
  simpa only [blockTokens, createHeadTokens, hthen, Statement.command, append_assoc,
    cons_append, nil_append] using h

private theorem exists_reads (s : Statement) :
    ∃ body, s.scriptTokens id = body ++ [.plain (.symbol 0x3B)] ∧ Sql.Reads body s.command := by
  have hplain : ∀ {ts : List Token}, s.scriptTokens id = (ts ++ [Token.symbol 0x3B]).map .plain →
      ts ≠ [] → .symbol 0x3B ∉ ts → readCommand ts = some s.command →
      ∃ body, s.scriptTokens id = body ++ [.plain (.symbol 0x3B)] ∧ Sql.Reads body s.command :=
    fun {ts} htokens hne hsemi hread =>
      ⟨ts.map .plain, htokens.trans map_append, reads_plain hne hsemi hread⟩
  cases s with
  | ensureRole name o =>
    refine ⟨[.plain (.word (lit "DO")), .block (blockTokens name o)], rfl, by simp, by simp, ?_⟩
    rw [readStatement, if_pos rfl, readBlock_blockTokens]
  | alterRole name o =>
    refine hplain ?_ ?_ ?_ (readCommand_alter name o)
    · simp [Statement.scriptTokens, Statement.tokens]
    · simp
    · cases o.superuser <;> simp [symbol_not_mem_keywords, semicolon_not_mem_optionTokens]
  | grantRole role name =>
    refine hplain ?_ ?_ ?_ (readCommand_grantRole role name)
    · simp [Statement.scriptTokens, Statement.tokens]
    · simp
    · simp [symbol_not_mem_keywords]
  | grantConnect database name =>
    refine hplain ?_ ?_ ?_ (readCommand_grantOnDatabase (lit "CONNECT") database name)
    · rfl
    · simp
    · simp [symbol_not_mem_keywords, symbol_not_mem_wordTokens]
  | grantOnTables p name =>
    refine hplain ?_ ?_ ?_ (readCommand_grantOnTables p name)
    · simp [Statement.scriptTokens, Statement.tokens]
    · simp
    · simp [symbol_not_mem_keywords, symbol_not_mem_wordTokens]

section

variable {T : RuneTables} {user : PostgresUser} {password : GoString}

/-- A script whose name and password have no two dollar signs in a row is read as its
statements. -/
theorem readScript_buildUserSQL (hname : ¬ [0x24, 0x24] <:+: user.metadata.name)
    (hpw : ¬ [0x24, 0x24] <:+: password) :
    readScript (buildUserSQL T user password) =
      some ((scriptStatements T user password).map Statement.command) := by
  have hss : ∀ s ∈ scriptStatements T user password, s.Valid T ∧ s.Undelimited := by
    rw [scriptStatements]
    split
    next h =>
      rw [Bool.and_eq_true] at h
      exact fun s hs => ⟨valid_of_mem_userStatements h.1 h.2 hs, undelimited_of_mem hname hpw hs⟩
    next => simp
  rw [readScript, buildUserSQL_eq_renderAll, lexScript_renderAll hss]
  exact readStatements_flatMap exists_reads _

/-- A script that is not refused, and whose name or password has two dollar signs in a row, is a
syntax error. -/
theorem readScript_of_pair (h : buildUserSQL T user password ≠ [])
    (hpair : [0x24, 0x24] <:+: user.metadata.name ∨ [0x24, 0x24] <:+: password) :
    readScript (buildUserSQL T user password) = none := by
  obtain ⟨hn, hp⟩ := buildUserSQL_ne_nil_iff.1 h
  have hnone : lexScript (renderAll (userStatements T user password)) = none :=
    lexScript_of_pair (o := roleOptions user password) hn (assertSafePassword_iff.1 hp) hpair _
  rw [readScript, buildUserSQL_eq hn hp, hnone]
  rfl

end

end Athos.User
