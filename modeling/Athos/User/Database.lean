import Athos.Sql.Roles
import Athos.User.ScriptReading

/-!
# Repeating a user script

A script asks for what it finds after it was run once, so that the controller can run it at every
reconcile: the second run changes nothing, and fails if the first failed.
-/

namespace Athos.User

open Base Kube Api Sql List

section

variable {T : RuneTables} {user : PostgresUser} {password : GoString} {st : Statement}

/-- The grants of a script are grants to its user. -/
theorem mem_grantStatements (hst : st ∈ grantStatements T user) :
    st.command.name = user.metadata.name ∧ st.command.isGrant = true := by
  simp only [grantStatements, databaseStatements, mem_append, mem_map, mem_flatMap] at hst
  rcases hst with ⟨role, -, rfl⟩ | ⟨g, -, hg⟩
  · exact ⟨rfl, rfl⟩
  · split at hg
    · rcases mem_cons.1 hg with rfl | hg
      · exact ⟨rfl, rfl⟩
      · obtain ⟨p, -, rfl⟩ := mem_map.1 hg
        exact ⟨rfl, rfl⟩
    · cases hg

private theorem mem_scriptStatements (hst : st ∈ scriptStatements T user password) :
    st.command.name = user.metadata.name := by
  rw [scriptStatements] at hst
  split at hst
  · rw [userStatements, mem_cons, mem_cons] at hst
    rcases hst with rfl | rfl | hst
    · rfl
    · rfl
    · exact (mem_grantStatements hst).1
  · cases hst

/-- The statements of a script are about its user. -/
theorem name_of_mem_command {c : Command}
    (hc : c ∈ (scriptStatements T user password).map Statement.command) :
    c.name = user.metadata.name := by
  obtain ⟨st, hst, rfl⟩ := mem_map.1 hc
  exact mem_scriptStatements hst

private theorem repeatable_command (st : Statement) : st.command.Repeatable := by
  intro name clauses h
  cases st <;> cases h

private theorem pairwise_scriptStatements (T : RuneTables) (user : PostgresUser)
    (password : GoString) :
    ((scriptStatements T user password).map Statement.command).Pairwise Precedes := by
  have hgrants : ∀ st st' : Statement, st' ∈ grantStatements T user →
      Precedes st.command st'.command :=
    fun st st' hst' => .inr (mem_grantStatements hst').2
  rw [pairwise_map, scriptStatements]
  split
  · rw [userStatements, pairwise_cons, pairwise_cons]
    refine ⟨forall_mem_cons.2 ⟨.inl Nat.zero_lt_one, hgrants _⟩, hgrants _, ?_⟩
    exact pairwise_of_forall_mem_list fun st _ st' => hgrants st st'
  · exact List.Pairwise.nil

end

/-- Running a script twice is running it once. In any database, the second run of the script of
a user leaves the database as the first has left it, and succeeds exactly if the first did. -/
theorem run_buildUserSQL_twice (T : RuneTables) (rules : Rules) (db : Database)
    (user : PostgresUser) (password : GoString)
    (hname : ¬ [0x24, 0x24] <:+: user.metadata.name) (hpw : ¬ [0x24, 0x24] <:+: password) :
    (db.run rules (buildUserSQL T user password)).1.run rules (buildUserSQL T user password) =
      db.run rules (buildUserSQL T user password) := by
  have hread := (readAll_singleton _).trans (readScript_buildUserSQL (T := T) hname hpw)
  refine Database.runAll_runAll hread (fun c hc => name_of_mem_command hc)
    (pairwise_scriptStatements T user password) (fun c hc => ?_) db
  obtain ⟨st, -, rfl⟩ := mem_map.1 hc
  exact repeatable_command st

/-- A server as PostgreSQL is up to version 16. -/
def sampleRules : Rules where
  allPrivileges := {.select, .insert, .update, .delete, .truncate, .references, .trigger}
  acyclic := true

/-- A role for others to be members of. -/
def sampleGroup : RoleState where
  login := false
  superuser := false
  connectionLimit := -1
  password := []
  grants := ∅

/-- A database with two roles that users can become members of. -/
def sampleDatabase : Database where
  roles := ((∅ : Std.ExtTreeMap GoString RoleState).insert (lit "readers") sampleGroup).insert
    (lit "writers") sampleGroup
  databases := {lit "app"}

/-- The first run creates the role, the second finds it. -/
theorem run_sampleUser_twice :
    (sampleDatabase.run sampleRules (buildUserSQL .basic sampleUser (lit "secret"))).2 = true ∧
      (sampleDatabase.run sampleRules
        (buildUserSQL .basic sampleUser (lit "secret"))).1.run sampleRules
          (buildUserSQL .basic sampleUser (lit "secret")) =
        sampleDatabase.run sampleRules (buildUserSQL .basic sampleUser (lit "secret")) :=
  ⟨by decide +kernel, run_buildUserSQL_twice .basic sampleRules sampleDatabase sampleUser
    (lit "secret") (by decide) (by decide)⟩

-- Without the roles the script fails, and leaves nothing behind.
example : (({ sampleDatabase with roles := ∅ } : Database).run sampleRules
    (buildUserSQL .basic sampleUser (lit "secret"))).2 = false := by
  decide +kernel

end Athos.User
