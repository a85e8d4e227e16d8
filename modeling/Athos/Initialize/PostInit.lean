import Athos.User.ScriptLexing

/-!
# SQL after the first start

`PostInitSQL` of `src/internal/initialize/initialize.go`: a comment line, the replication user, and
the application database unless it exists already. Every value is quoted, so whatever it contains it
is one token of that value; only an empty name is not, as PostgreSQL has no identifier of length
zero, and a name over 63 bytes, which it cuts.
-/

namespace Athos.Initialize

open Base Sql User

/-- The fields of `InitParams` that `PostInitSQL` reads; `initialize.go:49-66`. -/
structure InitParams where
  databaseName : GoString
  superuserName : GoString
  replicationUser : GoString
  locale : GoString
  encoding : GoString

/-- `DefaultInitParams`; `initialize.go:70-80`. -/
def defaultInitParams (clusterName : GoString) : InitParams where
  databaseName := clusterName
  superuserName := lit "postgres"
  replicationUser := lit "replicator"
  locale := lit "en_US.UTF-8"
  encoding := lit "UTF8"

/-- `quoteIdent`; `initialize.go:144-146`. -/
def quoteIdent (s : GoString) : GoString := lit "\"" ++ replaceByte 0x22 [0x22, 0x22] s ++ lit "\""

/-- `quoteLiteral`; `initialize.go:149-151`. -/
def quoteLiteral (s : GoString) : GoString := lit "'" ++ replaceByte 0x27 [0x27, 0x27] s ++ lit "'"

/-- The condition for the database statement; `initialize.go:129`. -/
def InitParams.createsDatabase (p : InitParams) : Bool :=
  p.databaseName != lit "postgres" && p.databaseName != p.superuserName

/-- `PostInitSQL`; `initialize.go:118-141`. -/
def InitParams.postInitSQL (p : InitParams) (password : GoString) : GoString :=
  lit "-- Managed by athos-kubernetes - do not edit\n\n" ++
  lit "CREATE USER " ++ quoteIdent p.replicationUser ++
    lit " WITH REPLICATION ENCRYPTED PASSWORD " ++ quoteLiteral password ++ lit ";\n" ++
  if p.createsDatabase then
    lit "CREATE DATABASE " ++ quoteIdent p.databaseName ++ lit " OWNER " ++
      quoteIdent p.superuserName ++ lit " ENCODING " ++ quoteLiteral p.encoding ++
      lit " LC_COLLATE " ++ quoteLiteral p.locale ++ lit " LC_CTYPE " ++ quoteLiteral p.locale ++
      lit ";\n"
  else []

/-- No value contains a NUL byte. -/
structure InitParams.NulFree (p : InitParams) : Prop where
  databaseName : 0x00 ∉ p.databaseName
  superuserName : 0x00 ∉ p.superuserName
  replicationUser : 0x00 ∉ p.replicationUser
  locale : 0x00 ∉ p.locale
  encoding : 0x00 ∉ p.encoding

/-- One `CREATE USER` statement. -/
def userTokens (name password : GoString) : List Token :=
  keywords "CREATE USER" ++ [.ident name] ++ keywords "WITH REPLICATION ENCRYPTED PASSWORD" ++
    [.literal password, .symbol 0x3B]

/-- One `CREATE DATABASE` statement. -/
def databaseTokens (p : InitParams) : List Token :=
  keywords "CREATE DATABASE" ++ [.ident p.databaseName] ++ keywords "OWNER" ++
    [.ident p.superuserName] ++ keywords "ENCODING" ++ [.literal p.encoding] ++
    keywords "LC_COLLATE" ++ [.literal p.locale] ++ keywords "LC_CTYPE" ++
    [.literal p.locale, .symbol 0x3B]

/-- The statements the script is meant to consist of. -/
def postInitTokens (p : InitParams) (password : GoString) : List Token :=
  userTokens p.replicationUser password ++ if p.createsDatabase then databaseTokens p else []

section

variable {s : GoString}

private theorem quoteIdent_eq (v : GoString) : quoteIdent v = quoted 0x22 v := by
  rw [quoteIdent, quoted, List.append_assoc]
  rfl

private theorem quoteLiteral_eq (v : GoString) : quoteLiteral v = quoted 0x27 v := by
  rw [quoteLiteral, quoted, List.append_assoc]
  rfl

private theorem lex_ident {pre v : GoString} (ts : List Token) (hv : 0x00 ∉ v)
    (hpre : Transduces step .start pre .start ts) (hs : s.head? = some 0x20) :
    lexFrom .start (pre ++ (quoteIdent v ++ s)) =
      if v = [] then none
      else (lexFrom .start s).map (ts ++ .ident (truncateIdentifier v) :: ·) := by
  have hq : s.head? ≠ some 0x22 := by rw [hs]; decide
  rw [lexFrom_append hpre, quoteIdent_eq]
  split
  · next h =>
    rw [h, lexFrom_ident_nil hq]
    rfl
  · next h =>
    rw [lexes_ident h hv hq, Option.map_map]
    rfl

private theorem lex_literal {pre v : GoString} (ts : List Token) (hv : 0x00 ∉ v)
    (hpre : Transduces step .start pre .start ts) (hhead : s.head?.all (· != 0x27) = true)
    (hs : resumes (.blank false) s = false) :
    lexFrom .start (pre ++ (quoteLiteral v ++ s)) =
      (lexFrom .start s).map (ts ++ .literal v :: ·) := by
  have hq : s.head? ≠ some 0x27 := fun he => by simp [he] at hhead
  rw [lexFrom_append hpre, quoteLiteral_eq, lexes_literal hv hq hs, Option.map_map]
  rfl

private theorem lex_end : lexFrom .start (lit ";\n") = some [.symbol 0x3B] := by decide

/-- The parameters with the names as the scanner returns them. -/
private def InitParams.cut (p : InitParams) : InitParams :=
  { p with
    databaseName := truncateIdentifier p.databaseName
    superuserName := truncateIdentifier p.superuserName }

private theorem lex_database {p : InitParams} (h : p.NulFree) :
    lexFrom .start (lit "CREATE DATABASE " ++ (quoteIdent p.databaseName ++ (lit " OWNER " ++
      (quoteIdent p.superuserName ++ (lit " ENCODING " ++ (quoteLiteral p.encoding ++
      (lit " LC_COLLATE " ++ (quoteLiteral p.locale ++ (lit " LC_CTYPE " ++
      (quoteLiteral p.locale ++ lit ";\n")))))))))) =
      if p.databaseName = [] then none else if p.superuserName = [] then none
      else some (databaseTokens p.cut) := by
  rw [lex_ident (keywords "CREATE DATABASE") h.databaseName (by decide) rfl,
    lex_ident (keywords "OWNER") h.superuserName (by decide) rfl,
    lex_literal (keywords "ENCODING") h.encoding (by decide) rfl rfl,
    lex_literal (keywords "LC_COLLATE") h.locale (by decide) rfl rfl,
    lex_literal (keywords "LC_CTYPE") h.locale (by decide) rfl rfl, lex_end]
  split
  · rfl
  split
  · rfl
  · simp only [Option.map_some, databaseTokens, InitParams.cut, List.append_assoc,
      List.cons_append, List.nil_append]

private theorem lex_user {name password : GoString} (hname : 0x00 ∉ name)
    (hpassword : 0x00 ∉ password) :
    lexFrom .start (lit "-- Managed by athos-kubernetes - do not edit\n\nCREATE USER " ++
      (quoteIdent name ++ (lit " WITH REPLICATION ENCRYPTED PASSWORD " ++
      (quoteLiteral password ++ (lit ";\n" ++ s))))) =
      if name = [] then none
      else (lexFrom .start s).map (userTokens (truncateIdentifier name) password ++ ·) := by
  have hend : Transduces step .start (lit ";\n") .start [.symbol 0x3B] := by decide
  rw [lex_ident (keywords "CREATE USER") hname (by decide) rfl,
    lex_literal (keywords "WITH REPLICATION ENCRYPTED PASSWORD") hpassword (by decide) rfl rfl,
    lexFrom_append hend]
  split
  · rfl
  · simp only [Option.map_map, userTokens, List.append_assoc, List.cons_append, List.nil_append,
      Function.comp_def]

end

private theorem userTokens_append_inj {name name' password : GoString} {ts ts' : List Token} :
    userTokens name password ++ ts = userTokens name' password ++ ts' ↔
      name = name' ∧ ts = ts' := by
  simp only [userTokens, List.append_assoc, List.append_cancel_left_eq, List.cons_append,
    List.nil_append, List.cons.injEq, Token.ident.injEq, true_and]

private theorem databaseTokens_cut_iff {p : InitParams} :
    databaseTokens p.cut = databaseTokens p ↔
      p.databaseName.length < 64 ∧ p.superuserName.length < 64 := by
  simp only [databaseTokens, InitParams.cut, List.append_assoc, List.append_cancel_left_eq,
    List.cons_append, List.nil_append, List.cons.injEq, Token.ident.injEq,
    truncateIdentifier_eq_self_iff, and_true]

/-- The script has no injections. Without a NUL in its values it lexes to exactly one
`CREATE USER` statement and, where a database is to be created, one `CREATE DATABASE` statement,
with every value as one token of exactly that value, if and only if the names in it have at least
one byte and at most 63. -/
theorem lex_postInitSQL_iff (p : InitParams) (password : GoString) (hp : p.NulFree)
    (hpassword : 0x00 ∉ password) :
    lex (p.postInitSQL password) = some (postInitTokens p password) ↔
      (p.replicationUser ≠ [] ∧ p.replicationUser.length < 64) ∧
        (p.createsDatabase = true → (p.databaseName ≠ [] ∧ p.databaseName.length < 64) ∧
          p.superuserName ≠ [] ∧ p.superuserName.length < 64) := by
  have htext : lit "-- Managed by athos-kubernetes - do not edit\n\n" ++ lit "CREATE USER " =
      lit "-- Managed by athos-kubernetes - do not edit\n\nCREATE USER " := by decide
  rw [lex, InitParams.postInitSQL, htext, postInitTokens]
  simp only [List.append_assoc]
  cases p.createsDatabase with
  | true =>
    simp only [↓reduceIte]
    rw [lex_user hp.replicationUser hpassword, lex_database hp]
    split_ifs with hr hd hs
    · simp [hr]
    · simp [hd]
    · simp [hs]
    · rw [Option.map_some, Option.some.injEq, userTokens_append_inj, databaseTokens_cut_iff,
        truncateIdentifier_eq_self_iff]
      simp only [ne_eq, hr, hd, hs, not_false_eq_true, true_and, forall_const]
  | false =>
    have hnil : lexFrom .start [] = some [] := rfl
    simp only [Bool.false_eq_true, ↓reduceIte]
    rw [lex_user hp.replicationUser hpassword, hnil]
    split_ifs with hr
    · simp [hr]
    · rw [Option.map_some, Option.some.injEq, userTokens_append_inj, truncateIdentifier_eq_self_iff]
      simp only [ne_eq, hr, not_false_eq_true, true_and, and_true, false_implies]

/-- Every value can be hostile, as long as the names are neither empty nor too long. -/
theorem lex_postInitSQL_hostile :
    lex ((defaultInitParams (lit "a\"; DROP TABLE t; --")).postInitSQL (lit "';\n--")) =
      some (postInitTokens (defaultInitParams (lit "a\"; DROP TABLE t; --")) (lit "';\n--")) :=
  (lex_postInitSQL_iff _ _ ⟨by decide, by decide, by decide, by decide, by decide⟩ (by decide)).2
    (by decide)

/-- A replication user without a name, and a database with a name of 64 bytes. -/
theorem lex_postInitSQL_unnamed :
    lex (InitParams.postInitSQL { defaultInitParams (lit "app") with replicationUser := [] }
      (lit "secret")) = none ∧
    lex ((defaultInitParams (List.replicate 64 0x61)).postInitSQL (lit "secret")) =
      some (postInitTokens (defaultInitParams (List.replicate 63 0x61)) (lit "secret")) := by
  decide +kernel

end Athos.Initialize
