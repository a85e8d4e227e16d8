import Athos.Base.Strings
import Athos.Sql.Quoting

/-!
# Statements about roles

The parser that stands between the scanner and what is executed, for statements about one role: a
role is created, created by a code block unless it exists, altered, and granted roles and
privileges. Role clauses stand in any order, and none may be repeated. Other statements, and other
forms of these, are not read.
-/

namespace Athos.Sql

open Base List Option

/-- What a role statement sets; `none` for what it does not mention. -/
structure RoleClauses where
  login : Option Bool := none
  superuser : Option Bool := none
  connectionLimit : Option Int := none
  password : Option GoString := none
  deriving DecidableEq

/-- One clause of a role statement. -/
inductive Clause where
  | login (flag : Bool)
  | superuser (flag : Bool)
  | connectionLimit (limit : Int)
  | password (value : GoString)
  deriving DecidableEq

/-- A statement about the role it names last; `ensureRole` is a code block that creates the role
unless it exists. Privileges are words in upper case. -/
inductive Command where
  | createRole (name : GoString) (clauses : RoleClauses)
  | ensureRole (name : GoString) (clauses : RoleClauses)
  | alterRole (name : GoString) (clauses : RoleClauses)
  | grantRole (role name : GoString)
  | grantOnDatabase (privilege database name : GoString)
  | grantOnTables (privilege name : GoString)
  deriving DecidableEq

/-- The role a statement is about. -/
def Command.name : Command → GoString
  | .createRole name _ | .ensureRole name _ | .alterRole name _ | .grantRole _ name
  | .grantOnDatabase _ _ name | .grantOnTables _ name => name

/-- Add a clause; a second one of its kind is redundant or in conflict with the first. -/
def RoleClauses.add (c : RoleClauses) : Clause → Option RoleClauses
  | .login flag => if c.login = none then some { c with login := some flag } else none
  | .superuser flag => if c.superuser = none then some { c with superuser := some flag } else none
  | .connectionLimit limit =>
    if c.connectionLimit = none then some { c with connectionLimit := some limit } else none
  | .password value => if c.password = none then some { c with password := some value } else none

/-- What the next token of a list of clauses has to be. -/
inductive Expected where
  | clause
  | limitKeyword
  | limit
  | negativeLimit
  | password
  deriving DecidableEq

/-- Read clauses up to the end of a statement. -/
def readClauses : Expected → RoleClauses → List Token → Option RoleClauses
  | .clause, c, [] => some c
  | .clause, c, .word w :: ts =>
    if w = lit "LOGIN" then (c.add (.login true)).bind (readClauses .clause · ts)
    else if w = lit "NOLOGIN" then (c.add (.login false)).bind (readClauses .clause · ts)
    else if w = lit "SUPERUSER" then (c.add (.superuser true)).bind (readClauses .clause · ts)
    else if w = lit "NOSUPERUSER" then (c.add (.superuser false)).bind (readClauses .clause · ts)
    else if w = lit "CONNECTION" then readClauses .limitKeyword c ts
    else if w = lit "PASSWORD" then readClauses .password c ts
    else none
  | .limitKeyword, c, .word w :: ts => if w = lit "LIMIT" then readClauses .limit c ts else none
  | .limit, c, .symbol b :: ts => if b = 0x2D then readClauses .negativeLimit c ts else none
  | .limit, c, .number ds :: ts =>
    (c.add (.connectionLimit (digitsValue ds))).bind (readClauses .clause · ts)
  | .negativeLimit, c, .number ds :: ts =>
    (c.add (.connectionLimit (-digitsValue ds))).bind (readClauses .clause · ts)
  | .password, c, .literal p :: ts => (c.add (.password p)).bind (readClauses .clause · ts)
  | _, _, _ => none

/-- `WITH` before clauses may be left out. -/
def dropWith : List Token → List Token
  | .word w :: ts => if w = lit "WITH" then ts else .word w :: ts
  | ts => ts

/-- `CREATE` and `ALTER`, after the name of the role. A user is a role that can log in. -/
def readRole (verb kind name : GoString) (ts : List Token) : Option Command :=
  if kind ≠ lit "ROLE" ∧ kind ≠ lit "USER" then none
  else if verb = lit "CREATE" then
    (readClauses .clause {} (dropWith ts)).map fun c =>
      .createRole name { c with login := some (c.login.getD (kind == lit "USER")) }
  else if verb = lit "ALTER" then (readClauses .clause {} (dropWith ts)).map (.alterRole name)
  else none

/-- The text of a word. -/
def readWord : Token → Option GoString
  | .word w => some w
  | _ => none

/-- The text of a list of words. -/
def readWords (ts : List Token) : Option GoString :=
  (ts.mapM readWord).map (List.intercalate [0x20])

/-- What follows `GRANT`, from its end: the role, and before it another role, or privileges on a
database or on tables. -/
def readGrant (ts : List Token) : Option Command :=
  match ts.reverse with
  | .ident name :: .word w :: object =>
    if w ≠ lit "TO" then none
    else
      match object with
      | [.ident role] => some (.grantRole role name)
      | .ident database :: object => do
        let privilege ← object.reverse.dropSuffix? (keywords "ON DATABASE")
        (readWords privilege).map (.grantOnDatabase · database name)
      | object => do
        let privilege ← object.reverse.dropSuffix? (keywords "ON ALL TABLES IN SCHEMA PUBLIC")
        (readWords privilege).map (.grantOnTables · name)
  | _ => none

/-- A statement outside code blocks. -/
def readCommand : List Token → Option Command
  | .word verb :: ts =>
    if verb = lit "GRANT" then readGrant ts
    else
      match ts with
      | .word kind :: .ident name :: ts => readRole verb kind name ts
      | _ => none
  | _ => none

/-- A code block that creates the role whose existence it tests. -/
def readBlock (ts : List Token) : Option Command := do
  let ts ← ts.dropPrefix? (keywords "BEGIN IF NOT EXISTS" ++ [.symbol 0x28] ++
    keywords "SELECT FROM PG_ROLES WHERE ROLNAME" ++ [.symbol 0x3D])
  match ts with
  | .literal tested :: ts =>
    let ts ← ts.dropPrefix? (.symbol 0x29 :: keywords "THEN")
    let ts ← ts.dropSuffix? ([.symbol 0x3B] ++ keywords "END IF" ++ [.symbol 0x3B] ++
      keywords "END")
    match readCommand ts with
    | some (.createRole name c) => if tested = name then some (.ensureRole name c) else none
    | _ => none
  | _ => none

/-- A token outside code blocks. -/
def readPlain : ScriptToken → Option Token
  | .plain t => some t
  | .block _ => none

/-- A statement without its semicolon. -/
def readStatement : List ScriptToken → Option Command
  | .plain (.word w) :: .block body :: [] => if w = lit "DO" then readBlock body else none
  | ts => (ts.mapM readPlain).bind readCommand

/-- Read statements up to their semicolons, of which the last may be missing; the accumulator
holds the tokens of the statement being read, last token first. -/
def readStatements (acc : List ScriptToken) : List ScriptToken → Option (List Command)
  | [] => if acc = [] then some [] else (readStatement acc.reverse).map fun c => [c]
  | t :: ts =>
    if t = .plain (.symbol 0x3B) then
      if acc = [] then readStatements [] ts
      else do
        let c ← readStatement acc.reverse
        let cs ← readStatements [] ts
        return c :: cs
    else readStatements (t :: acc) ts

/-- The statements of a text. -/
def readScript (text : GoString) : Option (List Command) :=
  (lexScript text).bind (readStatements [])

/-- The statements of several texts. -/
def readAll (texts : List GoString) : Option (List Command) :=
  (texts.mapM readScript).map List.flatten

/-- The tokens of a clause. -/
def Clause.tokens : Clause → List Token
  | .login flag => keywords (if flag then "LOGIN" else "NOLOGIN")
  | .superuser flag => keywords (if flag then "SUPERUSER" else "NOSUPERUSER")
  | .connectionLimit limit => keywords "CONNECTION LIMIT" ++ intTokens limit
  | .password value => keywords "PASSWORD" ++ [.literal value]

private theorem readClauses_tokens (c : RoleClauses) (k : Clause) (ts : List Token) :
    readClauses .clause c (k.tokens ++ ts) = (c.add k).bind (readClauses .clause · ts) := by
  cases k with
  | login flag => cases flag <;> rfl
  | superuser flag => cases flag <;> rfl
  | connectionLimit limit =>
    have hwords : keywords "CONNECTION LIMIT" =
        [.word (lit "CONNECTION"), .word (lit "LIMIT")] := rfl
    cases limit with
    | ofNat n =>
      have hlimit : Int.ofNat n = (digitsValue (decimalNat n) : Int) := by
        rw [digitsValue_decimalNat]
        rfl
      rw [Clause.tokens, hwords, intTokens, hlimit]
      rfl
    | negSucc n =>
      have hlimit : Int.negSucc n = -(digitsValue (decimalNat (n + 1)) : Int) := by
        rw [digitsValue_decimalNat]
        rfl
      rw [Clause.tokens, hwords, intTokens, hlimit]
      rfl
  | password value => rfl

/-- Clauses are read one after the other. -/
theorem readClauses_flatMap (c : RoleClauses) (ks : List Clause) :
    readClauses .clause c (ks.flatMap Clause.tokens) = ks.foldlM RoleClauses.add c := by
  induction ks generalizing c with
  | nil => rfl
  | cons k ks ih =>
    rw [flatMap_cons, readClauses_tokens, foldlM_cons]
    exact congrArg (Option.bind _) (funext ih)

variable {ts : List Token}

private theorem dropPrefix?_append (p ts : List Token) : (p ++ ts).dropPrefix? p = some ts :=
  dropPrefix?_append_of_beq ts (BEq.refl p)

private theorem dropSuffix?_append (ts p : List Token) : (ts ++ p).dropSuffix? p = some ts :=
  dropSuffix?_eq_some_iff.2 ⟨p, rfl, BEq.refl p⟩

/-- A privilege as it is read: its words in upper case. -/
def spelling (privilege : GoString) : GoString :=
  List.intercalate [0x20] ((wordsFrom [] privilege).map (List.map asciiUpper))

private theorem readWords_wordTokens (p : GoString) :
    readWords (wordTokens p) = some (spelling p) := by
  have hwords : (wordTokens p).mapM readWord =
      some ((wordsFrom [] p).map (List.map asciiUpper)) := by
    rw [wordTokens, mapM_map]
    exact mapM_pure
  rw [readWords, hwords]
  rfl

private theorem readCommand_grant (ts : List Token) :
    readCommand (keywords "GRANT" ++ ts) = readGrant ts := rfl

/-- A role granted to a role. -/
theorem readCommand_grantRole (role name : GoString) :
    readCommand (keywords "GRANT" ++ .ident role :: (keywords "TO" ++ [.ident name])) =
      some (.grantRole role name) := rfl

/-- A privilege on a database. -/
theorem readCommand_grantOnDatabase (p database name : GoString) :
    readCommand (keywords "GRANT" ++ (wordTokens p ++ (keywords "ON DATABASE" ++
      .ident database :: (keywords "TO" ++ [.ident name])))) =
      some (.grantOnDatabase (spelling p) database name) := by
  have hon : (keywords "ON DATABASE").reverse = [.word (lit "DATABASE"), .word (lit "ON")] := rfl
  have hto : (keywords "TO").reverse = [.word (lit "TO")] := rfl
  have hobject : (.word (lit "DATABASE") :: .word (lit "ON") :: (wordTokens p).reverse).reverse =
      wordTokens p ++ keywords "ON DATABASE" := by
    rw [← reverse_inj, reverse_reverse, reverse_append, hon]
    rfl
  rw [readCommand_grant, readGrant]
  simp only [reverse_append, reverse_cons, hon, hto, reverse_nil, nil_append,
    cons_append, ne_eq, not_true_eq_false, ↓reduceIte, hobject, dropSuffix?_append,
    bind_eq_bind, bind_some, readWords_wordTokens, map_some]

/-- A privilege on the tables of the public schema. -/
theorem readCommand_grantOnTables (p name : GoString) :
    readCommand (keywords "GRANT" ++ (wordTokens p ++
      (keywords "ON ALL TABLES IN SCHEMA PUBLIC TO" ++ [.ident name]))) =
      some (.grantOnTables (spelling p) name) := by
  have hon : (keywords "ON ALL TABLES IN SCHEMA PUBLIC TO").reverse =
      .word (lit "TO") :: .word (lit "PUBLIC") ::
        (keywords "ON ALL TABLES IN SCHEMA").reverse := rfl
  have hobject : (.word (lit "PUBLIC") ::
      ((keywords "ON ALL TABLES IN SCHEMA").reverse ++ (wordTokens p).reverse)).reverse =
      wordTokens p ++ keywords "ON ALL TABLES IN SCHEMA PUBLIC" := by
    rw [reverse_cons, reverse_append, reverse_reverse, reverse_reverse, append_assoc]
    rfl
  rw [readCommand_grant, readGrant]
  simp only [reverse_append, hon, reverse_cons, reverse_nil, nil_append,
    cons_append, ne_eq, not_true_eq_false, ↓reduceIte, hobject, dropSuffix?_append,
    bind_eq_bind, bind_some, readWords_wordTokens, map_some]

private theorem isName_of_readWords {w : GoString} (h : readWords ts = some w) :
    ∀ t ∈ ts, t.isName = true := by
  obtain ⟨ws, hws, -⟩ := map_eq_some_iff.1 h
  intro t ht
  obtain ⟨w, -, hw⟩ := exists_of_forall₂_left (mapM_eq_some_iff.1 hws) ht
  cases t with
  | word => rfl
  | _ => cases hw

private theorem isName_keywords (s : String) : ∀ t ∈ keywords s, t.isName = true := by
  intro t ht
  obtain ⟨w, -, rfl⟩ := List.mem_map.1 ht
  rfl

-- What stands before the last words of an object is a privilege.
private theorem isName_of_dropSuffix {object : List Token} {s : String}
    {f : GoString → Command} {c : Command}
    (h : (object.reverse.dropSuffix? (keywords s) >>= fun p => (readWords p).map f) = some c) :
    ∀ t ∈ object, t.isName = true := by
  obtain ⟨p, hp, hwords⟩ := bind_eq_some_iff.1 h
  obtain ⟨w, hw, -⟩ := map_eq_some_iff.1 hwords
  obtain ⟨s', hobject, hs'⟩ := dropSuffix?_eq_some_iff.1 hp
  obtain rfl := eq_of_beq hs'
  intro t ht
  rw [← mem_reverse, hobject, mem_append] at ht
  exact ht.elim (isName_of_readWords hw t) (isName_keywords s t)

private theorem isName_of_readGrant {c : Command} (h : readGrant ts = some c) :
    3 ≤ ts.length ∧ ∀ t ∈ ts, t.isName = true := by
  have hobject : ∀ {name w : GoString} {object : List Token},
      ts.reverse = .ident name :: .word w :: object → object ≠ [] →
        (∀ t ∈ object, t.isName = true) → 3 ≤ ts.length ∧ ∀ t ∈ ts, t.isName = true := by
    intro name w object hrev hne hnames
    have hlength := congrArg List.length hrev
    have hpos := length_pos_iff.2 hne
    simp only [length_reverse, length_cons] at hlength
    refine ⟨by omega, fun t ht => ?_⟩
    rw [← mem_reverse, hrev, mem_cons, mem_cons] at ht
    rcases ht with rfl | rfl | ht
    · rfl
    · rfl
    · exact hnames t ht
  unfold readGrant at h
  split at h
  next name w object hrev =>
    split at h
    · cases h
    · split at h
      next role => exact hobject hrev (by simp) (by simp [Token.isName])
      next database object _ =>
        refine hobject hrev (by simp) (forall_mem_cons.2 ⟨rfl, ?_⟩)
        exact isName_of_dropSuffix h
      next =>
        refine hobject hrev ?_ (isName_of_dropSuffix h)
        rintro rfl
        cases h
  next => cases h

/-- A code block that creates a role unless it exists. -/
theorem readBlock_of_readCommand {name : GoString} {c : RoleClauses}
    (h : readCommand ts = some (.createRole name c)) :
    readBlock (keywords "BEGIN IF NOT EXISTS" ++ [.symbol 0x28] ++
      keywords "SELECT FROM PG_ROLES WHERE ROLNAME" ++ [.symbol 0x3D] ++
      .literal name :: (.symbol 0x29 :: keywords "THEN" ++ (ts ++ ([.symbol 0x3B] ++
      keywords "END IF" ++ [.symbol 0x3B] ++ keywords "END")))) = some (.ensureRole name c) := by
  rw [readBlock]
  simp only [dropPrefix?_append, dropSuffix?_append, bind_eq_bind, bind_some, h, ↓reduceIte]

private theorem readStatement_plain (ts : List Token) :
    readStatement (ts.map .plain) = readCommand ts := by
  have hplain : (ts.map ScriptToken.plain).mapM readPlain = some ts := by
    rw [mapM_map]
    exact mapM_pure.trans (congrArg some (List.map_id ts))
  rw [readStatement, hplain]
  · rfl
  · intro w body h
    obtain ⟨t, ts, rfl, -, hts⟩ := map_eq_cons_iff.1 h
    obtain ⟨t', ts', rfl, ht', -⟩ := map_eq_cons_iff.1 hts
    cases ht'

/-- A statement is read from these tokens, which are followed by a semicolon or by nothing. -/
def Reads (body : List ScriptToken) (c : Command) : Prop :=
  body ≠ [] ∧ .plain (.symbol 0x3B) ∉ body ∧ readStatement body = some c

/-- Plain tokens without a semicolon are one statement. -/
theorem reads_plain {c : Command} (hne : ts ≠ []) (hsemi : .symbol 0x3B ∉ ts)
    (h : readCommand ts = some c) : Reads (ts.map .plain) c := by
  refine ⟨fun he => hne (map_eq_nil_iff.1 he), ?_, (readStatement_plain ts).trans h⟩
  rw [List.mem_map]
  rintro ⟨t, ht, heq⟩
  cases heq
  exact hsemi ht

private theorem readStatements_append {body : List ScriptToken}
    (hsemi : .plain (.symbol 0x3B) ∉ body) (acc rest : List ScriptToken) :
    readStatements acc (body ++ rest) = readStatements (body.reverse ++ acc) rest := by
  induction body generalizing acc with
  | nil => rfl
  | cons t body ih =>
    obtain ⟨ht, hbody⟩ := not_or.1 (mt mem_cons.2 hsemi)
    rw [cons_append, readStatements, if_neg (Ne.symm ht), ih hbody, reverse_cons, append_assoc]
    rfl

private theorem readStatements_singleton {body : List ScriptToken} (hne : body ≠ [])
    (hsemi : .plain (.symbol 0x3B) ∉ body) :
    readStatements [] body = (readStatement body).map fun c => [c] := by
  have h := readStatements_append hsemi [] []
  rw [append_nil, append_nil] at h
  rw [h, readStatements, if_neg (mt reverse_eq_nil_iff.1 hne), reverse_reverse]

/-- Statements with their semicolons are read one after the other. -/
theorem readStatements_flatMap {α : Type} {f : α → List ScriptToken} {g : α → Command}
    (h : ∀ a, ∃ body, f a = body ++ [.plain (.symbol 0x3B)] ∧ Reads body (g a)) (as : List α) :
    readStatements [] (as.flatMap f) = some (as.map g) := by
  induction as with
  | nil => rfl
  | cons a as ih =>
    obtain ⟨body, htokens, hne, hsemi, hread⟩ := h a
    rw [flatMap_cons, htokens, append_assoc, readStatements_append hsemi,
      append_nil, singleton_append, readStatements, if_pos rfl,
      if_neg (mt reverse_eq_nil_iff.1 hne), reverse_reverse, hread, ih]
    rfl

/-- A text of one statement without its semicolon. -/
theorem readScript_of_readCommand {text : GoString} {c : Command} (hlex : lex text = some ts)
    (hplain : ts.all Token.isPlain = true) (hne : ts ≠ []) (hsemi : .symbol 0x3B ∉ ts)
    (h : readCommand ts = some c) : readScript text = some [c] := by
  obtain ⟨hbody, hsemi, hread⟩ := reads_plain hne hsemi h
  rw [readScript, lexScript, hlex, bind_some, mapM_expand_of_all hplain, bind_some,
    readStatements_singleton hbody hsemi, hread]
  rfl

/-- One text is read as its statements. -/
theorem readAll_singleton (text : GoString) : readAll [text] = readScript text := by
  cases h : readScript text <;> simp [readAll, h]

private theorem readStatement_grant (ts : List ScriptToken) :
    readStatement (.plain (.word (lit "GRANT")) :: ts) = (ts.mapM readPlain).bind readGrant := by
  have hcommand : ∀ us, readCommand (.word (lit "GRANT") :: us) = readGrant us := fun _ => rfl
  rw [readStatement.eq_def]
  split
  next w body heq =>
    obtain ⟨hw, rfl⟩ := List.cons.inj heq
    cases hw
    rfl
  next =>
    rw [mapM_cons]
    cases ts.mapM readPlain with
    | none => rfl
    | some us => exact hcommand us

private theorem eq_of_mapM_expand {us : List ScriptToken} {vs : List Token}
    (h : ts.mapM expand = some us) (h' : us.mapM readPlain = some vs) : vs = ts := by
  rw [mapM_eq_some_iff] at h h'
  induction h generalizing vs with
  | nil =>
    cases h'
    rfl
  | @cons t u ts us hu _ ih =>
    obtain ⟨v, vs, hv, hvs, rfl⟩ := forall₂_cons_left_iff.1 h'
    rw [ih hvs]
    cases t with
    | dollar b =>
      obtain ⟨body, -, rfl⟩ := map_eq_some_iff.1 hu
      cases hv
    | _ =>
      cases hu
      cases hv
      rfl

private theorem semicolon_of_mem_expand {us : List ScriptToken} (h : ts.mapM expand = some us)
    (hmem : .plain (.symbol 0x3B) ∈ us) : .symbol 0x3B ∈ ts := by
  obtain ⟨t, ht, hu⟩ := exists_of_forall₂_right (mapM_eq_some_iff.1 h) hmem
  cases t with
  | dollar b =>
    obtain ⟨body, -, hbody⟩ := map_eq_some_iff.1 hu
    cases hbody
  | symbol b =>
    cases hu
    exact ht
  | _ => cases hu

/-- A text that starts like a grant but has other tokens, or too few, is an error. -/
theorem readScript_grant_eq_none {text : GoString}
    (hlex : lex text = some (.word (lit "GRANT") :: ts)) (hsemi : .symbol 0x3B ∉ ts)
    (h : ts.length < 3 ∨ ∃ t ∈ ts, t.isName = false) : readScript text = none := by
  rw [readScript, lexScript, hlex, bind_some, mapM_cons]
  cases hus : ts.mapM expand with
  | none => rfl
  | some us =>
    have hsemi' : .plain (.symbol 0x3B) ∉ .plain (.word (lit "GRANT")) :: us := by
      intro hmem
      rcases mem_cons.1 hmem with heq | hmem
      · cases heq
      · exact hsemi (semicolon_of_mem_expand hus hmem)
    change readStatements [] (.plain (.word (lit "GRANT")) :: us) = none
    rw [readStatements_singleton (cons_ne_nil _ _) hsemi', readStatement_grant,
      map_eq_none_iff, bind_eq_none_iff]
    intro vs hvs
    obtain rfl := eq_of_mapM_expand hus hvs
    cases hgrant : readGrant vs with
    | none => rfl
    | some c =>
      obtain ⟨hlength, hnames⟩ := isName_of_readGrant hgrant
      rcases h with h | ⟨t, ht, hname⟩
      · omega
      · rw [hnames t ht] at hname
        cases hname

end Athos.Sql
