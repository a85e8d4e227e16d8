import Athos.User.Script

/-!
# The user script as PostgreSQL reads it

Tokens of a user script: what each statement is meant to look like, and when the text of the script
lexes to exactly that.
-/

namespace Athos.User

open Base Kube Sql
open List hiding lex

/-! ### The intended tokens -/

/-- Connection limit and password clauses. -/
def optionTokens (o : RoleOptions) : List Token :=
  keywords "CONNECTION LIMIT" ++ intTokens o.connectionLimit ++
    if o.password ≠ [] then keywords "PASSWORD" ++ [.literal o.password] else []

/-- The tokens of the code block up to the options. -/
def createHeadTokens (name : GoString) (superuser : Bool) : List Token :=
  keywords "BEGIN IF NOT EXISTS" ++ [.symbol 0x28] ++
    keywords "SELECT FROM PG_ROLES WHERE ROLNAME" ++
    [.symbol 0x3D, .literal name, .symbol 0x29] ++ keywords "THEN CREATE ROLE" ++ [.ident name] ++
    keywords "WITH LOGIN" ++ if superuser then keywords "SUPERUSER" else []

/-- The code block that creates the role unless it exists. -/
def blockTokens (name : GoString) (o : RoleOptions) : List Token :=
  createHeadTokens name o.superuser ++ optionTokens o ++ [.symbol 0x3B] ++ keywords "END IF" ++
    [.symbol 0x3B] ++ keywords "END"

/-- The tokens of a statement outside code blocks; `spell` is how a privilege is written. -/
def Statement.tokens (spell : GoString → GoString) : Statement → List Token
  | .ensureRole name o => keywords "DO" ++ [.dollar (guardedCreate name o), .symbol 0x3B]
  | .alterRole name o =>
    keywords "ALTER ROLE" ++ [.ident name] ++
      (if o.superuser then keywords "SUPERUSER" else keywords "NOSUPERUSER") ++ optionTokens o ++
      [.symbol 0x3B]
  | .grantRole role name =>
    keywords "GRANT" ++ [.ident role] ++ keywords "TO" ++ [.ident name, .symbol 0x3B]
  | .grantConnect database name =>
    keywords "GRANT CONNECT ON DATABASE" ++ [.ident database] ++ keywords "TO" ++
      [.ident name, .symbol 0x3B]
  | .grantOnTables privilege name =>
    keywords "GRANT" ++ wordTokens (spell privilege) ++
      keywords "ON ALL TABLES IN SCHEMA PUBLIC TO" ++ [.ident name, .symbol 0x3B]

/-- The tokens of a statement with those of its code block. -/
def Statement.scriptTokens (spell : GoString → GoString) : Statement → List ScriptToken
  | .ensureRole name o =>
    (keywords "DO").map .plain ++ [.block (blockTokens name o), .plain (.symbol 0x3B)]
  | s => (s.tokens spell).map .plain

/-- The skeleton the script is meant to have: every value is one token of exactly that
value, and every privilege is spelled as a whitelisted keyword. -/
def skeleton (T : RuneTables) (user : PostgresUser) (password : GoString) : List ScriptToken :=
  (userStatements T user password).flatMap (Statement.scriptTokens (toUpper T))

/-! ### The pieces of a statement -/

section Pieces

variable {T : RuneTables} {name s : GoString} {o : RoleOptions}

/-- The words before the connection limit. -/
theorem transduces_connectionLimit :
    Transduces step .start (lit " CONNECTION LIMIT ") .start (keywords "CONNECTION LIMIT") := by
  decide

private theorem transduces_password :
    Transduces step .start (lit " PASSWORD ") .start (keywords "PASSWORD") := by decide

private theorem lexes_options (ho : 0x00 ∉ o.password) (hs : s.head? = some 0x3B) :
    Lexes o.render (optionTokens o) s := by
  obtain ⟨s, rfl⟩ := head?_eq_some_iff.1 hs
  refine ((lexes_of_transduces transduces_connectionLimit).append (lexes_decimal _ ?_)).append ?_
  · split <;> rfl
  · split
    · exact (lexes_of_transduces transduces_password).append (lexes_stringLiteral ho rfl rfl)
    · exact lexes_of_transduces rfl

private theorem transduces_statementEnd :
    Transduces step .start (lit ";\n") .start [.symbol 0x3B] := by decide

private theorem lexes_toName {x : GoString} {ts : List Token} (hn : isValidIdentifier T name = true)
    (hx : Lexes x ts (identifier name ++ (lit ";\n" ++ s))) :
    Lexes (x ++ identifier name ++ lit ";\n") (ts ++ [.ident name, .symbol 0x3B]) s := by
  have hall := (hx.append (lexes_identifier hn rfl)).append
    (lexes_of_transduces transduces_statementEnd)
  rw [append_assoc ts] at hall
  exact hall

private theorem options_head (o : RoleOptions) (s : GoString) :
    (o.render ++ s).head? = some 0x20 := rfl

private theorem transduces_select :
    Transduces step .start
      (lit " BEGIN IF NOT EXISTS (SELECT FROM pg_roles WHERE rolname = ") .start
      (keywords "BEGIN IF NOT EXISTS" ++ [.symbol 0x28] ++
        keywords "SELECT FROM PG_ROLES WHERE ROLNAME" ++ [.symbol 0x3D]) := by decide

private theorem lexes_createHead (superuser : Bool) (hn : isValidIdentifier T name = true)
    (hs : s.head? = some 0x20) :
    Lexes (createHead name superuser) (createHeadTokens name superuser) s := by
  have hcreate : Transduces step .start (lit ") THEN CREATE ROLE ") .start
      (.symbol 0x29 :: keywords "THEN CREATE ROLE") := by decide
  have hlogin : Lexes (lit " WITH LOGIN") (keywords "WITH LOGIN")
      ((if superuser then lit " SUPERUSER" else []) ++ s) := by
    refine lexes_words (forall_mem_of_all (by decide)) ?_
    split
    · rfl
    · exact hs
  have hflag : Lexes (if superuser then lit " SUPERUSER" else [])
      (if superuser then keywords "SUPERUSER" else []) s := by
    split
    · exact lexes_words (forall_mem_of_all (by decide)) hs
    · exact lexes_of_transduces rfl
  have hall := (((((lexes_of_transduces transduces_select).append
    (lexes_stringLiteral (not_mem_of_isValidIdentifier hn).1 (by rfl) (by rfl))).append
    (lexes_of_transduces hcreate)).append (lexes_identifier hn (by rfl))).append hlogin).append
    hflag
  simpa only [createHead, createHeadTokens, append_assoc, cons_append, nil_append] using hall

private theorem lexes_guardedCreate (hn : isValidIdentifier T name = true)
    (ho : 0x00 ∉ o.password) : Lexes (guardedCreate name o) (blockTokens name o) [] := by
  have hend : Transduces step .start (lit "; END IF; END ") .start
      ([.symbol 0x3B] ++ keywords "END IF" ++ [.symbol 0x3B] ++ keywords "END") := by decide
  have hall := ((lexes_createHead o.superuser hn (options_head o _)).append
    (lexes_options ho rfl)).append (lexes_of_transduces hend : Lexes _ _ [])
  simpa only [guardedCreate, blockTokens, append_assoc] using hall

end Pieces

/-! ### Where the code block ends -/

private theorem pair_infix_quoted {q : UInt8} (hq : q ≠ 0x24) (s t : GoString) :
    [0x24, 0x24] <:+: quoted q s ++ t ↔ [0x24, 0x24] <:+: s ∨ [0x24, 0x24] <:+: t := by
  rw [quoted, cons_append, append_assoc, singleton_append, pair_infix_cons,
    pair_infix_append_cons hq, pair_infix_replaceByte hq]
  simp [hq]

-- No piece of the code block has a NUL.
private theorem nul_not_mem_guardedCreate {T : RuneTables} {name : GoString} {o : RoleOptions}
    (hn : isValidIdentifier T name = true) (ho : 0x00 ∉ o.password) :
    0x00 ∉ guardedCreate name o := by
  have h0 := (not_mem_of_isValidIdentifier hn).1
  have hlimit := not_mem_decimal (b := 0x00) (by decide) (by decide) o.connectionLimit
  have hflag : 0x00 ∉ if o.superuser then lit " SUPERUSER" else [] := by split <;> decide
  have hpassword :
      0x00 ∉ if o.password ≠ [] then lit " PASSWORD " ++ stringLiteral o.password else [] := by
    split
    · rw [stringLiteral_eq, mem_append, mem_quoted]
      exact not_or.2 ⟨by decide, not_or.2 ⟨by decide, ho⟩⟩
    · exact not_mem_nil
  simp only [guardedCreate, createHead, RoleOptions.render, stringLiteral_eq name,
    identifier_eq hn, mem_append, mem_quoted, h0, hlimit, hflag, hpassword, or_false]
  decide

private theorem pair_infix_options (o : RoleOptions) (t : GoString) :
    [0x24, 0x24] <:+: o.render ++ t ↔ [0x24, 0x24] <:+: o.password ∨ [0x24, 0x24] <:+: t := by
  rw [RoleOptions.render, append_assoc, append_assoc, pair_infix_append_of_not_mem (by decide),
    pair_infix_append_of_not_mem (not_mem_decimal (by decide) (by decide) _)]
  split
  · rw [append_assoc, pair_infix_append_of_not_mem (by decide), stringLiteral_eq,
      pair_infix_quoted (by decide)]
  · next h =>
    have hp : o.password = [] := not_not.1 h
    simp [hp]

section OpenPrefix

variable {T : RuneTables} {name : GoString} {o : RoleOptions}

section

variable (hn : isValidIdentifier T name = true)

include hn

private theorem pair_infix_createHead (superuser : Bool) (t : GoString) :
    [0x24, 0x24] <:+: createHead name superuser ++ t ↔
      [0x24, 0x24] <:+: name ∨ [0x24, 0x24] <:+: t := by
  have hflag : 0x24 ∉ if superuser then lit " SUPERUSER" else [] := by
    split <;> decide
  simp only [createHead, append_assoc]
  rw [pair_infix_append_of_not_mem (by decide), stringLiteral_eq, pair_infix_quoted (by decide),
    pair_infix_append_of_not_mem (by decide), identifier_eq hn, pair_infix_quoted (by decide),
    pair_infix_append_of_not_mem (by decide), pair_infix_append_of_not_mem hflag]
  exact ⟨fun h => h.elim .inl id, .inr⟩

private theorem pair_infix_guardedCreate (o : RoleOptions) :
    [0x24, 0x24] <:+: guardedCreate name o ++ [0x24] ↔
      [0x24, 0x24] <:+: name ∨ [0x24, 0x24] <:+: o.password := by
  have hend : ¬ [(0x24 : UInt8), 0x24] <:+: lit "; END IF; END " ++ [0x24] := by decide
  rw [guardedCreate, append_assoc, append_assoc, pair_infix_createHead hn, pair_infix_options]
  simp only [hend, or_false]

-- The name occurs first in the literal of the existence test.
private theorem open_prefix_of_name (h : [0x24, 0x24] <:+: name) :
    ∃ b₁ b₂, guardedCreate name o = b₁ ++ [0x24, 0x24] ++ b₂ ∧
      ¬ [0x24, 0x24] <:+: b₁ ++ [0x24] ∧ lex b₁ = none := by
  obtain ⟨u, v, hname, hu⟩ := exists_first_pair h
  have hquote := (not_mem_of_isValidIdentifier hn).2.2
  have hrep : replaceByte 0x27 [0x27, 0x27] u = u :=
    replaceByte_of_not_mem fun hm => hquote (by rw [hname]; exact mem_append_left _ hm)
  refine ⟨lit " BEGIN IF NOT EXISTS (SELECT FROM pg_roles WHERE rolname = " ++ 0x27 :: u,
    v ++ ([0x27] ++ (lit ") THEN CREATE ROLE " ++ (identifier name ++ (lit " WITH LOGIN" ++
      ((if o.superuser then lit " SUPERUSER" else []) ++ (o.render ++ lit "; END IF; END ")))))),
    ?_, ?_, ?_⟩
  · rw [guardedCreate, createHead, stringLiteral, replaceByte_of_not_mem hquote]
    conv_lhs => rw [hname]
    simp only [append_assoc, cons_append, nil_append]
    rw [← hname]
  · rw [append_assoc, pair_infix_append_of_not_mem (by decide), cons_append, pair_infix_cons]
    exact fun hc => hc.elim (fun he => absurd he.1 (by decide)) hu
  · have h0 : 0x00 ∉ u := fun hm =>
      (not_mem_of_isValidIdentifier hn).1 (by rw [hname]; exact mem_append_left _ hm)
    have hopen := lexFrom_open_literal h0
    rw [hrep] at hopen
    exact (lexes_of_transduces transduces_select).lex_eq_none hopen

private theorem open_prefix_of_password (ho : 0x00 ∉ o.password)
    (hname : ¬ [0x24, 0x24] <:+: name) (h : [0x24, 0x24] <:+: o.password) :
    ∃ b₁ b₂, guardedCreate name o = b₁ ++ [0x24, 0x24] ++ b₂ ∧
      ¬ [0x24, 0x24] <:+: b₁ ++ [0x24] ∧ lex b₁ = none := by
  obtain ⟨u, v, hpw, hu⟩ := exists_first_pair h
  have hne : o.password ≠ [] := by rw [hpw]; simp
  have hrep : replaceByte 0x27 [0x27, 0x27] o.password =
      replaceByte 0x27 [0x27, 0x27] u ++ ([0x24, 0x24] ++ replaceByte 0x27 [0x27, 0x27] v) := by
    rw [hpw, replaceByte_append]
    rfl
  refine ⟨createHead name o.superuser ++ lit " CONNECTION LIMIT " ++ decimal o.connectionLimit ++
    lit " PASSWORD " ++ 0x27 :: replaceByte 0x27 [0x27, 0x27] u,
    replaceByte 0x27 [0x27, 0x27] v ++ ([0x27] ++ lit "; END IF; END "), ?_, ?_, ?_⟩
  · rw [guardedCreate, RoleOptions.render, if_pos hne, stringLiteral, hrep]
    simp only [append_assoc, cons_append, nil_append]
  · have hliteral : ¬ [(0x24 : UInt8), 0x24] <:+:
        0x27 :: (replaceByte 0x27 [0x27, 0x27] u ++ [0x24]) := by
      have hr : replaceByte 0x27 [0x27, 0x27] u ++ [0x24] =
          replaceByte 0x27 [0x27, 0x27] (u ++ [0x24]) := by rw [replaceByte_append]; rfl
      rw [pair_infix_cons, hr, pair_infix_replaceByte (by decide)]
      exact fun hc => hc.elim (fun he => absurd he.1 (by decide)) hu
    simp only [append_assoc, cons_append]
    rw [pair_infix_createHead hn, pair_infix_append_of_not_mem (by decide),
      pair_infix_append_of_not_mem (not_mem_decimal (by decide) (by decide) _),
      pair_infix_append_of_not_mem (by decide)]
    simp only [hname, hliteral, or_self, not_false_eq_true]
  · have h0 : 0x00 ∉ u := fun hm => ho (by rw [hpw]; exact mem_append_left _ hm)
    exact Lexes.lex_eq_none (Lexes.append (((lexes_createHead o.superuser hn (by rfl)).append
      (lexes_of_transduces transduces_connectionLimit)).append (lexes_decimal _ (by rfl)))
      (lexes_of_transduces transduces_password)) (lexFrom_open_literal h0)

/-- A repeated delimiter cuts the code block inside an open literal. -/
theorem lexScript_of_pair (ho : 0x00 ∉ o.password)
    (h : [0x24, 0x24] <:+: name ∨ [0x24, 0x24] <:+: o.password) (rest : GoString) :
    lexScript ((Statement.ensureRole name o).render ++ rest) = none := by
  obtain ⟨b₁, b₂, heq, hfirst, hlex⟩ : ∃ b₁ b₂, guardedCreate name o = b₁ ++ [0x24, 0x24] ++ b₂ ∧
      ¬ [0x24, 0x24] <:+: b₁ ++ [0x24] ∧ lex b₁ = none := by
    by_cases hname : [0x24, 0x24] <:+: name
    · exact open_prefix_of_name hn hname
    · exact open_prefix_of_password hn ho hname (h.resolve_left hname)
  have hdo : Transduces step .start (lit "DO ") .start (keywords "DO") := by decide
  have hsplit : (Statement.ensureRole name o).render ++ rest =
      (lit "DO " ++ 0x24 :: 0x24 :: (b₁ ++ [0x24, 0x24])) ++ (b₂ ++ (lit "$$;\n" ++ rest)) := by
    have hlit : lit "DO $$" = lit "DO " ++ [0x24, 0x24] := by decide
    rw [Statement.render, heq, hlit]
    simp only [append_assoc, cons_append, nil_append]
  have h0 : 0x00 ∉ b₁ := fun hm => nul_not_mem_guardedCreate hn ho
    (by rw [heq, append_assoc]; exact mem_append_left _ hm)
  rw [hsplit]
  exact lexScript_eq_none (lexes_of_transduces (hdo.append (transduces_dollar h0 hfirst))) hlex

end

end OpenPrefix

/-! ### Privileges -/

/-- A word with a byte above ASCII. -/
def isHighWord : Token → Bool
  | .word w => w.any fun b => !decide (b < 0x80)
  | _ => false

variable {p n password : GoString} {s : Statement}

private theorem exists_highWord {b : UInt8} (hb : b ∈ p) (hh : ¬ b < 0x80) :
    ∃ t ∈ wordTokens p, isHighWord t = true := by
  have hspace : b ≠ 0x20 := fun he => hh (by rw [he]; decide)
  have hup : asciiUpper b = b := by
    have hle : ¬ b ≤ 0x7A := fun hle => hh (UInt8.lt_of_le_of_lt hle (by decide))
    rw [asciiUpper, if_neg fun hc => hle hc.2]
  obtain ⟨w, hw, hbw⟩ := mem_wordsFrom_iff.2 ⟨hb, hspace⟩
  refine ⟨_, mem_map.2 ⟨w, hw, rfl⟩, ?_⟩
  refine any_eq_true.2 ⟨b, mem_map.2 ⟨b, hbw, hup⟩, ?_⟩
  rw [decide_eq_false hh]
  rfl

/-! ### Whole scripts -/

/-- The statement has no value that repeats the delimiter of its code block. -/
def Statement.Undelimited : Statement → Prop
  | .ensureRole name o => ¬ [0x24, 0x24] <:+: name ∧ ¬ [0x24, 0x24] <:+: o.password
  | _ => True

variable {T : RuneTables}

private theorem Statement.lexes_render (hv : s.Valid T) (hd : s.Undelimited) (rest : GoString) :
    Lexes s.render (s.tokens id) rest := by
  have hgrant : Transduces step .start (lit "GRANT ") .start (keywords "GRANT") := by decide
  have hto : Transduces step .start (lit " TO ") .start (keywords "TO") := by decide
  cases s with
  | ensureRole name o =>
    have hdo : Transduces step .start (lit "DO ") .start (keywords "DO") := by decide
    have hpair : ¬ [0x24, 0x24] <:+: guardedCreate name o ++ [0x24] := by
      rw [pair_infix_guardedCreate hv.1, not_or]
      exact hd
    have h0 := nul_not_mem_guardedCreate hv.1 hv.2
    have hall := hdo.append ((transduces_dollar h0 hpair).append transduces_statementEnd)
    have hlit : lit "DO $$" = lit "DO " ++ [0x24, 0x24] := by decide
    have hend : lit "$$;\n" = [0x24, 0x24] ++ lit ";\n" := by decide
    apply lexes_of_transduces
    rw [Statement.render, hlit, hend]
    simpa only [Statement.tokens, append_assoc, cons_append, nil_append] using hall
  | alterRole name o =>
    have halter : Transduces step .start (lit "ALTER ROLE ") .start (keywords "ALTER ROLE") := by
      decide
    have hflag : Lexes (if o.superuser then lit " SUPERUSER" else lit " NOSUPERUSER")
        (if o.superuser then keywords "SUPERUSER" else keywords "NOSUPERUSER")
        (o.render ++ (lit ";\n" ++ rest)) := by
      split <;> exact lexes_words (forall_mem_of_all (by decide)) (options_head o _)
    exact ((((lexes_of_transduces halter).append (lexes_identifier hv.1 (by split <;> rfl))).append
      hflag).append (lexes_options hv.2 (by rfl))).append
      (lexes_of_transduces transduces_statementEnd)
  | grantRole role name =>
    exact lexes_toName hv.2 (((lexes_of_transduces hgrant).append
      (lexes_identifier hv.1 rfl)).append (lexes_of_transduces hto))
  | grantConnect database name =>
    have hconnect : Transduces step .start (lit "GRANT CONNECT ON DATABASE ") .start
        (keywords "GRANT CONNECT ON DATABASE") := by decide
    exact lexes_toName hv.2 (((lexes_of_transduces hconnect).append
      (lexes_identifier hv.1 rfl)).append (lexes_of_transduces hto))
  | grantOnTables privilege name =>
    have hon : Transduces step .start (lit " ON ALL TABLES IN SCHEMA public TO ") .start
        (keywords "ON ALL TABLES IN SCHEMA PUBLIC TO") := by decide
    exact lexes_toName hv.2 (((lexes_of_transduces hgrant).append
      (lexes_words (fun b hb => privilege_bytes hv.1 hb) rfl)).append (lexes_of_transduces hon))

private theorem all_wordTokens (s : GoString) : (wordTokens s).all Token.isPlain = true := by
  simp [wordTokens, Token.isPlain]

private theorem all_optionTokens (o : RoleOptions) : (optionTokens o).all Token.isPlain = true := by
  have hi : (intTokens o.connectionLimit).all Token.isPlain = true := by
    cases o.connectionLimit <;> rfl
  rw [optionTokens, all_append, all_append, hi, keywords, all_wordTokens]
  split
  · rw [all_append, keywords, all_wordTokens]
    rfl
  · rfl

private theorem mapM_expand_tokens (hv : s.Valid T) (spell : GoString → GoString) :
    (s.tokens spell).mapM expand = some (s.scriptTokens spell) := by
  cases s with
  | ensureRole name o =>
    have hb : expand (.dollar (guardedCreate name o)) = some (.block (blockTokens name o)) := by
      rw [expand, (lexes_guardedCreate hv.1 hv.2).lex_eq]
      rfl
    rw [Statement.tokens, mapM_append, keywords, mapM_expand_of_all (all_wordTokens _),
      mapM_cons, hb]
    rfl
  | alterRole name o =>
    apply mapM_expand_of_all
    simp only [Statement.tokens, all_append, all_optionTokens, all_cons, all_nil,
      keywords, all_wordTokens, Token.isPlain, Bool.and_self, Bool.true_and, Bool.and_true]
    split <;> exact all_wordTokens _
  | _ =>
    apply mapM_expand_of_all
    simp only [Statement.tokens, all_append, all_cons, all_nil, keywords,
      all_wordTokens, Token.isPlain, Bool.and_self]

/-- The text of valid statements lexes to their tokens, with privileges as written. -/
theorem lexScript_renderAll {ss : List Statement} (hss : ∀ s ∈ ss, s.Valid T ∧ s.Undelimited) :
    lexScript (renderAll ss) = some (ss.flatMap (Statement.scriptTokens id)) := by
  have hread : Lexes (renderAll ss) (ss.flatMap (Statement.tokens id)) [] := by
    induction ss with
    | nil => rfl
    | cons s ss ih =>
      have hs := hss s mem_cons_self
      exact (Statement.lexes_render hs.1 hs.2 _).append
        (ih fun s' hs' => hss s' (mem_cons_of_mem s hs'))
  have hexpand : (ss.flatMap (Statement.tokens id)).mapM expand =
      some (ss.flatMap (Statement.scriptTokens id)) := by
    clear hread
    induction ss with
    | nil => rfl
    | cons s ss ih =>
      rw [flatMap_cons, mapM_append, mapM_expand_tokens (hss s mem_cons_self).1 id,
        ih fun s' hs' => hss s' (mem_cons_of_mem s hs')]
      rfl
  rw [lexScript, hread.lex_eq]
  exact hexpand

/-! ### Spelling of privileges -/

private theorem scriptTokens_congr {f g : GoString → GoString} (s : Statement)
    (h : ∀ p name, s = .grantOnTables p name → wordTokens (f p) = wordTokens (g p)) :
    s.scriptTokens f = s.scriptTokens g := by
  cases s with
  | grantOnTables p name =>
    simp only [Statement.scriptTokens, Statement.tokens, h p name rfl]
  | _ => rfl

private theorem asciiUpper_idem (b : UInt8) :
    asciiUpper (asciiUpper b) = asciiUpper b ∧ (asciiUpper b = 0x20 ↔ b = 0x20) := by
  unfold asciiUpper
  grind

private theorem wordsFrom_map (s acc : GoString) :
    wordsFrom (acc.map asciiUpper) (s.map asciiUpper) =
      (wordsFrom acc s).map (List.map asciiUpper) := by
  induction s generalizing acc with
  | nil =>
    simp only [wordsFrom, map_nil, map_eq_nil_iff]
    split
    · rfl
    · rw [map_singleton, map_reverse]
  | cons b s ih =>
    simp only [wordsFrom, map_cons, (asciiUpper_idem b).2, map_eq_nil_iff]
    split
    · rw [map_append, ← ih []]
      split
      · rfl
      · rw [map_singleton, map_reverse]
        rfl
    · exact ih (b :: acc)

private theorem wordTokens_toUpper (T : RuneTables) (hp : ∀ b ∈ p, b < 0x80) :
    wordTokens (toUpper T p) = wordTokens p := by
  have hw := wordsFrom_map p []
  rw [map_nil] at hw
  rw [wordTokens, toUpper_of_ascii T hp, hw, map_map, wordTokens]
  apply map_congr_left
  intro w _
  have hidem : asciiUpper ∘ asciiUpper = asciiUpper := funext fun b => (asciiUpper_idem b).1
  rw [Function.comp_apply, map_map, hidem]

private theorem any_isHighWord_wordTokens {s : GoString}
    (hs : (s.all fun b => decide (b < 0x80)) = true) : (wordTokens s).any isHighWord = false := by
  have hup : ∀ n : Fin 128, asciiUpper (UInt8.ofNat n.val) < 0x80 := by decide
  apply any_eq_false.2
  intro t ht
  obtain ⟨w, hw, rfl⟩ := mem_map.1 ht
  apply Bool.eq_false_iff.1
  apply any_eq_false.2
  intro c hc
  obtain ⟨b, hb, rfl⟩ := mem_map.1 hc
  have hlow := forall_mem_of_all hs b (mem_wordsFrom_iff.1 ⟨w, hw, hb⟩).1
  have hb' := hup ⟨b.toNat, UInt8.lt_iff_toNat_lt.1 hlow⟩
  rw [UInt8.ofNat_toNat] at hb'
  simp [hb']

private theorem any_isHighWord_keywords {s : String}
    (hs : ((lit s).all fun b => decide (b < 0x80)) = true) :
    (keywords s).any isHighWord = false := any_isHighWord_wordTokens hs

private theorem any_isHighWord_options (o : RoleOptions) :
    (optionTokens o).any isHighWord = false := by
  have hint : (intTokens o.connectionLimit).any isHighWord = false := by
    cases o.connectionLimit <;> rfl
  by_cases hp : o.password = [] <;>
    simp (disch := decide) [optionTokens, hint, hp, any_isHighWord_keywords, isHighWord]

private theorem any_isHighWord_tokens (hv : s.Valid T) :
    (s.tokens (toUpper T)).any isHighWord = false := by
  cases s with
  | ensureRole name o =>
    simp (disch := decide) [Statement.tokens, any_isHighWord_keywords, isHighWord]
  | alterRole name o =>
    cases hsuper : o.superuser <;>
      simp (disch := decide) [Statement.tokens, hsuper, any_isHighWord_keywords,
        any_isHighWord_options, isHighWord]
  | grantRole | grantConnect =>
    simp (disch := decide) [Statement.tokens, any_isHighWord_keywords, isHighWord]
  | grantOnTables p name =>
    have hascii : ∀ k ∈ whitelistedPrivileges, (k.all fun b => decide (b < 0x80)) = true := by
      decide
    have hword := any_isHighWord_wordTokens (hascii _ (contains_iff_mem.1 hv.1))
    simp (disch := decide) [Statement.tokens, any_isHighWord_keywords, hword, isHighWord]

private theorem ascii_of_scriptTokens_eq {ss : List Statement} (hss : ∀ s ∈ ss, s.Valid T)
    (heq : ss.flatMap (Statement.scriptTokens id) =
      ss.flatMap (Statement.scriptTokens (toUpper T))) {name : GoString}
    (hp : .grantOnTables p name ∈ ss) {b : UInt8} (hb : b ∈ p) : b < 0x80 := by
  by_contra hh
  obtain ⟨t, ht, hhigh⟩ := exists_highWord hb hh
  have hactual : ScriptToken.plain t ∈ ss.flatMap (Statement.scriptTokens id) := by
    refine mem_flatMap.2 ⟨_, hp, mem_map.2 ⟨t, ?_, rfl⟩⟩
    simp only [Statement.tokens, id_eq, mem_append]
    exact .inl (.inl (.inr ht))
  rw [heq] at hactual
  obtain ⟨s, hs, hts⟩ := mem_flatMap.1 hactual
  have hmem : t ∈ s.tokens (toUpper T) := by
    cases s with
    | ensureRole n o =>
      simp only [Statement.scriptTokens, mem_append, mem_map, mem_cons, not_mem_nil, or_false,
        ScriptToken.plain.injEq, exists_eq_right, reduceCtorEq, false_or] at hts
      simp only [Statement.tokens, mem_append, mem_cons, not_mem_nil, or_false]
      exact hts.imp id .inr
    | _ =>
      obtain ⟨t', ht', he⟩ := mem_map.1 hts
      rw [← ScriptToken.plain.inj he]
      exact ht'
  exact any_eq_false.1 (any_isHighWord_tokens (hss s hs)) t hmem hhigh

/-! ### When the script is read as intended -/

/-- The privileges the script does not skip. -/
def emittedPrivileges (T : RuneTables) (user : PostgresUser) : List GoString :=
  (user.spec.databases.filter fun g => isValidIdentifier T g.name).flatMap fun g =>
    g.privileges.filter (isValidPrivilege T)

private theorem grantOnTables_mem_databaseStatements {name : GoString} {g : Api.DatabaseGrant} :
    .grantOnTables p n ∈ databaseStatements T name g ↔
      n = name ∧ isValidIdentifier T g.name = true ∧
        p ∈ g.privileges.filter (isValidPrivilege T) := by
  unfold databaseStatements
  split
  · next h =>
    simp only [mem_cons, reduceCtorEq, mem_map, Statement.grantOnTables.injEq, false_or,
      h, true_and]
    exact ⟨fun ⟨q, hq, hqp, hn⟩ => ⟨hn.symm, hqp ▸ hq⟩, fun ⟨hn, hp⟩ => ⟨p, hp, rfl, hn.symm⟩⟩
  · next h => simp [h]

private theorem mem_userStatements_grantOnTables {user : PostgresUser} :
    .grantOnTables p n ∈ userStatements T user password ↔
      n = user.metadata.name ∧ p ∈ emittedPrivileges T user := by
  simp only [emittedPrivileges, userStatements, grantStatements, mem_cons, mem_append,
    mem_map, mem_flatMap, reduceCtorEq, and_false, exists_false, false_or]
  constructor
  · rintro ⟨g, hg, hp⟩
    rw [grantOnTables_mem_databaseStatements] at hp
    exact ⟨hp.1, g, mem_filter.2 ⟨hg, hp.2.1⟩, hp.2.2⟩
  · rintro ⟨hn, g, hg, hp⟩
    rw [mem_filter] at hg
    exact ⟨g, hg.1, grantOnTables_mem_databaseStatements.2 ⟨hn, hg.2, hp⟩⟩

/-- No statement has the delimiter in it if neither the name nor the password has. -/
theorem undelimited_of_mem {user : PostgresUser} (hname : ¬ [0x24, 0x24] <:+: user.metadata.name)
    (hpw : ¬ [0x24, 0x24] <:+: password) (hs : s ∈ userStatements T user password) :
    s.Undelimited := by
  cases s with
  | ensureRole name o =>
    rw [userStatements, mem_cons, mem_cons] at hs
    rcases hs with h | h | h
    · cases h
      exact ⟨hname, hpw⟩
    · cases h
    · exact absurd h (role_not_mem_grantStatements name o).1
  | _ => trivial

/-- A script that is not refused is read as intended exactly when neither the name nor the
password contains `$$` and every privilege is written in ASCII letters. The first
condition matters because a dollar-quoted string ends at the first repetition of its tag,
the second because `strings.ToUpper` maps `ſ` and `ı` into ASCII while the scanner does
not. -/
theorem lexScript_buildUserSQL_iff (T : RuneTables) (user : PostgresUser) (password : GoString)
    (h : buildUserSQL T user password ≠ []) :
    lexScript (buildUserSQL T user password) = some (skeleton T user password) ↔
      ¬ [0x24, 0x24] <:+: user.metadata.name ∧ ¬ [0x24, 0x24] <:+: password ∧
        ∀ p ∈ emittedPrivileges T user, ∀ b ∈ p, b < 0x80 := by
  obtain ⟨hn, hp⟩ := buildUserSQL_ne_nil_iff.1 h
  have hvalid : ∀ s ∈ userStatements T user password, s.Valid T :=
    fun s hs => valid_of_mem_userStatements hn hp hs
  rw [buildUserSQL_eq hn hp]
  by_cases hpair : [0x24, 0x24] <:+: user.metadata.name ∨ [0x24, 0x24] <:+: password
  · have hnone : lexScript (renderAll (userStatements T user password)) = none :=
      lexScript_of_pair (o := roleOptions user password) hn (assertSafePassword_iff.1 hp) hpair _
    rw [hnone]
    refine ⟨fun he => (by cases he), fun hc => ?_⟩
    exact absurd hpair (not_or.2 ⟨hc.1, hc.2.1⟩)
  · obtain ⟨hname, hpw⟩ := not_or.1 hpair
    rw [lexScript_renderAll fun s hs => ⟨hvalid s hs, undelimited_of_mem hname hpw hs⟩,
      Option.some.injEq, skeleton]
    constructor
    · intro heq
      refine ⟨hname, hpw, fun p hmem b hb => ?_⟩
      exact ascii_of_scriptTokens_eq hvalid heq
        (mem_userStatements_grantOnTables.2 ⟨rfl, hmem⟩) hb
    · rintro ⟨-, -, hascii⟩
      apply flatMap_congr
      intro s hs
      apply scriptTokens_congr
      rintro p name rfl
      exact (wordTokens_toUpper T (hascii p (mem_userStatements_grantOnTables.1 hs).2)).symm

/-- A password with a quote and a dollar sign. -/
theorem lexScript_sampleUser :
    buildUserSQL .basic sampleUser (lit "it's $ecret") ≠ [] ∧
      lexScript (buildUserSQL .basic sampleUser (lit "it's $ecret")) =
        some (skeleton .basic sampleUser (lit "it's $ecret")) := by
  have h : buildUserSQL .basic sampleUser (lit "it's $ecret") ≠ [] :=
    buildUserSQL_ne_nil_iff.2 ⟨by decide, by decide⟩
  have hascii : ∀ p ∈ emittedPrivileges .basic sampleUser,
      (p.all fun b => decide (b < 0x80)) = true := by decide
  exact ⟨h, (lexScript_buildUserSQL_iff .basic sampleUser _ h).2
    ⟨by decide, by decide, fun p hp => forall_mem_of_all (hascii p hp)⟩⟩

/-- A NUL-free password with two dollar signs in a row leaves a code block that does not
lex. -/
theorem lexScript_sampleUser_dollar :
    0x00 ∉ lit "a$$b" ∧ buildUserSQL .basic sampleUser (lit "a$$b") ≠ [] ∧
      lexScript (buildUserSQL .basic sampleUser (lit "a$$b")) ≠
        some (skeleton .basic sampleUser (lit "a$$b")) := by
  decide +kernel

end Athos.User
