import Athos.User.ScriptLexing
import Athos.Userstate.Plan

/-!
# Plans as PostgreSQL reads them

The tokens each statement of a plan is meant to have, and when its text lexes to exactly those.
Names and passwords are quoted and cannot break out; a privilege passes the check for names and is
written as it is.
-/

namespace Athos.Userstate

open Base Athos.User Sql Option
open List hiding lex

/-- The tokens a statement is meant to have. -/
def Statement.tokens : Statement → List Token
  | .login exist name =>
    (if exist then keywords "ALTER USER" else keywords "CREATE USER") ++ [.ident name] ++
      keywords "WITH LOGIN"
  | .password name pw =>
    keywords "ALTER USER" ++ [.ident name] ++ keywords "WITH PASSWORD" ++ [.literal pw]
  | .superuser name su =>
    keywords "ALTER USER" ++ [.ident name] ++
      (if su then keywords "SUPERUSER" else keywords "NOSUPERUSER")
  | .connectionLimit name limit =>
    keywords "ALTER USER" ++ [.ident name] ++ keywords "CONNECTION LIMIT" ++ intTokens limit
  | .grantRole role name =>
    keywords "GRANT" ++ [.ident role] ++ keywords "TO" ++ [.ident name]
  | .grantOnDatabase privilege database name =>
    keywords "GRANT" ++ [.word (privilege.map asciiUpper)] ++ keywords "ON DATABASE" ++
      [.ident database] ++ keywords "TO" ++ [.ident name]

/-- A privilege without dashes and dots that starts with neither a digit nor a dollar sign. -/
def PlainPrivilege (g : GoString) : Prop :=
  0x2D ∉ g ∧ 0x2E ∉ g ∧ g.head?.all (fun b => !isDigitByte b && b != 0x24) = true

instance (g : GoString) : Decidable (PlainPrivilege g) := inferInstanceAs (Decidable (_ ∧ _))

/-- The names in a statement passed the check for names, and its password that for passwords. -/
def Statement.Checked (T : RuneTables) : Statement → Prop
  | .login _ name | .superuser name _ | .connectionLimit name _ => isValidIdentifier T name = true
  | .password name pw => isValidIdentifier T name = true ∧ assertSafePassword pw = true
  | .grantRole role name => isValidIdentifier T role = true ∧ isValidIdentifier T name = true
  | .grantOnDatabase privilege database name =>
    isValidIdentifier T privilege = true ∧ isValidIdentifier T database = true ∧
      isValidIdentifier T name = true

/-- A statement with no privilege, or a plain one. -/
def Statement.Plain : Statement → Prop
  | .grantOnDatabase privilege .. => PlainPrivilege privilege
  | _ => True

instance (st : Statement) : Decidable st.Plain :=
  match st with
  | .grantOnDatabase privilege .. => inferInstanceAs (Decidable (PlainPrivilege privilege))
  | .login .. | .password .. | .superuser .. | .connectionLimit .. | .grantRole .. =>
    inferInstanceAs (Decidable True)

section

variable {T : RuneTables} {name g seg : GoString} {ts : List Token}

private theorem lexes_named {x : GoString} (hname : isValidIdentifier T name = true)
    (hx : Transduces step .start x .start ts) (hseg : seg.head?.all (· != 0x22) = true) :
    Lexes (x ++ identifier name) (ts ++ [.ident name]) seg :=
  (lexes_of_transduces hx).append (lexes_identifier hname hseg)

private theorem identBytes_of_valid (hg : isValidIdentifier T g = true) {b : UInt8} (hb : b ∈ g) :
    isIdentStart b = true ∨ isDigitByte b = true ∨ b = 0x24 ∨ b = 0x2D ∨ b = 0x2E := by
  by_cases hlow : b < 0x80
  · have hbytes := mem_of_isValidIdentifier hg hb hlow
    simp only [isAsciiLetter, Bool.or_eq_true, Bool.and_eq_true, decide_eq_true_eq] at hbytes
    simp only [isIdentStart, isDigitByte, Bool.or_eq_true, Bool.and_eq_true, decide_eq_true_eq,
      beq_iff_eq, UInt8.le_iff_toNat_le, UInt8.reduceToNat]
    tauto
  · have hhigh : 0x80 ≤ b := UInt8.not_lt.1 hlow
    exact .inl (by simp [isIdentStart, hhigh])

private theorem not_isNewline_of_valid (hg : isValidIdentifier T g = true) :
    ∀ b ∈ g, isNewline b = false := by
  intro b hb
  by_contra hc
  have hnl : b = 0x0A ∨ b = 0x0D := by simpa [isNewline, or_iff_not_imp_left] using hc
  have hbytes := identBytes_of_valid hg hb
  rcases hnl with rfl | rfl <;> revert hbytes <;> decide

private theorem not_isNewline_identifier (hname : isValidIdentifier T name = true) :
    ∀ b ∈ identifier name, isNewline b = false := by
  have hquote := (not_mem_of_isValidIdentifier hname).2.1
  rw [identifier_eq hname, quoted, replaceByte_of_not_mem hquote, forall_mem_cons,
    forall_mem_append]
  exact ⟨rfl, not_isNewline_of_valid hname, forall_mem_of_all (by decide)⟩

private theorem lexes_privilege (hg : isValidIdentifier T g = true) (hp : PlainPrivilege g)
    (hseg : seg.head? = some 0x20) : Lexes g [.word (g.map asciiUpper)] seg := by
  obtain ⟨hdash, hdot, hhead⟩ := hp
  have hbytes : ∀ b ∈ g, isIdentStart b = true ∨ isDigitByte b = true ∨ b = 0x24 := by
    intro b hb
    rcases identBytes_of_valid hg hb with h | h | h | rfl | rfl
    · exact .inl h
    · exact .inr (.inl h)
    · exact .inr (.inr h)
    · exact absurd hb hdash
    · exact absurd hb hdot
  apply lexes_word
  · obtain ⟨b, r, rfl⟩ := exists_cons_of_ne_nil (ne_nil_of_isValidIdentifier hg)
    have hb : isDigitByte b = false ∧ b ≠ 0x24 := by simpa using hhead
    rcases hbytes b mem_cons_self with h | h | h
    · exact h
    · rw [hb.1] at h
      cases h
    · exact absurd h hb.2
  · intro b hb
    rcases hbytes b hb with h | h | rfl
    · simp [isIdentCont, h]
    · simp [isIdentCont, h]
    · rfl
  · rw [hseg]
    rfl

private theorem lexFrom_lineComment (hline : ∀ b ∈ seg, isNewline b = false)
    (h : lexFrom .lineComment seg = some ts) : ts = [] := by
  induction seg with
  | nil =>
    cases h
    rfl
  | cons b seg ih =>
    obtain ⟨hb, hseg⟩ := forall_mem_cons.1 hline
    rw [lexFrom_cons, step, if_neg (by simp [hb])] at h
    split at h
    · rw [lexFrom_failed] at h
      cases h
    · obtain ⟨us, hus, rfl⟩ := map_eq_some_iff.1 h
      exact ih hseg hus

private theorem lexFrom_dash (hline : ∀ b ∈ seg, isNewline b = false)
    (h : lexFrom .dash seg = some ts) : ts = [] ∨ ∃ t ∈ ts, t.isName = false := by
  by_cases hhead : seg.head? = some 0x2D
  · obtain ⟨seg, rfl⟩ : ∃ t, seg = 0x2D :: t := by
      cases seg with
      | nil => cases hhead
      | cons b seg => exact ⟨seg, by rw [some.inj hhead]⟩
    rw [lexFrom_cons, step, if_pos rfl] at h
    obtain ⟨us, hus, rfl⟩ := map_eq_some_iff.1 h
    exact .inl (lexFrom_lineComment (forall_mem_cons.1 hline).2 hus)
  · rw [lexFrom_close (t := .symbol 0x2D) rfl] at h
    · obtain ⟨us, -, rfl⟩ := map_eq_some_iff.1 h
      exact .inr ⟨_, mem_cons_self, rfl⟩
    · intro b hb
      have hne : b ≠ 0x2D := fun he => hhead (by rw [hb, he])
      simp only [step, if_neg hne]

private theorem lexFrom_unnamed {b : UInt8}
    (hb : isDigitByte b = true ∨ b = 0x24 ∨ b = 0x2D ∨ b = 0x2E)
    (hline : ∀ c ∈ seg, isNewline c = false) (h : lexFrom .start (b :: seg) = some ts) :
    ts = [] ∨ ∃ t ∈ ts, t.isName = false := by
  rw [lexFrom_cons, step] at h
  obtain ⟨us, hus, rfl⟩ := map_eq_some_iff.1 h
  rcases hb with hb | rfl | rfl | rfl
  · rw [openToken_digit hb] at hus ⊢
    exact .inr (exists_of_unnamed rfl hus)
  · exact .inr (exists_of_unnamed rfl hus)
  · exact lexFrom_dash hline hus
  · exact .inr ⟨_, mem_cons_self, rfl⟩

private theorem lexFrom_of_not_plain (hg : isValidIdentifier T g = true) (hp : ¬ PlainPrivilege g)
    (hline : ∀ b ∈ seg, isNewline b = false) (h : lexFrom .start (g ++ seg) = some ts) :
    ts.length < 2 ∨ ∃ t ∈ ts, t.isName = false := by
  obtain ⟨b, r, rfl⟩ := exists_cons_of_ne_nil (ne_nil_of_isValidIdentifier hg)
  have hrest : ∀ {u : GoString}, u ⊆ b :: r → ∀ c ∈ u ++ seg, isNewline c = false := by
    intro u hu c hc
    rcases mem_append.1 hc with hc | hc
    · exact not_isNewline_of_valid hg c (hu hc)
    · exact hline c hc
  rcases identBytes_of_valid hg mem_cons_self with hb | hb
  · -- Split where the word ends.
    have hcont : isIdentCont b = true := by
      rw [isIdentCont, hb]
      rfl
    have hsplit := takeWhile_append_dropWhile (p := isIdentCont) (l := b :: r)
    have hdrop : (b :: r).dropWhile isIdentCont ≠ [] := by
      intro hnil
      rw [dropWhile_eq_nil_iff] at hnil
      have hdigit : isDigitByte b = false := by grind [isDigitByte, isIdentStart]
      have hdollar : b ≠ 0x24 := by
        rintro rfl
        exact absurd hb (by decide)
      exact hp ⟨fun hm => absurd (hnil _ hm) (by decide), fun hm => absurd (hnil _ hm) (by decide),
        by simp [hdigit, hdollar]⟩
    obtain ⟨d, t, hdt⟩ := exists_cons_of_ne_nil hdrop
    have hd : isIdentCont d = false := by
      have h := head_dropWhile_not isIdentCont hdrop
      simpa [hdt] using h
    have hsub : d :: t ⊆ b :: r := hdt ▸ (dropWhile_sublist isIdentCont).subset
    have hbyte : d = 0x2D ∨ d = 0x2E := by
      rcases identBytes_of_valid hg (hsub mem_cons_self) with h | h | rfl | h
      · simp [isIdentCont, h] at hd
      · simp [isIdentCont, h] at hd
      · cases hd
      · exact h
    have hword := lexes_word (w := (b :: r).takeWhile isIdentCont) (s := (d :: t) ++ seg)
      (by rw [takeWhile_cons_of_pos hcont]; exact hb)
      (fun c hc => mem_takeWhile_imp hc) (by simp [hd])
    rw [Lexes, ← append_assoc, ← hdt, hsplit, hdt] at hword
    rw [hword] at h
    obtain ⟨us, hus, rfl⟩ := map_eq_some_iff.1 h
    rcases lexFrom_unnamed (.inr (.inr hbyte)) (hrest (subset_of_cons_subset hsub)) hus with
      rfl | ⟨t, ht, hname⟩
    · exact .inl Nat.one_lt_two
    · exact .inr ⟨t, mem_cons_of_mem _ ht, hname⟩
  · rcases lexFrom_unnamed hb (hrest (subset_cons_self b r)) h with rfl | h
    · exact .inl Nat.two_pos
    · exact .inr h

private theorem lex_of_plain {st : Statement} (h : st.Checked T) (hp : st.Plain) :
    lex st.render = some st.tokens := by
  have halter : Transduces step .start (lit "ALTER USER ") .start (keywords "ALTER USER") := by
    decide
  have hgrant : Transduces step .start (lit "GRANT ") .start (keywords "GRANT") := by decide
  have hto : Transduces step .start (lit " TO ") .start (keywords "TO") := by decide
  apply Lexes.lex_eq
  cases st with
  | login exist name =>
    refine (lexes_named h ?_ (by rfl)).append (by decide)
    split <;> decide
  | password name pw =>
    have hwith : Transduces step .start (lit " WITH PASSWORD ") .start
        (keywords "WITH PASSWORD") := by decide
    exact ((lexes_named h.1 halter (by rfl)).append (lexes_of_transduces hwith)).append
      (lexes_stringLiteral (assertSafePassword_iff.1 h.2) (by rfl) (by rfl))
  | superuser name su =>
    cases su <;> exact (lexes_named h halter (by rfl)).append (by decide)
  | connectionLimit name limit =>
    exact ((lexes_named h halter (by rfl)).append
      (lexes_of_transduces transduces_connectionLimit)).append (lexes_decimal limit (by rfl))
  | grantRole role name =>
    exact ((lexes_named h.1 hgrant (by rfl)).append (lexes_of_transduces hto)).append
      (lexes_identifier h.2 (by rfl))
  | grantOnDatabase g database name =>
    have hon : Transduces step .start (lit " ON DATABASE ") .start (keywords "ON DATABASE") := by
      decide
    exact (((((lexes_of_transduces hgrant).append (lexes_privilege h.1 hp (by rfl))).append
      (lexes_of_transduces hon)).append (lexes_identifier h.2.1 (by rfl))).append
      (lexes_of_transduces hto)).append (lexes_identifier h.2.2 (by rfl))

/-- A statement whose privilege is not plain is a grant cut short, or one with a token that is no
name. -/
theorem lex_of_not_plain {st : Statement} (h : st.Checked T) (hp : ¬ st.Plain)
    (hlex : lex st.render = some ts) :
    ∃ us, ts = .word (lit "GRANT") :: us ∧ .symbol 0x3B ∉ us ∧
      (us.length < 2 ∨ ∃ t ∈ us, t.isName = false) := by
  cases st with
  | login | password | superuser | connectionLimit | grantRole => exact absurd trivial hp
  | grantOnDatabase g database name =>
    have hgrant : Transduces step .start (lit "GRANT ") .start (keywords "GRANT") := by decide
    have hline : ∀ b ∈ lit " ON DATABASE " ++ (identifier database ++ (lit " TO " ++
        identifier name)), isNewline b = false := by
      simp only [forall_mem_append]
      exact ⟨forall_mem_of_all (by decide), not_isNewline_identifier h.2.1,
        forall_mem_of_all (by decide), not_isNewline_identifier h.2.2⟩
    have hsemi : ∀ {v : GoString}, isValidIdentifier T v = true → 0x3B ∉ v := by
      intro v hv hmem
      have hbytes := identBytes_of_valid hv hmem
      revert hbytes
      decide
    simp only [Statement.render, append_assoc] at hlex
    rw [lex, lexFrom_append hgrant] at hlex
    obtain ⟨us, hus, rfl⟩ := map_eq_some_iff.1 hlex
    refine ⟨us, rfl, fun hmem => ?_, lexFrom_of_not_plain h.1 hp hline hus⟩
    have hident : ∀ {v : GoString}, isValidIdentifier T v = true → 0x3B ∉ identifier v := by
      intro v hv
      rw [identifier_eq hv, mem_quoted]
      simp [hsemi hv]
    have hb := mem_of_symbol_mem hus hmem
    simp only [mem_append, hsemi h.1, hident h.2.1, hident h.2.2] at hb
    revert hb
    decide

/-- A statement of checked names lexes to its tokens exactly if its privilege is plain. -/
theorem lex_render_iff {st : Statement} (h : st.Checked T) :
    lex st.render = some st.tokens ↔ st.Plain := by
  constructor
  · intro hlex
    by_contra hp
    obtain ⟨us, hus, -, hshort⟩ := lex_of_not_plain h hp hlex
    cases st with
    | login | password | superuser | connectionLimit | grantRole => exact absurd trivial hp
    | grantOnDatabase g database name =>
      obtain rfl := (List.cons.inj hus).2
      rcases hshort with hshort | ⟨t, ht, hname⟩
      · simp only [append_eq, length_append, length_singleton] at hshort
        omega
      · have hnames : ∀ t ∈ (Statement.grantOnDatabase g database name).tokens,
            t.isName = true := by
          simp [Statement.tokens, keywords, wordTokens, Token.isName, or_imp, forall_and]
        rw [hnames t (mem_cons_of_mem _ ht)] at hname
        cases hname
  · exact lex_of_plain h

variable {S : SliceSort} {keys : List GoString} {u : User} {exist : Bool}

/-- The statements of a valid user are checked. -/
theorem checked_of_mem (hvalid : u.Valid T) (hkeys : Ranges u.grantsByDatabase keys)
    {st : Statement} (hst : st ∈ planStatements S keys u exist) : st.Checked T := by
  rcases (mem_planStatements hkeys).1 hst with hst | ⟨role, hrole, rfl⟩ | ⟨db, hdb, g, hg, rfl⟩
  · rcases mem_attributes hst with rfl | rfl | rfl | rfl
    · exact hvalid.name
    · exact ⟨hvalid.name, hvalid.password⟩
    · exact hvalid.name
    · exact hvalid.name
  · exact ⟨hvalid.roles role hrole, hvalid.name⟩
  · exact ⟨hvalid.privileges db hdb g hg, hvalid.databases db hdb, hvalid.name⟩

/-- The statements of a plan are plain if its privileges are. -/
theorem forall_plain_iff (S : SliceSort) (exist : Bool)
    (hkeys : Ranges u.grantsByDatabase keys) :
    (∀ st ∈ planStatements S keys u exist, st.Plain) ↔
      ∀ db ∈ u.grantsByDatabase, ∀ g ∈ u.grants db, PlainPrivilege g := by
  constructor
  · intro h db hdb g hg
    exact h (.grantOnDatabase g db u.name)
      ((mem_planStatements hkeys).2 (.inr (.inr ⟨db, hdb, g, hg, rfl⟩)))
  · intro h st hst
    rcases (mem_planStatements hkeys).1 hst with hst | ⟨role, -, rfl⟩ | ⟨db, hdb, g, hg, rfl⟩
    · rcases mem_attributes hst with rfl | rfl | rfl | rfl <;> trivial
    · trivial
    · exact h db hdb g hg

end

/-- When a plan cannot be broken out of. The statements of a plan that is not refused lex to
exactly their intended tokens, every name and the password as one quoted token and every
privilege as one word, if and only if no privilege contains a dash or a dot or starts with a
digit or a dollar sign. -/
theorem plan_lexes_iff (T : RuneTables) (S : SliceSort) (keys : List GoString) (u : User)
    (exist : Bool) (hkeys : Ranges u.grantsByDatabase keys) (out : List GoString)
    (h : plan T S keys u exist = .ok out) :
    out.map lex = (planStatements S keys u exist).map (fun st => some st.tokens) ↔
      ∀ db ∈ u.grantsByDatabase, ∀ g ∈ u.grants db, PlainPrivilege g := by
  obtain ⟨hvalid, rfl⟩ := (plan_eq_ok_iff hkeys).1 h
  rw [← forall_plain_iff S exist hkeys, List.map_map, map_inj_left]
  exact forall₂_congr fun st hst => lex_render_iff (checked_of_mem hvalid hkeys hst)

/-- The privileges of the sample user are words. -/
theorem plan_sampleUser_lexes :
    ∃ out, plan .basic .insertion [lit "app", lit "logs"] (sampleUser [lit "a"] [lit "TEMP"])
        true = .ok out ∧
      out.map lex = (planStatements .insertion [lit "app", lit "logs"]
        (sampleUser [lit "a"] [lit "TEMP"]) true).map fun st => some st.tokens := by
  have hkeys : Ranges (sampleUser [lit "a"] [lit "TEMP"]).grantsByDatabase
      [lit "app", lit "logs"] := by decide +kernel
  obtain ⟨out, hout⟩ : ∃ out, plan .basic .insertion [lit "app", lit "logs"]
      (sampleUser [lit "a"] [lit "TEMP"]) true = .ok out := ⟨_, rfl⟩
  refine ⟨out, hout, (plan_lexes_iff _ _ _ _ _ hkeys out hout).2 fun db hdb => ?_⟩
  have hmem := hkeys.mem_iff.2 hdb
  simp only [mem_cons, not_mem_nil, or_false] at hmem
  rcases hmem with rfl | rfl <;> decide +kernel

/-- A privilege that comments out the rest of its statement. -/
theorem plan_sampleUser_commented :
    ∃ out, plan .basic .insertion [lit "app", lit "logs"] (sampleUser [] [lit "ALL--x"]) true =
        .ok out ∧
      lit "GRANT ALL--x ON DATABASE \"app\" TO \"alice\"" ∈ out ∧
      lex (lit "GRANT ALL--x ON DATABASE \"app\" TO \"alice\"") =
        some [.word (lit "GRANT"), .word (lit "ALL")] ∧
      out.map lex ≠ (planStatements .insertion [lit "app", lit "logs"]
        (sampleUser [] [lit "ALL--x"]) true).map fun st => some st.tokens := by
  refine ⟨_, rfl, ?_, ?_, ?_⟩ <;> decide +kernel

end Athos.Userstate
