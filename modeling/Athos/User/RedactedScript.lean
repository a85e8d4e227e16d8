import Athos.User.Redaction
import Athos.User.Script

/-!
# What the redaction leaves of a user script

A user script has its password in two literals. If the password has no quote, both are redacted;
otherwise the first match ends at its first quote, and what follows is left in the text.
-/

namespace Athos.User

open Base Kube List

section Clauses

variable {T : RuneTables} {user : PostgresUser} {password : GoString}

private def limitText (user : PostgresUser) : GoString :=
  lit " CONNECTION LIMIT " ++ decimal (roleOptions user []).connectionLimit ++ lit " "

private def testText : GoString :=
  lit "DO $$" ++ lit " BEGIN IF NOT EXISTS (SELECT FROM pg_roles WHERE rolname = "

-- From the literal of the existence test to the first password clause.
private def createText (user : PostgresUser) : GoString :=
  lit ") THEN CREATE ROLE " ++ identifier user.metadata.name ++ lit " WITH LOGIN" ++
    (if user.spec.superuser then lit " SUPERUSER" else []) ++ limitText user

-- Between the password clauses.
private def betweenClauses (user : PostgresUser) : GoString :=
  lit "; END IF; END " ++ lit "$$;\n" ++ lit "ALTER ROLE " ++ identifier user.metadata.name ++
    (if user.spec.superuser then lit " SUPERUSER" else lit " NOSUPERUSER") ++ limitText user

-- After the password clauses.
private def afterClauses (T : RuneTables) (user : PostgresUser) : GoString :=
  lit ";\n" ++ renderAll (grantStatements T user)

private theorem buildUserSQL_clauses (h : buildUserSQL T user password ≠ [])
    (hne : password ≠ []) :
    buildUserSQL T user password =
      testText ++ 0x27 :: (user.metadata.name ++ 0x27 :: (createText user ++ (lit "PASSWORD " ++
        (stringLiteral password ++ (betweenClauses user ++ (lit "PASSWORD " ++
          (stringLiteral password ++ afterClauses T user))))))) := by
  obtain ⟨hn, hp⟩ := buildUserSQL_ne_nil_iff.1 h
  have hpw : lit " PASSWORD " = lit " " ++ lit "PASSWORD " := by decide
  have hname : stringLiteral user.metadata.name = 0x27 :: (user.metadata.name ++ [0x27]) := by
    rw [stringLiteral, replaceByte_of_not_mem (not_mem_of_isValidIdentifier hn).2.2,
      append_assoc, singleton_append]
  have hpwne : (roleOptions user password).password ≠ [] := hne
  rw [buildUserSQL_eq hn hp, userStatements, renderAll, flatMap_cons, flatMap_cons,
    Statement.render, Statement.render, guardedCreate, createHead, RoleOptions.render, if_pos hpwne,
    hpw, hname, testText, createText, betweenClauses, afterClauses, limitText, renderAll]
  simp only [append_assoc, cons_append, nil_append]
  rfl

private theorem quote_not_mem_identifier {name : GoString}
    (hn : isValidIdentifier T name = true) : 0x27 ∉ identifier name := by
  have h := not_mem_of_isValidIdentifier hn
  rw [identifier_eq hn, Sql.quoted, replaceByte_of_not_mem h.2.1]
  simp only [mem_cons, mem_append, not_mem_nil, or_false, not_or]
  exact ⟨by decide, h.2.2, by decide⟩

private theorem quote_not_mem_limitText : 0x27 ∉ limitText user := by
  simp only [limitText, mem_append, not_or]
  exact ⟨⟨by decide, not_mem_decimal (by decide) (by decide) _⟩, by decide⟩

private theorem quote_not_mem_createText (hn : isValidIdentifier T user.metadata.name = true) :
    0x27 ∉ createText user := by
  simp only [createText, mem_append, not_or]
  exact ⟨⟨⟨⟨by decide, quote_not_mem_identifier hn⟩, by decide⟩, by split <;> decide⟩,
    quote_not_mem_limitText⟩

private theorem quote_not_mem_betweenClauses (hn : isValidIdentifier T user.metadata.name = true) :
    0x27 ∉ betweenClauses user := by
  simp only [betweenClauses, mem_append, not_or]
  exact ⟨⟨⟨⟨⟨by decide, by decide⟩, by decide⟩, quote_not_mem_identifier hn⟩,
    by split <;> decide⟩, quote_not_mem_limitText⟩

private theorem quote_not_mem_grant {st : Statement} (hv : st.Valid T)
    (hst : st ∈ grantStatements T user) : 0x27 ∉ st.render := by
  have hprivilege : ∀ p, isValidPrivilege T p = true → 0x27 ∉ p :=
    fun p hp hm => absurd (privilege_bytes hp hm) (by decide)
  have hname : ∀ n, isValidIdentifier T n = true → 0x27 ∉ identifier n :=
    fun n hn => quote_not_mem_identifier hn
  cases st with
  | ensureRole name o => exact absurd hst (role_not_mem_grantStatements name o).1
  | alterRole name o => exact absurd hst (role_not_mem_grantStatements name o).2
  | grantRole | grantConnect | grantOnTables =>
    simp only [Statement.render, mem_append, not_or]
    refine ⟨⟨⟨⟨by decide, ?_⟩, by decide⟩, hname _ hv.2⟩, by decide⟩
    first | exact hname _ hv.1 | exact hprivilege _ hv.1

private theorem quote_not_mem_afterClauses (hn : isValidIdentifier T user.metadata.name = true) :
    0x27 ∉ afterClauses T user := by
  rw [afterClauses, mem_append, renderAll, mem_flatMap]
  rintro (h | ⟨st, hst, hm⟩)
  · exact absurd h (by decide)
  · have hmem : st ∈ userStatements T user [] :=
      mem_cons_of_mem _ (mem_cons_of_mem _ hst)
    exact quote_not_mem_grant (valid_of_mem_userStatements hn rfl hmem) hst hm

-- The part of a redacted script that does not depend on the password.
private def redactedHead (user : PostgresUser) : GoString :=
  testText ++ 0x27 :: (user.metadata.name ++ 0x27 ::
    (createText user ++ lit "PASSWORD '[REDACTED]'"))

private theorem no_space_of_isValidIdentifier {name : GoString}
    (hn : isValidIdentifier T name = true) {b : UInt8} (hb : b ∈ name) :
    isRegexSpace b = false := by
  by_contra h
  simp only [Bool.not_eq_false, isRegexSpace, Bool.or_eq_true, beq_iff_eq] at h
  rcases h with (((rfl | rfl) | rfl) | rfl) | rfl <;>
    exact absurd (mem_of_isValidIdentifier hn hb (by decide)) (by decide)

private theorem redactPassword_head (hn : isValidIdentifier T user.metadata.name = true)
    {body : GoString} (hb : 0x27 ∉ body) (rest : GoString) :
    redactPassword (testText ++ 0x27 :: (user.metadata.name ++ 0x27 :: (createText user ++
      (lit "PASSWORD " ++ 0x27 :: (body ++ 0x27 :: rest))))) =
      redactedHead user ++ redactPassword rest := by
  rw [redactPassword_keep _ (by decide) (by decide),
    redactPassword_keep _ (not_mem_of_isValidIdentifier hn).2.2
      (not_endsOpen_of_no_space fun b hm => no_space_of_isValidIdentifier hn hm),
    redactPassword_hit _ (quote_not_mem_createText hn) isOpening_password hb, redactedHead]
  simp only [append_assoc, cons_append]

-- Without a quote in the password both clauses are redacted.
private theorem redactPassword_of_no_quote (h : buildUserSQL T user password ≠ [])
    (hne : password ≠ []) (hq : 0x27 ∉ password) :
    redactPassword (buildUserSQL T user password) =
      redactedHead user ++ (betweenClauses user ++
        (lit "PASSWORD '[REDACTED]'" ++ afterClauses T user)) := by
  have hn := (buildUserSQL_ne_nil_iff.1 h).1
  have hlit : ∀ t, stringLiteral password ++ t = 0x27 :: (password ++ 0x27 :: t) := by
    intro t
    rw [stringLiteral, replaceByte_of_not_mem hq]
    simp only [append_assoc, cons_append, nil_append]
  have hafter : (afterClauses T user).count 0x27 ≤ 1 := by
    rw [count_eq_zero.2 (quote_not_mem_afterClauses hn)]
    exact Nat.zero_le 1
  rw [buildUserSQL_clauses h hne, hlit, hlit, redactPassword_head hn hq,
    redactPassword_hit _ (quote_not_mem_betweenClauses hn) isOpening_password hq,
    redactPassword_of_count_le hafter]

private theorem exists_joined_cons (hq : 0x27 ∈ password) :
    ∃ a ss l, password = joined (a :: ss) l ∧ QuoteFree (a :: ss) ∧ 0x27 ∉ l := by
  obtain ⟨ss, l, rfl, hss, hl⟩ := exists_joined password
  cases ss with
  | nil => exact absurd hq (by rwa [joined_nil])
  | cons a ss => exact ⟨a, ss, l, rfl, hss, hl⟩

-- The part that depends on the tidy pieces of a password with quotes. If the password ends in an
-- opening, the second match begins there and ends before the second literal.
private def redactedTail (T : RuneTables) (user : PostgresUser) (k : GoString)
    (ks : List GoString) (l : GoString) : GoString :=
  if EndsOpen l then (ks ++ tidy l :: k :: ks).flatMap marked ++ (l ++ 0x27 :: afterClauses T user)
  else
    ks.flatMap marked ++ (l ++ 0x27 :: (betweenClauses user ++ (lit "PASSWORD '[REDACTED]'" ++
      0x27 :: (ks.flatMap marked ++ (l ++ 0x27 :: afterClauses T user)))))

-- With a quote the first match ends at it and the rest of the password stays in the text.
private theorem redactPassword_of_quote {a l : GoString} {ss : List GoString}
    (h : buildUserSQL T user (joined (a :: ss) l) ≠ []) (hss : QuoteFree (a :: ss))
    (hl : 0x27 ∉ l) :
    redactPassword (buildUserSQL T user (joined (a :: ss) l)) =
      redactedHead user ++ 0x27 :: redactedTail T user (tidy a) (ss.map tidy) l := by
  have hn := (buildUserSQL_ne_nil_iff.1 h).1
  have hne : joined (a :: ss) l ≠ [] := by simp [joined_cons]
  obtain ⟨ha, hss'⟩ := forall_mem_cons.1 hss
  have hlit : ∀ t, stringLiteral (joined (a :: ss) l) ++ t =
      0x27 :: (a ++ 0x27 :: 0x27 :: doubled ss (l ++ 0x27 :: t)) := by
    intro t
    rw [stringLiteral, replaceByte_joined hss hl, doubled_cons]
    simp only [doubled, append_assoc, cons_append, nil_append]
  have hlast : redactPassword (l ++ 0x27 :: afterClauses T user) =
      l ++ 0x27 :: afterClauses T user := by
    apply redactPassword_of_count_le
    rw [count_append, count_cons_self, count_eq_zero.2 hl,
      count_eq_zero.2 (quote_not_mem_afterClauses hn)]
  rw [buildUserSQL_clauses h hne, hlit, redactPassword_head hn ha, redactPassword_quote,
    redactPassword_doubled hss', hlit, redactedTail]
  split
  next ho =>
    obtain ⟨u, o, rfl, ho⟩ := ho
    have hu : 0x27 ∉ u := fun hm => hl (mem_append_left o hm)
    have hbody : 0x27 ∉ betweenClauses user ++ lit "PASSWORD " := by
      rw [mem_append, not_or]
      exact ⟨quote_not_mem_betweenClauses hn, by decide⟩
    have hsecond := redactPassword_doubled hss (u ++ o ++ 0x27 :: afterClauses T user)
    rw [hlast, doubled_cons] at hsecond
    have hhit := redactPassword_hit
      (a ++ 0x27 :: 0x27 :: doubled ss (u ++ o ++ 0x27 :: afterClauses T user)) hu ho hbody
    rw [hsecond, ← append_assoc, append_assoc (betweenClauses user)] at hhit
    rw [hhit]
    simp only [flatMap_append, flatMap_cons, map_cons, tidy_append_opening u ho,
      marked_append_password, append_assoc]
  next ho =>
    rw [redactPassword_keep _ hl ho,
      redactPassword_hit _ (quote_not_mem_betweenClauses hn) isOpening_password ha,
      redactPassword_quote, redactPassword_doubled hss', hlast]

private theorem redactPassword_ne {p₁ p₂ : GoString} (h₁ : buildUserSQL T user p₁ ≠ [])
    (h₂ : buildUserSQL T user p₂ ≠ []) (hne₂ : p₂ ≠ []) (hq₁ : 0x27 ∈ p₁) (hq₂ : 0x27 ∉ p₂) :
    redactPassword (buildUserSQL T user p₁) ≠ redactPassword (buildUserSQL T user p₂) := by
  obtain ⟨a, ss, l, rfl, hss, hl⟩ := exists_joined_cons hq₁
  rw [redactPassword_of_no_quote h₂ hne₂ hq₂, redactPassword_of_quote h₁ hss hl, ne_eq,
    append_cancel_left_eq]
  exact fun h => by cases h

private theorem redactedTail_eq_iff (hn : isValidIdentifier T user.metadata.name = true)
    {k₁ k₂ l₁ l₂ : GoString} {ks₁ ks₂ : List GoString} (hks₁ : QuoteFree (k₁ :: ks₁))
    (hks₂ : QuoteFree (k₂ :: ks₂)) (hl₁ : 0x27 ∉ l₁) (hl₂ : 0x27 ∉ l₂) :
    redactedTail T user k₁ ks₁ l₁ = redactedTail T user k₂ ks₂ l₂ ↔
      (¬ EndsOpen l₁ ∧ ¬ EndsOpen l₂ ∧ ks₁ = ks₂ ∧ l₁ = l₂) ∨
        (EndsOpen l₁ ∧ EndsOpen l₂ ∧ k₁ :: ks₁ = k₂ :: ks₂ ∧ l₁ = l₂) := by
  have htail₁ := (forall_mem_cons.1 hks₁).2
  have htail₂ := (forall_mem_cons.1 hks₂).2
  have hall : ∀ {k l : GoString} {ks : List GoString}, QuoteFree (k :: ks) → 0x27 ∉ l →
      QuoteFree (ks ++ tidy l :: k :: ks) := fun hks hl =>
    forall_mem_append.2 ⟨(forall_mem_cons.1 hks).2,
      forall_mem_cons.2 ⟨quote_not_mem_tidy hl, hks⟩⟩
  -- The text between the clauses is followed by a quote, that behind them is not.
  have hbehind : ∀ t, betweenClauses user ++ (lit "PASSWORD '[REDACTED]'" ++ t) ≠
      afterClauses T user := by
    intro t h
    refine quote_not_mem_afterClauses hn (h ▸ ?_)
    exact mem_append_right _ (mem_append_left _ (by decide))
  by_cases ho₁ : EndsOpen l₁ <;> by_cases ho₂ : EndsOpen l₂ <;>
    simp only [redactedTail, ho₁, ho₂, ↓reduceIte, not_true_eq_false, not_false_eq_true, true_and,
      false_and, and_false, or_false, false_or, iff_false]
  · constructor
    · intro h
      obtain ⟨hmap, rfl, -⟩ := marked_inj (hall hks₁ hl₁) (hall hks₂ hl₂) hl₁ hl₂ rfl rfl h
      have hlength := congrArg List.length hmap
      simp only [length_append, length_cons] at hlength
      exact ⟨(List.cons.inj (append_inj_right hmap (by omega))).2, rfl⟩
    · rintro ⟨hks, rfl⟩
      obtain ⟨rfl, rfl⟩ := List.cons.inj hks
      rfl
  · intro h
    exact hbehind _ (marked_inj (hall hks₁ hl₁) htail₂ hl₁ hl₂ rfl rfl h).2.2.symm
  · intro h
    exact hbehind _ (marked_inj htail₁ (hall hks₂ hl₂) hl₁ hl₂ rfl rfl h).2.2
  · constructor
    · intro h
      obtain ⟨hks, hl, -⟩ := marked_inj htail₁ htail₂ hl₁ hl₂ rfl rfl h
      exact ⟨hks, hl⟩
    · rintro ⟨rfl, rfl⟩
      rfl

end Clauses

/-- When redaction hides the password. Two passwords are redacted to the same text if and only if
neither contains a quote; or both do, neither ends in `PASSWORD` and white space, and their pieces
after the first quotes are equal; or both do, both end in that, and all their pieces are equal. -/
theorem redactPassword_buildUserSQL_iff (T : RuneTables) (user : PostgresUser)
    (p₁ p₂ : GoString) (hne₁ : p₁ ≠ []) (hne₂ : p₂ ≠ [])
    (h₁ : buildUserSQL T user p₁ ≠ []) (h₂ : buildUserSQL T user p₂ ≠ []) :
    redactPassword (buildUserSQL T user p₁) = redactPassword (buildUserSQL T user p₂) ↔
      (0x27 ∉ p₁ ∧ 0x27 ∉ p₂) ∨
      (0x27 ∈ p₁ ∧ 0x27 ∈ p₂ ∧
        ((¬ EndsOpen p₁ ∧ ¬ EndsOpen p₂ ∧ (pieces p₁).tail = (pieces p₂).tail) ∨
          (EndsOpen p₁ ∧ EndsOpen p₂ ∧ pieces p₁ = pieces p₂))) := by
  have hn := (buildUserSQL_ne_nil_iff.1 h₁).1
  by_cases hq₁ : 0x27 ∈ p₁ <;> by_cases hq₂ : 0x27 ∈ p₂
  · obtain ⟨a₁, ss₁, l₁, rfl, hss₁, hl₁⟩ := exists_joined_cons hq₁
    obtain ⟨a₂, ss₂, l₂, rfl, hss₂, hl₂⟩ := exists_joined_cons hq₂
    rw [redactPassword_of_quote h₁ hss₁ hl₁, redactPassword_of_quote h₂ hss₂ hl₂,
      append_cancel_left_eq, List.cons.injEq, endsOpen_joined, endsOpen_joined,
      pieces_joined hss₁ hl₁, pieces_joined hss₂ hl₂,
      redactedTail_eq_iff hn (quoteFree_map_tidy hss₁) (quoteFree_map_tidy hss₂) hl₁ hl₂]
    simp only [hq₁, hq₂, not_true_eq_false, and_self, false_or, true_and, map_cons, cons_append,
      tail_cons, append_singleton_inj, List.cons.injEq, and_assoc]
  · simp [redactPassword_ne h₁ h₂ hne₂ hq₁ hq₂, hq₁, hq₂]
  · simp [(redactPassword_ne h₂ h₁ hne₁ hq₂ hq₁).symm, hq₁, hq₂]
  · rw [redactPassword_of_no_quote h₁ hne₁ hq₁, redactPassword_of_no_quote h₂ hne₂ hq₂]
    simp only [hq₁, hq₂, not_false_eq_true, and_self, true_or]

/-- Passwords without a quote, and two that differ before their first quote only. -/
theorem redactPassword_sample :
    redactPassword (buildUserSQL .basic sampleUser (lit "hunter2")) =
        redactPassword (buildUserSQL .basic sampleUser (lit "correct horse")) ∧
      redactPassword (buildUserSQL .basic sampleUser (lit "it's me")) =
        redactPassword (buildUserSQL .basic sampleUser (lit "that's me")) := by
  have hscript : ∀ password, assertSafePassword password = true →
      buildUserSQL .basic sampleUser password ≠ [] :=
    fun _ h => buildUserSQL_ne_nil_iff.2 ⟨by decide, h⟩
  constructor
  · exact (redactPassword_buildUserSQL_iff .basic sampleUser _ _ (by decide) (by decide)
      (hscript _ (by decide)) (hscript _ (by decide))).2 (.inl ⟨by decide, by decide⟩)
  · exact (redactPassword_buildUserSQL_iff .basic sampleUser _ _ (by decide) (by decide)
      (hscript _ (by decide)) (hscript _ (by decide))).2
        (.inr ⟨by decide, by decide, .inl ⟨by decide, by decide, by decide⟩⟩)

/-- Two passwords with a quote that leave different texts. -/
theorem redactPassword_sample_leak :
    buildUserSQL .basic sampleUser (lit "it's me") ≠ [] ∧
      buildUserSQL .basic sampleUser (lit "it's you") ≠ [] ∧
      redactPassword (buildUserSQL .basic sampleUser (lit "it's me")) ≠
        redactPassword (buildUserSQL .basic sampleUser (lit "it's you")) := by
  decide +kernel

end Athos.User
