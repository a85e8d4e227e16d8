import Athos.User.Escape

/-!
# Quoted names and literals read back

What `src/internal/sqlescape/sqlescape.go` quotes is read back by PostgreSQL as the same values,
before any text that does not continue the quotation; so two values are never quoted alike. An empty
name has no quoted form, as PostgreSQL has no identifier of length zero, and a name of 64 bytes is
cut where it is read.
-/

namespace Athos.User

open Base Sql

/-- `QualifiedIdentifier`; `sqlescape.go:53-62`. -/
def qualifiedIdentifier (parts : List GoString) : GoString :=
  if parts = [] then [] else List.intercalate (lit ".") (parts.map identifier)

/-- The tokens of a qualified name. -/
def qualifiedTokens (parts : List GoString) : List Token :=
  (parts.map Token.ident).intersperse (.symbol 0x2E)

section

variable {p : GoString} {ps : List GoString}

private theorem qualifiedIdentifier_singleton (p : GoString) :
    qualifiedIdentifier [p] = identifier p := by simp [qualifiedIdentifier]

private theorem qualifiedIdentifier_cons (p : GoString) (hps : ps ≠ []) :
    qualifiedIdentifier (p :: ps) = identifier p ++ 0x2E :: qualifiedIdentifier ps := by
  cases ps with
  | nil => exact absurd rfl hps
  | cons q ps =>
    simp only [qualifiedIdentifier, List.map_cons, List.intercalate_cons_cons, reduceCtorEq,
      ↓reduceIte, List.append_assoc]
    rfl

private theorem lexes_qualifiedIdentifier (hps : ps ≠ [])
    (h : ∀ p ∈ ps, p ≠ [] ∧ p.length < 64 ∧ 0 ∉ p) {text : GoString}
    (htext : text.head? ≠ some 0x22) :
    Lexes (qualifiedIdentifier ps) (qualifiedTokens ps) text := by
  induction ps with
  | nil => exact absurd rfl hps
  | cons p ps ih =>
    obtain ⟨hne, hlength, h0⟩ := h p List.mem_cons_self
    have hpart : ∀ {rest : GoString}, rest.head? ≠ some 0x22 →
        Lexes (identifier p) [.ident p] rest := by
      intro rest hrest
      have hread := lexes_ident hne h0 hrest
      rwa [truncateIdentifier_of_length_lt hlength, ← identifier_of_not_mem h0] at hread
    by_cases hnil : ps = []
    · subst hnil
      rw [qualifiedIdentifier_singleton]
      exact hpart htext
    · have hdot : Transduces step .start [0x2E] .start [.symbol 0x2E] := by decide
      have htokens : qualifiedTokens (p :: ps) = [.ident p] ++ ([.symbol 0x2E] ++
          qualifiedTokens ps) := by
        obtain ⟨q, qs, rfl⟩ := List.exists_cons_of_ne_nil hnil
        rfl
      rw [qualifiedIdentifier_cons p hnil, ← List.singleton_append, htokens]
      exact (hpart (by simp)).append ((lexes_of_transduces hdot).append
        (ih hnil fun q hq => h q (List.mem_cons_of_mem p hq)))

-- The text of each part ends before the dot or the end.
private theorem qualifiedIdentifier_split (hps : ps ≠ []) (h : ∀ p ∈ ps, 0 ∉ p) :
    ∃ p qs t, ps = p :: qs ∧ qualifiedIdentifier ps = quoted 0x22 p ++ t ∧
      t = if qs = [] then [] else 0x2E :: qualifiedIdentifier qs := by
  obtain ⟨p, qs, rfl⟩ := List.exists_cons_of_ne_nil hps
  refine ⟨p, qs, _, rfl, ?_, rfl⟩
  rw [← identifier_of_not_mem (h p List.mem_cons_self)]
  split
  · next hq => rw [hq, qualifiedIdentifier_singleton, List.append_nil]
  · next hq => exact qualifiedIdentifier_cons p hq

private theorem qualifiedIdentifier_injective {qs : List GoString} (hp : ∀ p ∈ ps, 0 ∉ p)
    (hq : ∀ q ∈ qs, 0 ∉ q) (h : qualifiedIdentifier ps = qualifiedIdentifier qs) : ps = qs := by
  have hnil : ∀ {rs : List GoString}, (∀ r ∈ rs, 0 ∉ r) → qualifiedIdentifier rs = [] →
      rs = [] := by
    intro rs hr he
    by_contra hrs
    obtain ⟨r, rs', t, rfl, heq, -⟩ := qualifiedIdentifier_split hrs hr
    rw [heq] at he
    exact absurd he (by simp [quoted])
  induction ps generalizing qs with
  | nil => exact (hnil hq h.symm).symm
  | cons p ps ih =>
    have hqs : qs ≠ [] := by
      rintro rfl
      exact absurd (hnil hp h) (List.cons_ne_nil p ps)
    obtain ⟨_, _, t, hcons, htext, ht⟩ := qualifiedIdentifier_split (List.cons_ne_nil p ps) hp
    obtain ⟨rfl, rfl⟩ := List.cons.inj hcons
    obtain ⟨q, qs, u, rfl, hutext, hu⟩ := qualifiedIdentifier_split hqs hq
    have hhead : ∀ rs : List GoString,
        (if rs = [] then [] else 0x2E :: qualifiedIdentifier rs).head? ≠ some 0x22 := by
      intro rs
      split <;> simp
    obtain ⟨rfl, htu⟩ := quoted_append_inj (ht ▸ hhead ps) (hu ▸ hhead qs)
      (htext.symm.trans (h.trans hutext))
    have hp' := fun r hr => hp r (List.mem_cons_of_mem p hr)
    have hq' := fun r hr => hq r (List.mem_cons_of_mem p hr)
    rw [ht, hu] at htu
    split_ifs at htu with h₁ h₂
    · rw [h₁, h₂]
    · rw [ih hp' hq' (List.cons.inj htu).2]

end

/-- Quoting is undone by reading. A qualified name of nonempty parts without NUL and of at most 63
bytes each is read as its parts with dots between them, before any text that does not begin with
a double quote; a literal without NUL as its value, before any text that neither begins with a
single quote nor goes on with one after a newline. Both are injective, and a valid identifier has
no NUL and at most 63 bytes and is quoted without doubling. -/
theorem quoting_round_trip (T : RuneTables) :
    (∀ (parts : List GoString) (text : GoString), parts ≠ [] →
      (∀ p ∈ parts, p ≠ [] ∧ p.length < 64 ∧ 0 ∉ p) → text.head? ≠ some 0x22 →
      lex (qualifiedIdentifier parts ++ text) = (lex text).map (qualifiedTokens parts ++ ·)) ∧
    (∀ s text : GoString, 0 ∉ s → text.head? ≠ some 0x27 → resumes (.blank false) text = false →
      lex (stringLiteral s ++ text) = (lex text).map (.literal s :: ·)) ∧
    (∀ ps qs, (∀ p ∈ ps, 0 ∉ p) → (∀ q ∈ qs, 0 ∉ q) →
      qualifiedIdentifier ps = qualifiedIdentifier qs → ps = qs) ∧
    (∀ s t, stringLiteral s = stringLiteral t → s = t) ∧
    ∀ name, isValidIdentifier T name = true →
      0 ∉ name ∧ name.length ≤ 63 ∧ identifier name = 0x22 :: (name ++ [0x22]) := by
  refine ⟨fun parts text hne hparts htext => lexes_qualifiedIdentifier hne hparts htext,
    fun s text hs htext hr => ?_, fun ps qs hp hq h => qualifiedIdentifier_injective hp hq h,
    fun s t h => ?_, fun name hname => ?_⟩
  · rw [stringLiteral_eq]
    exact lexes_literal hs htext hr
  · rw [stringLiteral_eq, stringLiteral_eq] at h
    exact (quoted_append_inj (s := []) (t := []) (by simp) (by simp) (by simpa using h)).1
  · obtain ⟨h0, hquote, -⟩ := not_mem_of_isValidIdentifier hname
    refine ⟨h0, Nat.le_of_lt_succ (length_of_isValidIdentifier hname), ?_⟩
    rw [identifier_of_not_mem h0, quoted, replaceByte_of_not_mem hquote]

/-- A name with a quote in it, before a table alias. -/
theorem quoting_round_trip_sample :
    lex (qualifiedIdentifier [lit "app", lit "a\"b"] ++ lit " t") =
        some [.ident (lit "app"), .symbol 0x2E, .ident (lit "a\"b"), .word (lit "T")] ∧
      lex (stringLiteral (lit "it's") ++ lit ";") =
        some [.literal (lit "it's"), .symbol 0x3B] := by
  have h := quoting_round_trip .basic
  have hname := h.1 [lit "app", lit "a\"b"] (lit " t") (by decide) (by decide) (by decide)
  have hliteral := h.2.1 (lit "it's") (lit ";") (by decide) (by decide) (by decide)
  rw [hname, hliteral]
  exact ⟨by decide, by decide⟩

/-- There is no empty name and none of 64 bytes, and a literal can go on after a newline. -/
theorem quoting_not_read_back :
    lex (qualifiedIdentifier [[]] ++ lit ";") = none ∧
      lex (qualifiedIdentifier [List.replicate 64 0x61] ++ lit ";") =
        some [.ident (List.replicate 63 0x61), .symbol 0x3B] ∧
      lex (stringLiteral (lit "a") ++ lit "\n'b';") = some [.literal (lit "ab"), .symbol 0x3B] ∧
      lex (lit "\n'b';") = some [.literal (lit "b"), .symbol 0x3B] := by
  decide +kernel

end Athos.User
