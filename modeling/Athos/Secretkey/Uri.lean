import Athos.Libpq.Uri

/-!
# Connection URIs without escapes

`LibpqURI` of `src/internal/secretkey/secretkey.go` joins the components of a connection as they
are. What libpq reads from the result is what was joined exactly if no component contains a
character that ends it, or `%`. The operator's own credential Secrets have their URI in the same
form.
-/

namespace Athos.Secretkey

open Base Libpq List

/-- `LibpqURI`; `secretkey.go:118-123`. -/
def libpqURI (host port database user password : GoString) : GoString :=
  if password = [] then
    lit "postgresql://" ++ user ++ lit "@" ++ host ++ lit ":" ++ port ++ lit "/" ++ database
  else
    lit "postgresql://" ++ user ++ lit ":" ++ password ++ lit "@" ++ host ++ lit ":" ++ port ++
      lit "/" ++ database

/-- User and password as they stand in the URI. -/
def plainCredentials (user password : GoString) : GoString :=
  if password = [] then user else user ++ 0x3A :: password

private theorem libpqURI_eq (host port database user password : GoString) :
    libpqURI host port database user password =
      lit "postgresql://" ++ (plainCredentials user password ++ 0x40 ::
        (host ++ 0x3A :: (port ++ 0x2F :: database))) := by
  rw [libpqURI, plainCredentials]
  split_ifs
  · simp only [append_assoc]
    rfl
  · simp only [append_assoc]
    rfl

/-- The components whose URI is read back: none contains a character that ends it or `%`. -/
structure LibpqReadable (port database user password : GoString) : Prop where
  user : ∀ b ∈ user, b ∉ lit "@/:%"
  password : ∀ b ∈ password, b ∉ lit "@/%"
  port : ∀ b ∈ port, b ∉ lit "/?,%"
  database : ∀ b ∈ database, b ∉ lit "?%"

private theorem length_cutByte (b : UInt8) (s : GoString) :
    (cutByte b s).1.length + (cutByte b s).2.length ≤ s.length ∧
      ((cutByte b s).2 ≠ [] → (cutByte b s).1.length + (cutByte b s).2.length < s.length) := by
  by_cases hb : b ∈ s
  · have hlen := congrArg List.length (cutByte_append hb)
    rw [length_append, length_cons] at hlen
    omega
  · rw [cutByte_of_not_mem hb]
    simp

section Plain

variable {host port database user password : GoString} {u : Uri}

private theorem no_stop_plainCredentials {t : GoString}
    (huser : unescape (readCredentials (plainCredentials user password ++ 0x40 :: t)).1.1 =
      some user)
    (hpassword : unescape (readCredentials (plainCredentials user password ++ 0x40 :: t)).1.2 =
      some password) : ∀ b ∈ plainCredentials user password, b ∉ lit "@/" := by
  rcases exists_first_stop (lit "@/") (plainCredentials user password) with
    hfree | ⟨x, c, y, heq, hx, hc⟩
  · exact hfree
  exfalso
  rw [heq, append_assoc, cons_append] at huser hpassword
  have hlen := congrArg List.length heq
  rw [plainCredentials, length_append, length_cons] at hlen
  have hcases : c = 0x40 ∨ c = 0x2F := by simpa using (show c ∈ [0x40, 0x2F] from hc)
  rcases hcases with rfl | rfl
  · -- what stands before that `@` is too short for user and password
    rw [readCredentials_at hx] at huser hpassword
    have h₁ : user.length ≤ (cutByte 0x3A x).1.length := (length_unescape huser).1
    have h₂ : password.length ≤ (cutByte 0x3A x).2.length := (length_unescape hpassword).1
    obtain ⟨hle, hlt⟩ := length_cutByte 0x3A x
    split_ifs at hlen with hp
    · omega
    · rw [length_append, length_cons] at hlen
      have hpos := length_pos_of_ne_nil hp
      have hne : (cutByte 0x3A x).2 ≠ [] := ne_nil_of_length_pos (by omega)
      have := hlt hne
      omega
  · rw [readCredentials_slash hx] at huser hpassword
    obtain rfl : [] = user := Option.some.inj huser
    obtain rfl : [] = password := Option.some.inj hpassword
    simp at hlen

private theorem cutByte_plainCredentials (h : 0x3A ∉ user) :
    cutByte 0x3A (plainCredentials user password) = (user, password) := by
  rw [plainCredentials]
  split_ifs with hp
  · rw [hp, cutByte_of_not_mem h]
  · exact cutByte_append_cons h password

private theorem no_colon_of_unescape
    (huser : unescape (cutByte 0x3A (plainCredentials user password)).1 = some user) :
    0x3A ∉ user := by
  intro hmem
  have hcut := cutByte_append hmem
  have hfirst : (cutByte 0x3A (plainCredentials user password)).1 = (cutByte 0x3A user).1 := by
    rw [plainCredentials]
    split_ifs
    · rfl
    · conv_lhs => rw [hcut, append_assoc, cons_append]
      rw [cutByte_append_cons (not_mem_cutByte_fst 0x3A user)]
  have hlen := congrArg List.length hcut
  have hle := (length_unescape huser).1
  rw [hfirst] at hle
  rw [length_append, length_cons] at hlen
  omega

private theorem no_stop_of_readNetlocs {r : (GoString × GoString) × GoString}
    (hname : ∀ b ∈ host, b ∉ hostStops)
    (hread : readNetlocs (host ++ 0x3A :: (port ++ 0x2F :: database)) = some r)
    (hhost : unescape r.1.1 = some host) (hport : unescape r.1.2 = some port) :
    ∀ b ∈ port, b ∉ lit "/?," := by
  rcases exists_first_stop (lit "/?,") port with hfree | ⟨x, c, y, rfl, hx, hc⟩
  · exact hfree
  exfalso
  rw [append_assoc, cons_append] at hread
  by_cases hcomma : c = 0x2C
  · subst hcomma
    rw [readNetlocs_comma hname hx] at hread
    obtain ⟨r', -, rfl⟩ := Option.map_eq_some_iff.1 hread
    have hpercent : 0x25 ∉ host := fun hmem => hname 0x25 hmem (by decide)
    change unescape (host ++ 0x2C :: r'.1.1) = some host at hhost
    rw [unescape_append_of_not_mem hpercent, unescape_cons (by decide), Option.map_map] at hhost
    obtain ⟨t, -, ht⟩ := Option.map_eq_some_iff.1 hhost
    have hlen := congrArg List.length ht
    simp at hlen
  · have hc' : c ∈ lit "/?" := by
      have hcases : c = 0x2F ∨ c = 0x3F ∨ c = 0x2C := by
        simpa using (show c ∈ [0x2F, 0x3F, 0x2C] from hc)
      rcases hcases with rfl | rfl | rfl
      · decide
      · decide
      · exact absurd rfl hcomma
    rw [readNetlocs_name hname hx hc'] at hread
    obtain rfl := Option.some.inj hread
    have hle := (length_unescape hport).1
    rw [length_append, length_cons] at hle
    change x.length + (y.length + 1) ≤ x.length at hle
    omega

private theorem no_query_of_unescape (h : unescape (cutByte 0x3F database).1 = some database) :
    0x3F ∉ database := by
  intro hmem
  have hlen := congrArg List.length (cutByte_append hmem)
  have hle := (length_unescape h).1
  rw [length_append, length_cons] at hlen
  omega

private theorem mem_plainCredentials {b : UInt8} :
    b ∈ plainCredentials user password ↔
      b ∈ user ∨ (password ≠ [] ∧ b = 0x3A) ∨ b ∈ password := by
  rw [plainCredentials]
  split_ifs with hp
  · simp [hp]
  · simp [hp]

private theorem forall_not_mem_concat {s stops all : GoString} {c : UInt8}
    (hall : all = stops ++ [c]) :
    (∀ b ∈ s, b ∉ all) ↔ (∀ b ∈ s, b ∉ stops) ∧ c ∉ s := by
  subst hall
  constructor
  · refine fun h => ⟨fun b hb hmem => h b hb (mem_append_left _ hmem), fun hmem => ?_⟩
    exact h c hmem (by simp)
  · rintro ⟨hstops, hc⟩ b hb hmem
    rcases mem_append.1 hmem with hmem | hmem
    · exact hstops b hb hmem
    · obtain rfl := mem_singleton.1 hmem
      exact hc hb

private theorem libpqReadable_iff :
    LibpqReadable port database user password ↔
      ((∀ b ∈ plainCredentials user password, b ∉ lit "@/") ∧ 0x3A ∉ user ∧
        (∀ b ∈ port, b ∉ lit "/?,") ∧ 0x3F ∉ database) ∧
      (0x25 ∉ user ∧ 0x25 ∉ password ∧ 0x25 ∉ port ∧ 0x25 ∉ database) := by
  have hcredentials : (∀ b ∈ plainCredentials user password, b ∉ lit "@/") ↔
      (∀ b ∈ user, b ∉ lit "@/") ∧ ∀ b ∈ password, b ∉ lit "@/" := by
    refine ⟨fun h => ⟨fun b hb => h b (mem_plainCredentials.2 (.inl hb)),
      fun b hb => h b (mem_plainCredentials.2 (.inr (.inr hb)))⟩, ?_⟩
    rintro ⟨huser, hpassword⟩ b hb
    rcases mem_plainCredentials.1 hb with hb | ⟨-, rfl⟩ | hb
    · exact huser b hb
    · decide
    · exact hpassword b hb
  have huser : (∀ b ∈ user, b ∉ lit "@/:%") ↔
      ((∀ b ∈ user, b ∉ lit "@/") ∧ 0x3A ∉ user) ∧ 0x25 ∉ user := by
    rw [← forall_not_mem_concat (show lit "@/:" = lit "@/" ++ [0x3A] from rfl)]
    exact forall_not_mem_concat rfl
  have hpassword : (∀ b ∈ password, b ∉ lit "@/%") ↔
      (∀ b ∈ password, b ∉ lit "@/") ∧ 0x25 ∉ password := forall_not_mem_concat rfl
  have hport : (∀ b ∈ port, b ∉ lit "/?,%") ↔ (∀ b ∈ port, b ∉ lit "/?,") ∧ 0x25 ∉ port :=
    forall_not_mem_concat rfl
  have hdatabase : (∀ b ∈ database, b ∉ lit "?%") ↔ 0x3F ∉ database ∧ 0x25 ∉ database := by
    rw [forall_not_mem_concat (show lit "?%" = [0x3F] ++ [0x25] from rfl),
      forall_not_mem_concat (show [0x3F] = [] ++ [0x3F] from rfl)]
    simp
  constructor
  · rintro ⟨h₁, h₂, h₃, h₄⟩
    rw [huser] at h₁
    rw [hpassword] at h₂
    rw [hport] at h₃
    rw [hdatabase] at h₄
    rw [hcredentials]
    exact ⟨⟨⟨h₁.1.1, h₂.1⟩, h₁.1.2, h₃.1, h₄.1⟩, h₁.2, h₂.2, h₃.2, h₄.2⟩
  · rw [hcredentials]
    rintro ⟨⟨⟨h₁, h₂⟩, h₃, h₄, h₅⟩, h₆, h₇, h₈, h₉⟩
    exact ⟨huser.2 ⟨⟨h₁, h₃⟩, h₆⟩, hpassword.2 ⟨h₂, h₇⟩, hport.2 ⟨h₄, h₈⟩,
      hdatabase.2 ⟨h₅, h₉⟩⟩

/-- What libpq reads from the URI without escapes. -/
theorem readUri_libpqURI_iff (hname : IsHostName host) :
    readUri (libpqURI host port database user password) =
        some { user, password, host, port, dbname := database, params := [] } ↔
      LibpqReadable port database user password := by
  rw [libpqURI_eq, libpqReadable_iff]
  constructor
  · intro h
    obtain ⟨r, hread, hparts⟩ := (readUri_eq_some (dropScheme_postgresql _)).1 h
    obtain ⟨huser, hpassword, hhost, hport, hdatabase, -⟩ := decodeParts_eq_some.1 hparts
    have hcredentials := no_stop_plainCredentials huser hpassword
    rw [readCredentials_at hcredentials] at hread huser hpassword
    have hcolon := no_colon_of_unescape huser
    have hstops := no_stop_of_readNetlocs hname.no_stop hread hhost hport
    rw [cutByte_plainCredentials hcolon] at huser hpassword
    rw [readNetlocs_name hname.no_stop hstops (by decide)] at hread
    obtain rfl := Option.some.inj hread
    have hquery := no_query_of_unescape hdatabase
    change unescape (cutByte 0x3F database).1 = some database at hdatabase
    rw [cutByte_of_not_mem hquery] at hdatabase
    exact ⟨⟨hcredentials, hcolon, hstops, hquery⟩, unescape_eq_self_iff.1 huser,
      unescape_eq_self_iff.1 hpassword, unescape_eq_self_iff.1 hport,
      unescape_eq_self_iff.1 hdatabase⟩
  · rintro ⟨⟨hcredentials, hcolon, hstops, hquery⟩, huser, hpassword, hport, hdatabase⟩
    have hpercent : 0x25 ∉ host := fun hmem => hname.no_stop 0x25 hmem (by decide)
    rw [readUri_text hcredentials hname.no_stop hstops, cutByte_plainCredentials hcolon,
      cutByte_of_not_mem hquery, decodeParts_eq_some]
    refine ⟨unescape_of_not_mem huser, unescape_of_not_mem hpassword, unescape_of_not_mem hpercent,
      unescape_of_not_mem hport, unescape_of_not_mem hdatabase, ?_⟩
    rw [readParams, dif_pos rfl]

end Plain

end Athos.Secretkey
