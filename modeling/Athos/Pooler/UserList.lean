import Athos.Server.AuthFile

/-!
# The two user lists

`UserList` of `src/internal/pgbouncer/pgbouncer.go` and `RenderUserList` of
`src/internal/poolerconfig/poolerconfig.go` write the same file from the same map. The first writes
the fields with `%q` in the order of `range`, the second as they are and sorted; PgBouncer knows no
escape but the doubled quote.
-/

namespace Athos.Pooler

open Base Server.AuthFile List

/-- `UserList`; `pgbouncer.go:178-184`. The keys are given in the order of `range`. -/
def userList (T : RuneTables) (keys : List GoString) (users : GoMap GoString) : GoString :=
  keys.flatMap fun user =>
    goQuote T user ++ lit " " ++ goQuote T (users.getD user []) ++ lit "\n"

/-- `RenderUserList`; `poolerconfig.go:124-130`. -/
def renderUserList (S : SliceSort) (keys : List GoString) (users : GoMap GoString) : GoString :=
  (sortStrings S keys).flatMap fun u =>
    lit "\"" ++ u ++ lit "\" \"" ++ users.getD u [] ++ lit "\"\n"

section

variable {T : RuneTables} {S : SliceSort} {keys : List GoString} {users : GoMap GoString}

/-- An entry as `%q` writes it. -/
private def escaped (T : RuneTables) (e : Entry) : Entry := (quoteBody T e.1, quoteBody T e.2)

private theorem userList_eq :
    userList T keys users = ((listing users keys).map (escaped T)).flatMap line := by
  rw [userList, listing, map_map, flatMap_map]
  apply flatMap_congr
  intro k _
  simp only [Function.comp_apply, goQuote_eq, line, escaped, append_assoc, cons_append, nil_append]
  rfl

private theorem renderUserList_eq (hkeys : Ranges users keys) :
    renderUserList S keys users = (listing users users.keys).flatMap line := by
  rw [renderUserList, hkeys.sortStrings, listing, flatMap_map]
  apply flatMap_congr
  intro k _
  simp only [line, append_assoc]
  rfl

private theorem parse_renderUserList_iff (hkeys : Ranges users keys) :
    parse (renderUserList S keys users) = some users ↔
      ∀ e ∈ listing users users.keys, 0x22 ∉ e.1 ∧ 0x22 ∉ e.2 := by
  have hsorted : Ranges users users.keys := .refl _
  rw [renderUserList_eq hkeys]
  constructor
  · exact not_mem_of_parse hsorted rfl
  · intro h
    rw [parse, entries_lines h, Option.map_some, collect_listing hsorted]

private theorem not_mem_of_verbatim {s : GoString} (h : Verbatim T s) : 0x22 ∉ s := by
  intro hm
  obtain ⟨p, hp, hrune⟩ := mem_map.1 (ascii_mem_runes hm (by decide))
  exact (h p hp).1 hrune

private theorem escaped_of_verbatim {e : Entry} (h : Verbatim T e.1 ∧ Verbatim T e.2) :
    escaped T e = e := by
  rw [escaped, quoteBody_of_verbatim h.1, quoteBody_of_verbatim h.2]

private theorem map_escaped {es : List Entry} (h : ∀ e ∈ es, Verbatim T e.1 ∧ Verbatim T e.2) :
    es.map (escaped T) = es := by
  conv_rhs => rw [← map_id es]
  exact map_congr_left fun e he => escaped_of_verbatim (h e he)

/-- The number of bytes in the fields of an entry. -/
private def size (e : Entry) : Nat := e.1.length + e.2.length

private theorem size_le_escaped (T : RuneTables) (e : Entry) : size e ≤ size (escaped T e) :=
  Nat.add_le_add (length_quoteBody T e.1).1 (length_quoteBody T e.2).1

private theorem verbatim_of_sum_le {es : List Entry}
    (h : (es.map fun e => size (escaped T e)).sum ≤ (es.map size).sum) :
    ∀ e ∈ es, Verbatim T e.1 ∧ Verbatim T e.2 := by
  have hle : ∀ fs : List Entry, (fs.map size).sum ≤ (fs.map fun e => size (escaped T e)).sum := by
    intro fs
    induction fs with
    | nil => exact Nat.le_refl _
    | cons f fs ih =>
      simp only [map_cons, sum_cons]
      exact Nat.add_le_add (size_le_escaped T f) ih
  induction es with
  | nil => exact fun e he => (by cases he)
  | cons e es ih =>
    simp only [map_cons, sum_cons] at h
    have htail := hle es
    have hhead := size_le_escaped T e
    have hfields : size (escaped T e) ≤ size e := by omega
    have huser := length_quoteBody T e.1
    have hhash := length_quoteBody T e.2
    simp only [size, escaped] at hfields
    rw [forall_mem_cons]
    exact ⟨⟨huser.2 (by omega), hhash.2 (by omega)⟩, ih (by omega)⟩

private theorem parse_userList_iff (hkeys : Ranges users keys) :
    parse (userList T keys users) = some users ↔
      ∀ e ∈ listing users keys, Verbatim T e.1 ∧ Verbatim T e.2 := by
  rw [userList_eq]
  constructor
  · intro h
    have hquotes : ∀ s, quotes (quoteBody T s) = quotes s := fun s => count_quoteBody T s
    have htext : quotes (((listing users keys).map (escaped T)).flatMap line) =
        quotes ((listing users keys).flatMap line) := by
      rw [quotes_flatMap_line, quotes_flatMap_line, length_map, map_map]
      simp only [Function.comp_def, escaped, hquotes]
    have hnone := not_mem_of_parse hkeys htext h
    -- Without quotes the escaped fields are what is read, so they are the fields of the map.
    have hentries : entries (((listing users keys).map (escaped T)).flatMap line) =
        some ((listing users keys).map (escaped T)) := by
      apply entries_lines
      intro e he
      obtain ⟨f, hf, rfl⟩ := mem_map.1 he
      obtain ⟨huser, hhash⟩ := hnone f hf
      have hcount : ∀ s : GoString, 0x22 ∉ s → 0x22 ∉ quoteBody T s := by
        intro s hs
        rw [← count_eq_zero, count_quoteBody]
        exact count_eq_zero.2 hs
      exact ⟨hcount _ huser, hcount _ hhash⟩
    rw [parse, hentries, Option.map_some, Option.some.injEq] at h
    have hperm := (subperm_listing hkeys h).perm_of_length_le (by rw [length_map])
    have hsum := (hperm.map size).sum_nat
    rw [map_map] at hsum
    exact verbatim_of_sum_le (Nat.le_of_eq hsum.symm)
  · intro h
    rw [map_escaped h, parse, entries_lines fun e he =>
      ⟨not_mem_of_verbatim (h e he).1, not_mem_of_verbatim (h e he).2⟩, Option.map_some,
      collect_listing hkeys]

end

/-- When the two user lists agree and are read back. Both files are read as the map they were
written from and are the same text, whatever order the second run takes, if and only if the
first run visits the names in byte order and `%q` writes every name and hash as it is. -/
theorem userLists_agree_iff (T : RuneTables) (S : SliceSort) (users : GoMap GoString)
    (keys : List GoString) (hkeys : Ranges users keys) :
    (parse (userList T keys users) = some users ∧
      parse (renderUserList S keys users) = some users ∧
      ∀ keys', Ranges users keys' → userList T keys users = renderUserList S keys' users) ↔
    keys = users.keys ∧
      ∀ user hash, users[user]? = some hash → Verbatim T user ∧ Verbatim T hash := by
  have hsorted : Ranges users users.keys := .refl _
  constructor
  · rintro ⟨hparse, -, htext⟩
    have hverbatim := (parse_userList_iff hkeys).1 hparse
    have hquote : ∀ e ∈ listing users keys, 0x22 ∉ e.1 ∧ 0x22 ∉ e.2 := fun e he =>
      ⟨not_mem_of_verbatim (hverbatim e he).1, not_mem_of_verbatim (hverbatim e he).2⟩
    have hall : ∀ user hash, users[user]? = some hash → Verbatim T user ∧ Verbatim T hash :=
      fun user hash h => hverbatim (user, hash) ((mem_listing hkeys).2 h)
    refine ⟨?_, hall⟩
    have heq := htext keys hkeys
    rw [userList_eq, map_escaped hverbatim, renderUserList_eq hkeys] at heq
    have hread := entries_lines hquote
    rw [heq, entries_lines fun e he => hquote e
      ((mem_listing hkeys).2 ((mem_listing hsorted).1 he))] at hread
    have hkeyed := congrArg (List.map Prod.fst) (Option.some.inj hread)
    simpa [listing, Function.comp_def] using hkeyed.symm
  · rintro ⟨rfl, hall⟩
    have hverbatim : ∀ e ∈ listing users users.keys, Verbatim T e.1 ∧ Verbatim T e.2 :=
      fun e he => hall e.1 e.2 ((mem_listing hkeys).1 he)
    refine ⟨(parse_userList_iff hkeys).2 hverbatim, (parse_renderUserList_iff hkeys).2
      fun e he => ⟨not_mem_of_verbatim (hverbatim e he).1, not_mem_of_verbatim (hverbatim e he).2⟩,
      fun keys' hkeys' => ?_⟩
    rw [userList_eq, map_escaped hverbatim, renderUserList_eq hkeys']

/-- Two users. -/
def sampleUsers : GoMap GoString :=
  ((∅ : GoMap GoString).insert (lit "alice") (lit "SCRAM-SHA-256$4096:c2FsdA==")).insert
    (lit "bob") (lit "md5d41d8")

/-- The names come in order. -/
theorem sampleUsers_agree :
    userList .basic [lit "alice", lit "bob"] sampleUsers =
      renderUserList .insertion [lit "bob", lit "alice"] sampleUsers := by
  have hkeys : Ranges sampleUsers [lit "alice", lit "bob"] := by decide +kernel
  have hall : ∀ e ∈ listing sampleUsers [lit "alice", lit "bob"],
      Verbatim .basic e.1 ∧ Verbatim .basic e.2 := by decide +kernel
  exact ((userLists_agree_iff .basic .insertion sampleUsers _ hkeys).2 ⟨by decide +kernel,
    fun user hash h => hall (user, hash) ((mem_listing hkeys).2 h)⟩).2.2 _ (by decide +kernel)

/-- A backslash is doubled, a quote ends the field, and the order shows. -/
theorem userLists_differ :
    (parse (userList .basic [lit "CORP\\alice"]
        ((∅ : GoMap GoString).insert (lit "CORP\\alice") (lit "x")))).map (·.toList) =
      some [(lit "CORP\\\\alice", lit "x")] ∧
    (parse (renderUserList .insertion [lit "a\"b"]
        ((∅ : GoMap GoString).insert (lit "a\"b") (lit "x")))).map (·.toList) =
      some [(lit "a", lit " ")] ∧
    userList .basic [lit "bob", lit "alice"] sampleUsers ≠
      userList .basic [lit "alice", lit "bob"] sampleUsers := by
  decide +kernel

end Athos.Pooler
