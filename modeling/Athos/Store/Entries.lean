import Athos.Store.Connstr

/-!
# Entries of a DSN

The text that `kvString` writes for an entry and what the tokens of `tokenizeDSN` make of it. The
two agree unless the value contains a quote, or a tab or line break that no blank or backslash puts
into quotes, or ends in space at the end of the DSN.
-/

namespace Athos.Store

open Base Kube Postgres List

/-- A key that the reader finds: some text without `=` and space. -/
structure IsKey (k : GoString) : Prop where
  ne_nil : k ≠ []
  no_equals : 0x3D ∉ k
  no_space : ∀ r ∈ runes k, isSpace r = false

instance (k : GoString) : Decidable (IsKey k) :=
  decidable_of_iff (k ≠ [] ∧ 0x3D ∉ k ∧ ∀ r ∈ runes k, isSpace r = false)
    ⟨fun h => ⟨h.1, h.2.1, h.2.2⟩, fun h => ⟨h.ne_nil, h.no_equals, h.no_space⟩⟩

/-- A value that the reader finds the end of. -/
def Plain (v : GoString) : Prop :=
  if needsQuote v then 0x27 ∉ v else ∀ b ∈ v, isDsnSpace b = false

instance (v : GoString) : Decidable (Plain v) :=
  inferInstanceAs (Decidable (if needsQuote v then 0x27 ∉ v else ∀ b ∈ v, isDsnSpace b = false))

section Keys

variable {k : GoString}

private theorem IsKey.trimSpace_eq (hk : IsKey k) :
    trimSpace k = k := trimSpace_of_not_isSpace hk.no_space

/-- Keys have no space in them. -/
theorem IsKey.not_isDsnSpace (hk : IsKey k) : ∀ b ∈ k, isDsnSpace b = false := by
  intro b hb
  by_contra hspace
  rw [Bool.not_eq_false, isDsnSpace] at hspace
  have hcases : b = 0x20 ∨ b = 0x09 ∨ b = 0x0A ∨ b = 0x0D := by simpa [or_assoc] using hspace
  have hascii : b < 0x80 := by
    rcases hcases with rfl | rfl | rfl | rfl <;> decide
  have hrune := hk.no_space _ (ascii_mem_runes hb hascii)
  rcases hcases with rfl | rfl | rfl | rfl <;> exact absurd hrune (by decide)

private theorem IsKey.head_decode (hk : IsKey k) {rest : List (Nat × GoString)} {p : Nat × GoString}
    (h : (decode k ++ rest).head? = some p) : isSpace p.1 = false := by
  cases hd : decode k with
  | nil => exact absurd hd (decode_ne_nil hk.ne_nil)
  | cons q l =>
    rw [hd, cons_append, head?_cons, Option.some.injEq] at h
    subst h
    apply hk.no_space
    rw [runes, hd]
    exact mem_cons_self

end Keys

section Tokens

variable {T : RuneTables}

/-- The cases of a successful loop. -/
theorem tokens_eq_ok {s : GoString} {l : List (GoString × GoString)} (h : tokens T s = .ok l) :
    (s.dropWhile isDsnSpace = [] ∧ l = []) ∨
      ∃ p rest l', readToken T (s.dropWhile isDsnSpace) = .ok (p, rest) ∧
        tokens T rest = .ok l' ∧ l = p :: l' := by
  rw [tokens_eq] at h
  split_ifs at h with hnil
  · exact .inl ⟨hnil, (Except.ok.inj h).symm⟩
  · obtain ⟨⟨p, rest⟩, hread, hmap⟩ := bind_eq_ok.1 h
    obtain ⟨l', hrest, hl⟩ := map_eq_ok.1 hmap
    exact .inr ⟨p, rest, l', hread, hrest, hl.symm⟩

/-- A blank between tokens does not matter. -/
theorem tokens_blank (s : GoString) : tokens T (0x20 :: s) = tokens T s := by
  rw [tokens_eq, tokens_eq T s, dropWhile_cons_of_pos rfl]

private theorem tokens_key {k : GoString} (hk : IsKey k) (after : GoString) :
    tokens T (k ++ 0x3D :: after) =
      (readValue T k after).bind fun r => (tokens T r.2).map fun l => (k, r.1) :: l := by
  have hdrop : (k ++ 0x3D :: after).dropWhile isDsnSpace = k ++ 0x3D :: after := by
    obtain ⟨b, k', rfl⟩ := exists_cons_of_ne_nil hk.ne_nil
    have hb := hk.not_isDsnSpace b mem_cons_self
    exact dropWhile_cons_of_neg (by simp [hb])
  have hread : readToken T (k ++ 0x3D :: after) =
      (readValue T k after).map fun r => ((k, r.1), r.2) := by
    rw [readToken, if_pos (by simp), cutByte_append_cons hk.no_equals]
    simp only [hk.trimSpace_eq]
  rw [tokens_eq, hdrop, if_neg (by simp), hread]
  cases readValue T k after <;> rfl

end Tokens

/-- An entry of a DSN, with the text of its value. -/
structure Entry where
  key : GoString
  value : GoString
  text : GoString

namespace Entry

/-- The text is that of the value; the end of an unquoted value may be missing. -/
def Written (e : Entry) : Prop :=
  if needsQuote e.value then e.text = valueText e.value else ∃ u, e.value = e.text ++ u

/-- The text is read as the value. -/
def Reads (e : Entry) : Prop := Plain e.value ∧ (needsQuote e.value = false → e.text = e.value)

end Entry

private theorem not_mem_of_needsQuote {v : GoString} (h : needsQuote v = false) : 0x27 ∉ v := by
  simp only [needsQuote, Bool.or_eq_false_iff, contains_eq_mem, decide_eq_false_iff_not] at h
  exact h.1.2

private theorem valueText_of_not_mem {v : GoString} (hneeds : needsQuote v = true) (h : 0x27 ∉ v) :
    valueText v = 0x27 :: (v ++ [0x27]) := by
  rw [valueText, if_pos hneeds, replaceByte_of_not_mem h]

section Entries

variable {T : RuneTables} {e : Entry} {tail : GoString}

private theorem readValue_of_reads (hwritten : e.Written) (hreads : e.Reads)
    (htail : tail = [] ∨ ∃ t, tail = 0x20 :: t) (key : GoString) :
    readValue T key (e.text ++ tail) = .ok (e.value, tail) := by
  obtain ⟨hplain, htext⟩ := hreads
  unfold Plain at hplain
  unfold Entry.Written at hwritten
  split_ifs at hplain hwritten with hneeds
  · rw [hwritten, valueText_of_not_mem hneeds hplain, cons_append, append_assoc]
    exact readValue_quoted hplain key tail
  · rw [Bool.not_eq_true] at hneeds
    rw [htext hneeds]
    exact readValue_unquoted hplain (not_mem_of_needsQuote hneeds) htail key

private theorem reads_of_readValue (hwritten : e.Written)
    (htail : tail = [] ∨ ∃ t, tail = 0x20 :: t)
    {key rest : GoString} (h : readValue T key (e.text ++ tail) = .ok (e.value, rest)) :
    e.Reads := by
  unfold Entry.Written at hwritten
  split_ifs at hwritten with hneeds
  · refine ⟨?_, fun hfalse => absurd hneeds (by simp [hfalse])⟩
    rw [Plain, if_pos hneeds]
    rcases readValue_eq_ok h with ⟨-, hquote⟩ | ⟨-, hhead, -⟩
    · exact hquote
    · rw [hwritten, valueText, if_pos hneeds] at hhead
      exact absurd rfl hhead
  · rw [Bool.not_eq_true] at hneeds
    obtain ⟨u, hu⟩ := hwritten
    have hquote := not_mem_of_needsQuote hneeds
    rcases readValue_eq_ok h with ⟨hfront, -⟩ | ⟨heq, -, hspace, -⟩
    · exfalso
      rcases append_eq_cons_iff.1 hfront with ⟨-, htail'⟩ | ⟨t, ht, -⟩
      · rcases htail with rfl | ⟨t, rfl⟩ <;> cases htail'
      · apply hquote
        rw [hu, ht]
        exact mem_cons_self
    · refine ⟨?_, fun _ => ?_⟩
      · rw [Plain, hneeds]
        exact hspace
      · rw [hu, append_assoc, append_cancel_left_eq] at heq
        cases u with
        | nil => rw [hu, append_nil]
        | cons b u =>
          -- what is missing at the end would begin with the blank after the text
          rcases htail with rfl | ⟨t, rfl⟩
          · cases heq
          · obtain ⟨rfl, -⟩ := List.cons.inj heq
            have hblank := hspace 0x20 (by rw [hu]; simp)
            exact absurd hblank (by decide)

end Entries

/-- The text of entries. -/
def joined (l : List Entry) : GoString :=
  List.intercalate [0x20] (l.map fun e => e.key ++ 0x3D :: e.text)

/-- What stands after an entry. -/
def following (l : List Entry) : GoString := if l = [] then [] else 0x20 :: joined l

/-- The text of an entry and of those after it. -/
theorem joined_cons (e : Entry) (l : List Entry) :
    joined (e :: l) = e.key ++ 0x3D :: (e.text ++ following l) := by
  cases l with
  | nil => simp [joined, following]
  | cons e' l => simp [joined, following, intercalate_cons_cons]

/-- What follows an entry is nothing or begins with a blank. -/
theorem following_cases (l : List Entry) : following l = [] ∨ ∃ t, following l = 0x20 :: t := by
  cases l with
  | nil => exact .inl rfl
  | cons e l => exact .inr ⟨joined (e :: l), rfl⟩

private theorem tokens_following {T : RuneTables} (l : List Entry) :
    tokens T (following l) = tokens T (joined l) := by
  cases l with
  | nil => rfl
  | cons e l => exact tokens_blank _

section Sync

variable {T : RuneTables} {l : List Entry}

/-- Entries that read are read in their order. -/
theorem tokens_joined (hkey : ∀ e ∈ l, IsKey e.key) (hwritten : ∀ e ∈ l, e.Written)
    (hreads : ∀ e ∈ l, e.Reads) :
    tokens T (joined l) = .ok (l.map fun e => (e.key, e.value)) := by
  induction l with
  | nil => rw [joined, tokens_eq]; rfl
  | cons e l ih =>
    rw [forall_mem_cons] at hkey hwritten hreads
    rw [joined_cons, tokens_key hkey.1, readValue_of_reads hwritten.1 hreads.1 (following_cases l)]
    change (tokens T (following l)).map _ = _
    rw [tokens_following, ih hkey.2 hwritten.2 hreads.2]
    rfl

/-- The first entry that does not read gives its key a wrong value. -/
theorem exists_misread (hkey : ∀ e ∈ l, IsKey e.key) (hwritten : ∀ e ∈ l, e.Written)
    {ts : List (GoString × GoString)} (h : tokens T (joined l) = .ok ts) :
    (∀ e ∈ l, e.Reads) ∨ ∃ e ∈ l, ¬ e.Reads ∧ ∃ v, v ≠ e.value ∧ (e.key, v) ∈ ts := by
  induction l generalizing ts with
  | nil => exact .inl (forall_mem_nil _)
  | cons e l ih =>
    rw [forall_mem_cons] at hkey hwritten
    rw [joined_cons, tokens_key hkey.1] at h
    obtain ⟨⟨v, rest⟩, hread, hmap⟩ := bind_eq_ok.1 h
    obtain ⟨ts', hrest, rfl⟩ := map_eq_ok.1 hmap
    by_cases hreads : e.Reads
    · rw [readValue_of_reads hwritten.1 hreads (following_cases l)] at hread
      cases hread
      rw [tokens_following] at hrest
      rcases ih hkey.2 hwritten.2 hrest with hall | ⟨e', he', hbad, v, hv, hmem⟩
      · exact .inl (forall_mem_cons.2 ⟨hreads, hall⟩)
      · exact .inr ⟨e', mem_cons_of_mem _ he', hbad, v, hv, mem_cons_of_mem _ hmem⟩
    · refine .inr ⟨e, mem_cons_self, hreads, v, ?_, mem_cons_self⟩
      rintro rfl
      exact hreads (reads_of_readValue hwritten.1 (following_cases l) hread)

end Sync

/-- Space at the end of the last text is trimmed. -/
def trimLast : List Entry → List Entry
  | [] => []
  | [e] => [{ e with text := if needsQuote e.value then e.text else trimTrailing e.text }]
  | e :: e' :: l => e :: trimLast (e' :: l)

/-- The entries of a map. -/
def entriesOf (kv : StringMap) : List Entry :=
  kv.toList.map fun p => { key := p.1, value := p.2, text := valueText p.2 }

private theorem kvString_eq_joined (kv : StringMap) : kvString kv = joined (entriesOf kv) := by
  rw [kvString, joined, entriesOf, map_map]
  rfl

private theorem map_trimLast {α : Type} (f : GoString → GoString → α) (l : List Entry) :
    (trimLast l).map (fun e => f e.key e.value) = l.map fun e => f e.key e.value := by
  fun_induction trimLast l with
  | case1 => rfl
  | case2 e => rfl
  | case3 e e' l ih => exact congrArg (f e.key e.value :: ·) ih

private theorem trimLast_ne_nil (e : Entry) (l : List Entry) : trimLast (e :: l) ≠ [] := by
  cases l with
  | nil => exact cons_ne_nil _ _
  | cons e' l => exact cons_ne_nil _ _

variable {e : Entry} {kv : StringMap}

private theorem exists_front {l : List Entry} (hkey : ∀ e ∈ l, IsKey e.key)
    (hlast : l.getLast? = some e) :
    ∃ front, (∀ p, (decode front).head? = some p → isSpace p.1 = false) ∧
      joined l = front ++ 0x3D :: e.text ∧
      joined (trimLast l) =
        front ++ 0x3D :: if needsQuote e.value then e.text else trimTrailing e.text := by
  fun_induction trimLast l with
  | case1 => cases hlast
  | case2 e' =>
    obtain rfl : e' = e := by simpa using hlast
    have hk := hkey e' mem_cons_self
    refine ⟨e'.key, fun p hp => ?_, ?_, ?_⟩
    · rw [← append_nil (decode e'.key)] at hp
      exact hk.head_decode hp
    · simp [joined]
    · simp [joined]
  | case3 e₁ e₂ l ih =>
    rw [forall_mem_cons] at hkey
    rw [getLast?_cons_cons] at hlast
    obtain ⟨front, -, hjoined, htrimmed⟩ := ih hkey.2 hlast
    refine ⟨e₁.key ++ 0x3D :: (e₁.text ++ 0x20 :: front), fun p hp => ?_, ?_, ?_⟩
    · rw [decode_append_cons (by decide)] at hp
      exact hkey.1.head_decode hp
    · rw [joined_cons, following, if_neg (cons_ne_nil _ _), hjoined]
      simp
    · rw [joined_cons, following, if_neg (trimLast_ne_nil _ _), htrimmed]
      simp

/-- What is left of a DSN when space is trimmed off. -/
theorem trimSpace_kvString (hkey : ∀ p ∈ kv.toList, IsKey p.1) :
    trimSpace (kvString kv) = joined (trimLast (entriesOf kv)) := by
  rw [kvString_eq_joined]
  have hkey' : ∀ e ∈ entriesOf kv, IsKey e.key := by
    intro e he
    obtain ⟨p, hp, rfl⟩ := mem_map.1 he
    exact hkey p hp
  cases hlast : (entriesOf kv).getLast? with
  | none =>
    rw [getLast?_eq_none_iff] at hlast
    rw [hlast]
    rfl
  | some e =>
    obtain ⟨front, hfront, hjoined, htrimmed⟩ := exists_front hkey' hlast
    obtain ⟨p, -, rfl⟩ := mem_map.1 (mem_of_getLast? hlast)
    rw [hjoined, htrimmed]
    dsimp only
    split_ifs with hneeds
    · -- the closing quote is no space
      have hhead : ∀ s q, (decode (front ++ 0x3D :: s)).head? = some q → isSpace q.1 = false := by
        intro s q hq
        rw [decode_append_cons (by decide), decode_cons_ascii (by decide)] at hq
        cases hd : decode front with
        | nil =>
          rw [hd] at hq
          obtain rfl := Option.some.inj hq
          rfl
        | cons q' rest =>
          rw [hd] at hq
          exact hfront q (by rw [hd]; exact hq)
      have htext : front ++ 0x3D :: valueText p.2 =
          (front ++ 0x3D :: 0x27 :: replaceByte 0x27 [0x5C, 0x27] p.2) ++ [0x27] := by
        rw [valueText, if_pos hneeds]
        simp
      rw [htext]
      exact trimSpace_append_cons (by decide) rfl (hhead _) []
    · exact trimSpace_append_cons (by decide) rfl hfront _

private theorem text_trimLast (he : e ∈ trimLast (entriesOf kv)) :
    e.text = valueText e.value ∨ (needsQuote e.value = false ∧ e.text = trimTrailing e.value) := by
  have hall : ∀ l : List Entry, (∀ e ∈ l, e.text = valueText e.value) → ∀ e ∈ trimLast l,
      e.text = valueText e.value ∨
        (needsQuote e.value = false ∧ e.text = trimTrailing e.value) := by
    intro l htext
    fun_induction trimLast l with
    | case1 => exact forall_mem_nil _
    | case2 e' =>
      have htext' := htext e' mem_cons_self
      rw [forall_mem_singleton]
      dsimp only
      split_ifs with hneeds
      · exact .inl htext'
      · refine .inr ⟨Bool.not_eq_true _ ▸ hneeds, ?_⟩
        rw [htext', valueText, if_neg hneeds]
    | case3 e' e'' l ih =>
      rw [forall_mem_cons] at htext ⊢
      exact ⟨.inl htext.1, ih htext.2⟩
  apply hall (entriesOf kv) _ e he
  intro e' he'
  obtain ⟨p, -, rfl⟩ := mem_map.1 he'
  rfl

private theorem reads_of_valueText (h : e.text = valueText e.value) : e.Reads ↔ Plain e.value := by
  refine ⟨And.left, fun hplain => ⟨hplain, fun hneeds => ?_⟩⟩
  rw [h, valueText, hneeds]
  rfl

/-- Entries read after the end of the last one is trimmed if they do before and nothing is lost. -/
theorem forall_reads_trimLast {l : List Entry} (h : ∀ e ∈ l, e.text = valueText e.value) :
    (∀ e ∈ trimLast l, e.Reads) ↔ (∀ e ∈ l, Plain e.value) ∧
      ∀ e, l.getLast? = some e → needsQuote e.value = false → trimTrailing e.value = e.value := by
  fun_induction trimLast l with
  | case1 => simp
  | case2 e =>
    have htext := h e mem_cons_self
    simp only [forall_mem_singleton, getLast?_singleton, Option.some.injEq, forall_eq', Entry.Reads]
    refine and_congr_right fun _ => forall_congr' fun hneeds => ?_
    rw [htext, valueText, hneeds]
    simp
  | case3 e e' l ih =>
    rw [forall_mem_cons] at h
    rw [forall_mem_cons, ih h.2, reads_of_valueText h.1, getLast?_cons_cons, ← and_assoc,
      forall_mem_cons (a := e)]

/-- The entries of a map are written. -/
theorem written_trimLast (he : e ∈ trimLast (entriesOf kv)) : e.Written := by
  rw [Entry.Written]
  rcases text_trimLast he with htext | ⟨hneeds, htext⟩
  · split_ifs with hneeds
    · exact htext
    · refine ⟨[], ?_⟩
      rw [htext, valueText, if_neg hneeds, append_nil]
  · rw [if_neg (by simp [hneeds]), htext]
    exact trimTrailing_append e.value

/-- Values without quotes and space are read wherever they stand. -/
theorem reads_trimLast (he : e ∈ trimLast (entriesOf kv)) (hneeds : needsQuote e.value = false)
    (hspace : ∀ b ∈ e.value, isDsnSpace b = false) (htrim : trimTrailing e.value = e.value) :
    e.Reads := by
  refine ⟨?_, fun _ => ?_⟩
  · rw [Plain, hneeds]
    exact hspace
  · rcases text_trimLast he with htext | ⟨-, htext⟩
    · rw [htext, valueText, hneeds]
      rfl
    · rw [htext, htrim]

/-- The entries of a map in order. -/
theorem map_entriesOf (kv : StringMap) :
    (trimLast (entriesOf kv)).map (fun e => (e.key, e.value)) = kv.toList := by
  rw [map_trimLast Prod.mk, entriesOf, map_map]
  exact map_id _

end Athos.Store
