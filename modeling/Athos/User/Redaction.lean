import Athos.Base.Strings

/-!
# Redaction of passwords

`redactPassword` of `src/internal/controller/postgresuser_controller.go`. A match of
`PASSWORD\s+'[^']*'` is fixed by its start, so a text is rewritten piece by piece between its
quotes. A password in a literal has all its quotes doubled, and what the redaction leaves of its
pieces can be read back.
-/

namespace Athos.User

open Base List

/-- The class `\s`. -/
def isRegexSpace (b : UInt8) : Bool :=
  b == 0x09 || b == 0x0A || b == 0x0C || b == 0x0D || b == 0x20

/-- Length of the match of `PASSWORD\s+'[^']*'` at the start of a text. -/
def matchLength (s : GoString) : Option Nat :=
  if (lit "PASSWORD").isPrefixOf s then
    let afterWord := s.drop 8
    let spaces := afterWord.takeWhile isRegexSpace
    if spaces = [] then none
    else
      match afterWord.drop spaces.length with
      | 0x27 :: afterQuote =>
        let body := afterQuote.takeWhile (· != 0x27)
        if afterQuote.contains 0x27 then some (8 + spaces.length + 1 + body.length + 1) else none
      | _ => none
  else none

-- The counter is the number of bytes that belong to the match already replaced.
private def redactFrom : Nat → GoString → GoString
  | _, [] => []
  | n + 1, _ :: s => redactFrom n s
  | 0, b :: s =>
    match matchLength (b :: s) with
    | some len => lit "PASSWORD '[REDACTED]'" ++ redactFrom (len - 1) s
    | none => b :: redactFrom 0 s

/-- `redactPassword`; `postgresuser_controller.go:277-281`: leftmost matches are replaced
from the left and never overlap. -/
def redactPassword (s : GoString) : GoString := redactFrom 0 s

/-! ### Matches -/

/-- The part of a match before its first quote. -/
def IsOpening (s : GoString) : Prop :=
  ∃ spaces, spaces ≠ [] ∧ (∀ b ∈ spaces, isRegexSpace b = true) ∧ s = lit "PASSWORD" ++ spaces

variable {s t o body : GoString}

private theorem takeWhile_append_of_all {p : UInt8 → Bool} (hs : ∀ b ∈ s, p b = true)
    (ht : t.head?.all (!p ·) = true) : (s ++ t).takeWhile p = s := by
  rw [takeWhile_append_of_pos hs]
  cases t with
  | nil => rw [takeWhile_nil, append_nil]
  | cons b t =>
    have hb : p b = false := by simpa using ht
    rw [takeWhile_cons_of_neg (by simp [hb]), append_nil]

private theorem quote_not_mem_opening (ho : IsOpening o) : 0x27 ∉ o := by
  obtain ⟨spaces, -, hs, rfl⟩ := ho
  rw [mem_append, not_or]
  exact ⟨by decide, fun h => absurd (hs _ h) (by decide)⟩

/-- A text without the white space at its end. -/
def trimSpaces (s : GoString) : GoString := s.rdropWhile isRegexSpace

private theorem trimSpaces_opening (ho : IsOpening o) (s : GoString) :
    trimSpaces (s ++ o) = s ++ lit "PASSWORD" := by
  obtain ⟨spaces, -, hs, rfl⟩ := ho
  have hw : lit "PASSWORD" ++ spaces = lit "PASSWOR" ++ 0x44 :: spaces := rfl
  rw [trimSpaces, hw, ← append_assoc, rdropWhile_append_cons (by decide),
    rdropWhile_eq_nil_iff.2 hs, append_assoc]
  rfl

private theorem eq_nil_of_isOpening_append (ho : IsOpening o) (h : IsOpening (s ++ o)) :
    s = [] := by
  have ht := trimSpaces_opening ho s
  rw [← nil_append (s ++ o), trimSpaces_opening h, nil_append] at ht
  exact self_eq_append_left.1 ht

/-- A text ends in the opening of a match. -/
def EndsOpen (s : GoString) : Prop := ∃ u v, s = u ++ v ∧ IsOpening v

private theorem endsOpen_iff : EndsOpen s ↔ lit "PASSWORD" <:+ trimSpaces s ∧ trimSpaces s ≠ s := by
  constructor
  · rintro ⟨u, v, rfl, ho⟩
    rw [trimSpaces_opening ho]
    refine ⟨suffix_append _ _, fun h => ?_⟩
    obtain ⟨spaces, hne, -, rfl⟩ := ho
    exact hne (self_eq_append_right.1 (append_cancel_left h))
  · rintro ⟨⟨u, hu⟩, hne⟩
    have hsplit : u ++ lit "PASSWORD" ++ s.rtakeWhile isRegexSpace = s := by
      rw [hu]
      exact rdropWhile_append_rtakeWhile ..
    refine ⟨u, lit "PASSWORD" ++ s.rtakeWhile isRegexSpace, ?_, _, fun hnil => hne ?_,
      fun b hb => mem_rtakeWhile_imp hb, rfl⟩
    · rw [← append_assoc, hsplit]
    · rw [hnil, append_nil, hu] at hsplit
      exact hsplit

instance (s : GoString) : Decidable (EndsOpen s) := decidable_of_iff _ endsOpen_iff.symm

/-- A text without white space does not end in an opening. -/
theorem not_endsOpen_of_no_space (h : ∀ b ∈ s, isRegexSpace b = false) : ¬ EndsOpen s := by
  rintro ⟨u, v, rfl, spaces, hne, hs, rfl⟩
  obtain ⟨b, t, rfl⟩ := exists_cons_of_ne_nil hne
  have hb := h b (by simp)
  rw [hs b mem_cons_self] at hb
  cases hb

private theorem matchLength_of_opening (ho : IsOpening o) (hb : 0x27 ∉ body)
    (rest : GoString) :
    matchLength (o ++ 0x27 :: (body ++ 0x27 :: rest)) = some (o.length + 1 + body.length + 1) := by
  obtain ⟨spaces, hne, hs, rfl⟩ := ho
  have hpre : (lit "PASSWORD").isPrefixOf
      (lit "PASSWORD" ++ spaces ++ 0x27 :: (body ++ 0x27 :: rest)) = true := by
    rw [ isPrefixOf_iff_prefix, append_assoc]
    exact prefix_append _ _
  have hdrop : (lit "PASSWORD" ++ spaces ++ 0x27 :: (body ++ 0x27 :: rest)).drop 8 =
      spaces ++ 0x27 :: (body ++ 0x27 :: rest) := by
    rw [append_assoc]
    rfl
  have htake : (spaces ++ 0x27 :: (body ++ 0x27 :: rest)).takeWhile isRegexSpace = spaces :=
    takeWhile_append_of_all hs rfl
  have hbody : (body ++ 0x27 :: rest).takeWhile (· != 0x27) = body :=
    takeWhile_append_of_all (fun b hm => bne_iff_ne.2 fun he => hb (he ▸ hm)) rfl
  rw [matchLength, if_pos hpre]
  simp only [hdrop, htake, if_neg hne, drop_left, hbody, contains_append, contains_cons,
    beq_self_eq_true, Bool.true_or, Bool.or_true, ↓reduceIte, length_append]
  rfl

private theorem prefix_of_not_mem {p : GoString} {q : UInt8} (hp : q ∉ p) (h : p <+: s ++ q :: t) :
    p <+: s := by
  obtain ⟨r, hr⟩ := h
  rcases append_eq_append_iff.1 hr with ⟨u, hu, -⟩ | ⟨u, hu, hq⟩
  · exact ⟨u, hu.symm⟩
  · cases u with
    | nil => exact ⟨[], by rw [hu, append_nil, append_nil]⟩
    | cons c u =>
      rw [cons_append, List.cons.injEq] at hq
      exact absurd (by rw [hu, hq.1]; simp) hp

private theorem suffix_of_not_mem {p : GoString} {q : UInt8} (hp : q ∉ p) (h : p <:+ s ++ q :: t) :
    p <:+ t := by
  rw [← reverse_prefix, reverse_append, reverse_cons, append_assoc] at h
  exact reverse_prefix.1 (prefix_of_not_mem (by rwa [mem_reverse]) h)

private theorem all_or_exists_first (p : UInt8 → Bool) (s : GoString) :
    (∀ b ∈ s, p b = true) ∨ ∃ u c v, s = u ++ c :: v ∧ (∀ b ∈ u, p b = true) ∧ p c = false := by
  have hnot := head?_dropWhile_not p s
  have hsplit := takeWhile_append_dropWhile (p := p) (l := s)
  cases hd : s.dropWhile p with
  | nil => exact .inl (dropWhile_eq_nil_iff.1 hd)
  | cons c v =>
    rw [hd] at hnot hsplit
    exact .inr ⟨s.takeWhile p, c, v, hsplit.symm, fun b hb => mem_takeWhile_imp hb, hnot⟩

private theorem isOpening_of_matchLength (hs : 0x27 ∉ s)
    (h : matchLength (s ++ 0x27 :: t) ≠ none) : IsOpening s := by
  unfold matchLength at h
  split at h
  · next hpre =>
    obtain ⟨s', rfl⟩ := prefix_of_not_mem (by decide) ( isPrefixOf_iff_prefix.1 hpre)
    have hdrop : (lit "PASSWORD" ++ s' ++ 0x27 :: t).drop 8 = s' ++ 0x27 :: t := by
      rw [append_assoc]
      rfl
    simp only [hdrop] at h
    rcases all_or_exists_first isRegexSpace s' with hall | ⟨u, c, v, rfl, hu, hc⟩
    · refine ⟨s', fun he => ?_, hall, rfl⟩
      rw [takeWhile_append_of_all hall rfl, if_pos he] at h
      exact h rfl
    · -- The scan for spaces stops at a byte that is neither space nor quote.
      have hq : c ≠ 0x27 := by
        rintro rfl
        exact hs (by simp)
      have htake : (u ++ c :: v ++ 0x27 :: t).takeWhile isRegexSpace = u := by
        rw [append_assoc]
        exact takeWhile_append_of_all hu (by simp [hc])
      rw [htake] at h
      split at h
      · exact absurd rfl h
      · rw [append_assoc, drop_left, cons_append] at h
        split at h
        · next heq => exact absurd (List.cons.inj heq).1 hq
        · exact absurd rfl h
  · exact absurd rfl h

/-! ### Rewriting between quotes -/

private theorem redactFrom_eq (n : Nat) (s : GoString) :
    redactFrom n s = redactPassword (s.drop n) := by
  induction s generalizing n with
  | nil => cases n <;> rfl
  | cons b s ih =>
    cases n with
    | zero => rfl
    | succ n => exact ih n

private theorem redactPassword_of_none {b : UInt8} (h : matchLength (b :: s) = none) :
    redactPassword (b :: s) = b :: redactPassword s := by
  rw [redactPassword, redactFrom, h]
  rfl

private theorem redactPassword_opening {rest : GoString} (ho : IsOpening o)
    (hb : 0x27 ∉ body) :
    redactPassword (o ++ 0x27 :: (body ++ 0x27 :: rest)) =
      lit "PASSWORD '[REDACTED]'" ++ redactPassword rest := by
  have hm := matchLength_of_opening ho hb rest
  obtain ⟨b, o', rfl⟩ : ∃ b o', o = b :: o' := by
    obtain ⟨spaces, -, -, rfl⟩ := ho
    exact ⟨_, _, rfl⟩
  rw [cons_append] at hm ⊢
  rw [redactPassword, redactFrom, hm]
  simp only [redactFrom_eq]
  congr 2
  have hl : (b :: o').length + 1 + body.length + 1 - 1 =
      (o' ++ 0x27 :: (body ++ [0x27])).length := by
    simp only [length_cons, length_append, length_nil]
    omega
  have hr : o' ++ 0x27 :: (body ++ 0x27 :: rest) = (o' ++ 0x27 :: (body ++ [0x27])) ++ rest := by
    simp only [append_assoc, cons_append, nil_append]
  rw [hl, hr, drop_left]

/-- Text before a quote that does not end in an opening is kept. -/
theorem redactPassword_keep (t : GoString) (hs : 0x27 ∉ s) (ho : ¬ EndsOpen s) :
    redactPassword (s ++ 0x27 :: t) = s ++ 0x27 :: redactPassword t := by
  induction s with
  | nil =>
    apply redactPassword_of_none
    by_contra h
    exact ho ⟨[], [], rfl, isOpening_of_matchLength (s := []) not_mem_nil h⟩
  | cons b s ih =>
    have hm : matchLength (b :: (s ++ 0x27 :: t)) = none := by
      by_contra h
      exact ho ⟨[], b :: s, rfl, isOpening_of_matchLength (s := b :: s) hs h⟩
    have hs' : 0x27 ∉ s := fun h => hs (mem_cons_of_mem b h)
    have ho' : ¬ EndsOpen s := fun ⟨u, v, he, hv⟩ => ho ⟨b :: u, v, by rw [he]; rfl, hv⟩
    rw [cons_append, redactPassword_of_none hm, ih hs' ho']
    rfl

/-- The text before the opening of a match is kept. -/
theorem redactPassword_hit (rest : GoString) (hs : 0x27 ∉ s) (ho : IsOpening o)
    (hb : 0x27 ∉ body) :
    redactPassword (s ++ (o ++ 0x27 :: (body ++ 0x27 :: rest))) =
      s ++ (lit "PASSWORD '[REDACTED]'" ++ redactPassword rest) := by
  induction s with
  | nil => exact redactPassword_opening ho hb
  | cons b s ih =>
    have hquote : 0x27 ∉ b :: s ++ o := by
      rw [mem_append, not_or]
      exact ⟨hs, quote_not_mem_opening ho⟩
    have hm : matchLength (b :: (s ++ (o ++ 0x27 :: (body ++ 0x27 :: rest)))) = none := by
      by_contra h
      have heq : b :: (s ++ (o ++ 0x27 :: (body ++ 0x27 :: rest))) =
          b :: s ++ o ++ 0x27 :: (body ++ 0x27 :: rest) := by
        simp only [cons_append, append_assoc]
      rw [heq] at h
      exact absurd (eq_nil_of_isOpening_append ho (isOpening_of_matchLength hquote h))
        (cons_ne_nil b s)
    rw [cons_append, redactPassword_of_none hm, ih fun h => hs (mem_cons_of_mem b h)]
    rfl

/-- A text with one quote at most is kept. -/
theorem redactPassword_of_count_le (hs : s.count 0x27 ≤ 1) : redactPassword s = s := by
  induction s with
  | nil => rfl
  | cons b s ih =>
    have hm : matchLength (b :: s) = none := by
      unfold matchLength
      split
      · simp only
        split
        · rfl
        · split
          · next afterQuote h =>
            rw [drop_drop] at h
            have hcount := (h ▸ drop_sublist _ (b :: s)).count_le 0x27
            rw [count_cons_self] at hcount
            have hnone : 0x27 ∉ afterQuote :=
              count_eq_zero.1 (Nat.le_zero.1 (Nat.le_of_succ_le_succ (hcount.trans hs)))
            rw [if_neg (by simpa using hnone)]
          · rfl
      · rfl
    rw [redactPassword_of_none hm, ih ((count_le_count_cons ..).trans hs)]

/-! ### Doubled quotes -/

/-- A piece of text with one blank for the white space of an opening at its end. -/
def tidy (s : GoString) : GoString := if EndsOpen s then trimSpaces s ++ [0x20] else s

/-- A tidy piece before two quotes as the redaction leaves it: if it ends in an opening, the quotes
are a match with no body. -/
def marked (k : GoString) : GoString :=
  k ++ 0x27 :: if EndsOpen k then lit "[REDACTED]'" else [0x27]

/-- Pieces of text between quotes. -/
def joined (ss : List GoString) (l : GoString) : GoString := List.intercalate [0x27] (ss ++ [l])

/-- Pieces of text that each end in two quotes, and text behind them. -/
def doubled (ss : List GoString) (t : GoString) : GoString := ss.flatMap (· ++ [0x27, 0x27]) ++ t

/-- No piece has a quote. -/
abbrev QuoteFree (ss : List GoString) : Prop := ∀ s ∈ ss, 0x27 ∉ s

variable {l l' t' : GoString} {ss ks ks' : List GoString}

/-- A text that ends in an opening has one blank there. -/
theorem tidy_append_opening (u : GoString) (ho : IsOpening o) :
    tidy (u ++ o) = u ++ lit "PASSWORD " := by
  rw [tidy, if_pos ⟨u, o, rfl, ho⟩, trimSpaces_opening ho, append_assoc]
  rfl

/-- The beginning of a password clause is an opening. -/
theorem isOpening_password : IsOpening (lit "PASSWORD ") :=
  ⟨[0x20], by decide, forall_mem_of_all (by decide), by decide⟩

/-- The quotes after an opening are redacted. -/
theorem marked_append_password (u : GoString) :
    marked (u ++ lit "PASSWORD ") = u ++ lit "PASSWORD '[REDACTED]'" := by
  rw [marked, if_pos ⟨u, _, rfl, isOpening_password⟩, append_assoc]
  rfl

/-- A tidy piece has no quote either. -/
theorem quote_not_mem_tidy (hs : 0x27 ∉ s) : 0x27 ∉ tidy s := by
  unfold tidy
  split
  · rw [mem_append, not_or]
    exact ⟨fun h => hs (( rdropWhile_prefix isRegexSpace s).subset h), by decide⟩
  · exact hs

/-- Tidy pieces have no quotes either. -/
theorem quoteFree_map_tidy (hss : QuoteFree ss) : QuoteFree (ss.map tidy) :=
  forall_mem_map.2 fun s hs => quote_not_mem_tidy (hss s hs)

/-- A quote is kept. -/
theorem redactPassword_quote (t : GoString) :
    redactPassword (0x27 :: t) = 0x27 :: redactPassword t :=
  redactPassword_keep (s := []) t not_mem_nil (not_endsOpen_of_no_space (forall_mem_nil _))

private theorem redactPassword_piece (hs : 0x27 ∉ s) (t : GoString) :
    redactPassword (s ++ 0x27 :: 0x27 :: t) = marked (tidy s) ++ redactPassword t := by
  by_cases ho : EndsOpen s
  · obtain ⟨u, v, rfl, hv⟩ := ho
    have hu : 0x27 ∉ u := fun h => hs (mem_append_left v h)
    have hhit : redactPassword (u ++ (v ++ 0x27 :: ([] ++ 0x27 :: t))) = _ :=
      redactPassword_hit t hu hv not_mem_nil
    rw [tidy_append_opening u hv, marked_append_password, append_assoc, append_assoc]
    exact hhit
  · rw [redactPassword_keep _ hs ho, redactPassword_quote, tidy, if_neg ho, marked, if_neg ho,
      append_assoc]
    rfl

/-- The first piece before two quotes. -/
theorem doubled_cons (s : GoString) (ss : List GoString) (t : GoString) :
    doubled (s :: ss) t = s ++ 0x27 :: 0x27 :: doubled ss t := by
  simp [doubled]

/-- Doubled quotes are rewritten piece by piece. -/
theorem redactPassword_doubled (hss : QuoteFree ss) (t : GoString) :
    redactPassword (doubled ss t) = (ss.map tidy).flatMap marked ++ redactPassword t := by
  induction ss with
  | nil => rfl
  | cons s ss ih =>
    obtain ⟨hs, hss⟩ := forall_mem_cons.1 hss
    rw [doubled_cons, redactPassword_piece hs, ih hss, map_cons, flatMap_cons, append_assoc]

/-- Text without a quote is its only piece. -/
theorem joined_nil (l : GoString) : joined [] l = l := intercalate_singleton

/-- The first piece before a quote. -/
theorem joined_cons (s : GoString) (ss : List GoString) (l : GoString) :
    joined (s :: ss) l = s ++ 0x27 :: joined ss l := by
  rw [joined, cons_append, intercalate_cons_of_ne_nil (by simp), append_assoc]
  rfl

/-- Every text is cut at its quotes. -/
theorem exists_joined (s : GoString) : ∃ ss l, s = joined ss l ∧ QuoteFree ss ∧ 0x27 ∉ l := by
  obtain h | ⟨ss, l, h⟩ := eq_nil_or_concat (s.splitOn 0x27)
  · exact absurd h (splitOn_ne_nil _ _)
  · rw [concat_eq_append] at h
    have hfree : ∀ part ∈ ss ++ [l], 0x27 ∉ part := h ▸ fun _ => not_mem_of_mem_splitOn
    refine ⟨ss, l, ?_, fun s hs => hfree s (mem_append_left _ hs), hfree l (by simp)⟩
    rw [joined, ← h, intercalate_splitOn]

/-- A literal doubles the quotes between the pieces. -/
theorem replaceByte_joined (hss : QuoteFree ss) (hl : 0x27 ∉ l) :
    replaceByte 0x27 [0x27, 0x27] (joined ss l) = doubled ss l := by
  induction ss with
  | nil => rw [joined_nil, replaceByte_of_not_mem hl, doubled, flatMap_nil, nil_append]
  | cons s ss ih =>
    obtain ⟨hs, hss⟩ := forall_mem_cons.1 hss
    have hquote : ∀ t, replaceByte 0x27 [0x27, 0x27] (0x27 :: t) =
        0x27 :: 0x27 :: replaceByte 0x27 [0x27, 0x27] t := fun _ => rfl
    rw [joined_cons, doubled_cons, replaceByte_append, replaceByte_of_not_mem hs, hquote, ih hss]

/-- Pieces before the last quote do not matter for what a text ends in. -/
theorem endsOpen_joined : EndsOpen (joined ss l) ↔ EndsOpen l := by
  induction ss with
  | nil => rw [joined_nil]
  | cons s ss ih =>
    rw [← ih, joined_cons]
    constructor
    · rintro ⟨u, v, heq, hv⟩
      obtain ⟨w, hw⟩ := suffix_of_not_mem (quote_not_mem_opening hv) ⟨u, heq.symm⟩
      exact ⟨w, v, hw.symm, hv⟩
    · rintro ⟨u, v, heq, hv⟩
      exact ⟨s ++ 0x27 :: u, v, by rw [heq, append_assoc, cons_append], hv⟩

/-- The pieces of a text between its quotes, with one blank for the white space between a
`PASSWORD` and a quote that follows. -/
def pieces (s : GoString) : List GoString :=
  (s.splitOn 0x27).dropLast.map tidy ++ (s.splitOn 0x27).getLast?.toList

/-- The pieces of joined pieces. -/
theorem pieces_joined (hss : QuoteFree ss) (hl : 0x27 ∉ l) :
    pieces (joined ss l) = ss.map tidy ++ [l] := by
  have hfree : ∀ part ∈ ss ++ [l], 0x27 ∉ part :=
    forall_mem_append.2 ⟨hss, forall_mem_singleton.2 hl⟩
  rw [pieces, joined, splitOn_intercalate _ hfree (by simp), dropLast_concat, getLast?_concat]
  rfl

private theorem cut_inj (hs : 0x27 ∉ s) (ht : 0x27 ∉ t)
    (h : s ++ 0x27 :: l = t ++ 0x27 :: l') : s = t ∧ l = l' := by
  have hcut := congrArg (cutByte 0x27) h
  rw [cutByte_append_cons hs, cutByte_append_cons ht] at hcut
  exact Prod.mk.inj hcut

/-- Marked pieces, and text with a quote after which no piece goes on, are read back. -/
theorem marked_inj (hks : QuoteFree ks) (hks' : QuoteFree ks') (hl : 0x27 ∉ l) (hl' : 0x27 ∉ l')
    (ht : t.head? = some 0x3B) (ht' : t'.head? = some 0x3B)
    (h : ks.flatMap marked ++ (l ++ 0x27 :: t) = ks'.flatMap marked ++ (l' ++ 0x27 :: t')) :
    ks = ks' ∧ l = l' ∧ t = t' := by
  have hend : ∀ {k l t r : GoString}, 0x27 ∉ k → 0x27 ∉ l →
      t.head? = some 0x3B → marked k ++ r ≠ l ++ 0x27 :: t := by
    intro k l t r hk hl ht heq
    rw [marked, append_assoc, cons_append] at heq
    obtain ⟨-, rfl⟩ := cut_inj hk hl heq
    split at ht <;> cases ht
  induction ks generalizing ks' with
  | nil =>
    cases ks' with
    | nil =>
      obtain ⟨rfl, rfl⟩ := cut_inj hl hl' h
      exact ⟨rfl, rfl, rfl⟩
    | cons k' ks' =>
      rw [flatMap_cons, append_assoc] at h
      exact absurd h.symm (hend (forall_mem_cons.1 hks').1 hl ht)
  | cons k ks ih =>
    obtain ⟨hk, hks⟩ := forall_mem_cons.1 hks
    rw [flatMap_cons, append_assoc] at h
    cases ks' with
    | nil => exact absurd h (hend hk hl' ht')
    | cons k' ks' =>
      obtain ⟨hk', htail⟩ := forall_mem_cons.1 hks'
      rw [flatMap_cons, append_assoc, marked, marked, append_assoc, append_assoc] at h
      obtain ⟨rfl, hrest⟩ := cut_inj hk hk' h
      obtain ⟨rfl, hl, ht⟩ := ih hks htail (append_cancel_left hrest)
      exact ⟨rfl, hl, ht⟩

end Athos.User
