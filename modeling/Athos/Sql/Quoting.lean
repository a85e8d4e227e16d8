import Athos.Sql.Lexer

/-!
# Lexing quoted values

Doubling the quote byte makes any value without NUL one token, whatever text follows, and a
dollar-quoted body ends exactly at the first repetition of its delimiter. Every rule says how a text
is read before any text that does not extend it, so the rules compose.
-/

namespace Athos.Sql

open Base List

/-- Value of a quoted token as it is written: the quote byte doubled inside, and
around. -/
def quoted (q : UInt8) (v : GoString) : GoString := q :: (replaceByte q [q, q] v ++ [q])

/-- The bytes of a quoted value. -/
theorem mem_quoted {q b : UInt8} {v : GoString} : b ∈ quoted q v ↔ b = q ∨ b ∈ v := by
  simp only [quoted, mem_cons, mem_append, mem_replaceByte_double, not_mem_nil, or_false]
  tauto

instance (m : Mode) (s : GoString) (n : Mode) (ts : List Token) :
    Decidable (Transduces step m s n ts) :=
  inferInstanceAs (Decidable (transduce step m s = (n, ts)))

variable {q b : UInt8} {v w s seg acc ds body : GoString} {m : Mode} {ts : List Token}

/-- Where a quoted value ends, and what it is, can be seen from the text. -/
theorem quoted_append_inj {t : GoString} (hs : s.head? ≠ some q) (ht : t.head? ≠ some q)
    (h : quoted q v ++ s = quoted q w ++ t) : v = w ∧ s = t := by
  have hbody : replaceByte q [q, q] v ++ q :: s = replaceByte q [q, q] w ++ q :: t := by
    simpa [quoted] using h
  have hcons : ∀ b u, replaceByte q [q, q] (b :: u) =
      (if b = q then [q, q] else [b]) ++ replaceByte q [q, q] u := fun _ _ => rfl
  clear h
  induction v generalizing w with
  | nil =>
    cases w with
    | nil => exact ⟨rfl, (List.cons.inj hbody).2⟩
    | cons c w =>
      rw [hcons] at hbody
      split at hbody
      · exact absurd (by rw [(List.cons.inj hbody).2]; rfl) hs
      · next hc => exact absurd (List.cons.inj hbody).1.symm hc
  | cons b v ih =>
    cases w with
    | nil =>
      rw [hcons] at hbody
      split at hbody
      · exact absurd (by rw [← (List.cons.inj hbody).2]; rfl) ht
      · next hb => exact absurd (List.cons.inj hbody).1 hb
    | cons c w =>
      rw [hcons, hcons] at hbody
      split at hbody <;> split at hbody
      · next hb hc =>
        obtain ⟨hv, hst⟩ := ih (by simpa using hbody)
        exact ⟨by rw [hb, hc, hv], hst⟩
      · next hb hc => exact absurd (List.cons.inj hbody).1.symm hc
      · next hb hc => exact absurd (List.cons.inj hbody).1 hb
      · next hb hc =>
        obtain ⟨hv, hst⟩ := ih (List.cons.inj hbody).2
        exact ⟨by rw [(List.cons.inj hbody).1, hv], hst⟩

/-! ### Quoted identifiers and literals -/

private theorem transduces_doubled (inside : GoString → Mode)
    (hquote : ∀ acc, Transduces step (inside acc) [q, q] (inside (q :: acc)) [])
    (hbyte : ∀ acc b, b ≠ q → b ≠ 0x00 → step (inside acc) b = (inside (b :: acc), []))
    (h0 : 0x00 ∉ v) (acc : GoString) :
    Transduces step (inside acc) (replaceByte q [q, q] v) (inside (v.reverse ++ acc)) [] := by
  induction v generalizing acc with
  | nil => rfl
  | cons b v ih =>
    obtain ⟨hb, hv⟩ := not_or.1 (mt mem_cons.2 h0)
    rw [replaceByte, flatMap_cons, reverse_cons, append_assoc]
    split
    · next h =>
      subst h
      exact (hquote acc).append (ih hv (b :: acc))
    · next h => exact Transduces.silent (hbyte acc b h (Ne.symm hb)) (ih hv (b :: acc))

private theorem transduces_open_literal (h0 : 0x00 ∉ v) :
    Transduces step .start (0x27 :: replaceByte 0x27 [0x27, 0x27] v) (.literal v.reverse) [] := by
  have h := transduces_doubled .literal (q := 0x27) (fun _ => rfl)
    (fun acc b hb hb0 => by simp only [step, if_neg hb, if_neg hb0]) h0 []
  rw [append_nil] at h
  exact Transduces.silent rfl h

/-- A literal that is not closed is an error. -/
theorem lexFrom_open_literal (h0 : 0x00 ∉ v) :
    lexFrom .start (0x27 :: replaceByte 0x27 [0x27, 0x27] v) = none := by
  rw [lexFrom, transduces_open_literal h0]
  rfl

/-- A token that is pending comes before those of the rest. -/
theorem lexFrom_close {t : Token} (hf : finish m = some [t])
    (hs : ∀ b, s.head? = some b → step m b = thenOpen t b) :
    lexFrom m s = (lexFrom .start s).map (t :: ·) := by
  cases s with
  | nil =>
    rw [lexFrom, transduce, hf]
    rfl
  | cons b s =>
    rw [lexFrom_cons, lexFrom_cons, hs b rfl, Option.map_map]
    rfl

private theorem transduces_quote_literal (h0 : 0x00 ∉ v) :
    Transduces step .start (quoted 0x27 v) (.literalQuote v.reverse) [] := by
  have hclose : Transduces step (.literal v.reverse) [0x27] (.literalQuote v.reverse) [] := rfl
  exact (transduces_open_literal h0).append hclose

private theorem transduces_quote_ident (h0 : 0x00 ∉ v) :
    Transduces step .start (quoted 0x22 v) (.identQuote v.reverse) [] := by
  have hb := transduces_doubled .ident (q := 0x22) (fun _ => rfl)
    (fun acc b hb hb0 => by simp only [step, if_neg hb, if_neg hb0]) h0 []
  rw [append_nil] at hb
  have hopen : step .start 0x22 = (.ident [], []) := rfl
  have hclose : Transduces step (.ident v.reverse) [0x22] (.identQuote v.reverse) [] := rfl
  exact (Transduces.silent hopen hb).append hclose

/-! ### A quoted value before any text -/

/-- After an error there are no tokens. -/
theorem lexFrom_failed (s : GoString) : lexFrom .failed s = none := by
  induction s with
  | nil => rfl
  | cons b s ih => rw [lexFrom_cons, step, ih]; rfl

/-- A quoted identifier is one token before any text that does not begin with its quote. -/
theorem lexes_ident (hv : v ≠ []) (h0 : 0x00 ∉ v) (hq : s.head? ≠ some 0x22) :
    Lexes (quoted 0x22 v) [.ident (truncateIdentifier v)] s := by
  have hr : v.reverse ≠ [] := fun he => hv (reverse_eq_nil_iff.1 he)
  rw [Lexes, lexFrom_append (transduces_quote_ident h0), lexFrom_close (t := .ident _),
    Option.map_map]
  · rfl
  · simp only [finish, if_neg hr, reverse_reverse]
  · intro b hb
    have hne : b ≠ 0x22 := fun he => hq (by rw [hb, he])
    simp only [step, if_neg hne, if_neg hr, reverse_reverse]

/-- The empty quoted identifier is an error. -/
theorem lexFrom_ident_nil (hq : s.head? ≠ some 0x22) :
    lexFrom .start (quoted 0x22 [] ++ s) = none := by
  rw [lexFrom_append (transduces_quote_ident not_mem_nil)]
  cases s with
  | nil => rfl
  | cons b s =>
    have hb : b ≠ 0x22 := fun he => hq (by rw [he]; rfl)
    simp only [lexFrom_cons, step, hb, ↓reduceIte, reverse_nil, lexFrom_failed, Option.map_none]

/-- The text after a literal, from a place in the gap after it, continues it. -/
def resumes : Gap → GoString → Bool
  | _, [] => false
  | .blank newline, b :: s =>
    if newline && b == 0x27 then true
    else if isNewline b then resumes (.blank true) s
    else if isSpace b then resumes (.blank newline) s
    else if b = 0x2D then resumes .dash s
    else false
  | .dash, b :: s => b == 0x2D && resumes .comment s
  | .comment, b :: s => resumes (if isNewline b then .blank true else .comment) s

/-- The state the scanner would be in if no literal were pending. -/
def Gap.mode : Gap → Mode
  | .blank _ => .start
  | .dash => .dash
  | .comment => .lineComment

private theorem isSpace_of_isNewline (h : isNewline b = true) : isSpace b = true := by
  have hb : b = 0x0A ∨ b = 0x0D := by simpa [isNewline] using h
  rcases hb with rfl | rfl <;> rfl

private theorem lexFrom_afterLiteral {newline : Bool}
    (ih : ∀ g, resumes g s = false → lexFrom (.literalGap acc g) s =
      (lexFrom g.mode s).map (.literal acc.reverse :: ·)) (hq : (newline && b == 0x27) = false)
    (h : resumes (.blank newline) (b :: s) = false) :
    (lexFrom (afterLiteral acc newline b).1 s).map ((afterLiteral acc newline b).2 ++ ·) =
      (lexFrom .start (b :: s)).map (.literal acc.reverse :: ·) := by
  rw [resumes, hq] at h
  rw [lexFrom_cons, step]
  simp only [Bool.false_eq_true, ↓reduceIte] at h
  unfold afterLiteral
  split_ifs at h ⊢ with hn hs hd
  · rw [openToken, if_pos (isSpace_of_isNewline hn), ih _ h]
    simp [Gap.mode, Function.comp_def]
  · rw [openToken, if_pos hs, ih _ h]
    simp [Gap.mode, Function.comp_def]
  · subst hd
    rw [ih _ h]
    simp [Gap.mode, Function.comp_def, openToken, isSpace, isIdentStart, isDigitByte]
  · simp [thenOpen, Function.comp_def]

private theorem lexFrom_literalGap (acc : GoString) (g : Gap) (s : GoString)
    (h : resumes g s = false) :
    lexFrom (.literalGap acc g) s = (lexFrom g.mode s).map (.literal acc.reverse :: ·) := by
  induction s generalizing g with
  | nil => cases g <;> rfl
  | cons b s ih =>
    cases g with
    | blank newline =>
      have hq : (newline && b == 0x27) = false := by
        by_contra hc
        rw [resumes, if_pos (Bool.not_eq_false _ ▸ hc)] at h
        cases h
      rw [lexFrom_cons, step, hq]
      exact lexFrom_afterLiteral ih hq h
    | dash =>
      rw [resumes] at h
      rw [lexFrom_cons, Gap.mode, lexFrom_cons, step, step]
      split_ifs with hb
      · subst hb
        rw [ih .comment h]
        simp [Gap.mode, Function.comp_def]
      · simp [thenOpen, Function.comp_def]
    | comment =>
      rw [resumes] at h
      rw [lexFrom_cons, Gap.mode, lexFrom_cons, step, step]
      by_cases hnl : isNewline b = true
      · have h0 : b ≠ 0x00 := by
          rintro rfl
          cases hnl
        rw [if_pos hnl] at h
        rw [if_neg h0, if_pos hnl, if_pos hnl, ih _ h]
        simp [Gap.mode, Function.comp_def]
      · rw [if_neg hnl] at h
        rw [if_neg hnl, if_neg hnl]
        split
        · simp only [lexFrom_failed, Option.map_none]
        · rw [ih _ h]
          simp [Gap.mode, Function.comp_def]

/-- A quoted literal is one token before any text that neither begins with its quote nor
continues it after a newline. -/
theorem lexes_literal (h0 : 0x00 ∉ v) (hq : s.head? ≠ some 0x27)
    (h : resumes (.blank false) s = false) : Lexes (quoted 0x27 v) [.literal v] s := by
  rw [Lexes, lexFrom_append (transduces_quote_literal h0)]
  cases s with
  | nil => simp [lexFrom, transduce, finish]
  | cons b s =>
    have hb : b ≠ 0x27 := fun he => hq (by rw [he]; rfl)
    rw [lexFrom_cons, step, if_neg hb]
    have hgap := lexFrom_afterLiteral (fun g hg => lexFrom_literalGap v.reverse g s hg)
      (Bool.false_and _) h
    rw [hgap, reverse_reverse]
    simp [Function.comp_def]

/-! ### Numbers and words -/

private theorem transduces_digits (hd : ∀ b ∈ ds, isDigitByte b = true) (acc : GoString) :
    Transduces step (.number acc) ds (.number (ds.reverse ++ acc)) [] :=
  Transduces.collect (fun b hb acc => by simp only [step, hd b hb, ↓reduceIte]) acc

/-- A digit begins a number. -/
theorem openToken_digit (h : isDigitByte b = true) : openToken b = (.number [b], []) := by
  have hspace : isSpace b = false := by grind [isDigitByte, isSpace]
  have hident : isIdentStart b = false := by grind [isDigitByte, isIdentStart]
  rw [openToken, hspace, hident, if_neg Bool.false_ne_true, if_neg Bool.false_ne_true, if_pos h]

private theorem transduces_open_number (hd : ∀ b ∈ ds, isDigitByte b = true) (hds : ds ≠ []) :
    Transduces step .start ds (.number ds.reverse) [] := by
  cases ds with
  | nil => exact absurd rfl hds
  | cons d ds =>
    rw [reverse_cons]
    exact Transduces.silent (openToken_digit (hd d mem_cons_self))
      (transduces_digits (fun c hc => hd c (mem_cons_of_mem d hc)) [d])

/-- The tokens of a signed integer. -/
def intTokens : Int → List Token
  | .ofNat n => [.number (decimalNat n)]
  | .negSucc n => [.symbol 0x2D, .number (decimalNat (n + 1))]

/-- A formatted integer is its sign and digits before any text that does not extend it. -/
theorem lexes_decimal (i : Int) (hs : s.head?.all (fun b => !isDigitByte b && !isIdentStart b)) :
    Lexes (decimal i) (intTokens i) s := by
  have hn : ∀ n, Lexes (decimalNat n) [.number (decimalNat n)] s := by
    intro n
    have hopen := transduces_open_number (fun b hb => isDigitByte_of_mem_decimalNat (n := n) hb)
      (decimalNat_ne_nil n)
    rw [Lexes, lexFrom_append hopen, lexFrom_close (t := .number (decimalNat n)), Option.map_map]
    · rfl
    · rw [finish, reverse_reverse]
    · intro b hb
      have hend : isDigitByte b = false ∧ isIdentStart b = false := by simpa [hb] using hs
      simp only [step, hend, Bool.false_eq_true, ↓reduceIte, reverse_reverse]
  cases i with
  | ofNat n => exact hn n
  | negSucc n =>
    have hdash : Lexes [0x2D] [.symbol 0x2D] (decimalNat (n + 1) ++ s) := by
      have hopen : Transduces step .start [0x2D] .dash [] := rfl
      rw [Lexes, lexFrom_append hopen, lexFrom_close (t := .symbol 0x2D) rfl, Option.map_map]
      · rfl
      · intro b hb
        rw [head?_append_of_ne_nil _ (decimalNat_ne_nil _)] at hb
        have hne : b ≠ 0x2D := fun he =>
          head_decimalNat_ne (b := 0x2D) (by decide) (n + 1) (by rw [hb, he])
        simp only [step, if_neg hne]
    exact hdash.append (hn (n + 1))

/-- The words of a text, split at spaces; the accumulator holds the word being read. -/
def wordsFrom (acc : GoString) : GoString → List GoString
  | [] => if acc = [] then [] else [acc.reverse]
  | b :: s =>
    if b = 0x20 then (if acc = [] then [] else [acc.reverse]) ++ wordsFrom [] s
    else wordsFrom (b :: acc) s

private theorem flatten_wordsFrom (s acc : GoString) :
    (wordsFrom acc s).flatten = acc.reverse ++ s.filter (· != 0x20) := by
  have hacc : ∀ acc : GoString,
      (if acc = [] then [] else [acc.reverse]).flatten = acc.reverse := by
    intro acc
    split
    · next h => rw [h]; rfl
    · exact flatten_singleton
  induction s generalizing acc with
  | nil => rw [wordsFrom, hacc, filter_nil, append_nil]
  | cons b s ih =>
    rw [wordsFrom]
    split
    · next hb =>
      rw [flatten_append, hacc, ih]
      simp [hb]
    · next hb =>
      rw [ih]
      simp [hb]

/-- Words have the bytes of the text without its blanks. -/
theorem mem_wordsFrom_iff : (∃ w ∈ wordsFrom [] s, b ∈ w) ↔ b ∈ s ∧ b ≠ 0x20 := by
  rw [← mem_flatten, flatten_wordsFrom]
  simp

/-- Word tokens of a text of words, upper-cased as the scanner does. -/
def wordTokens (s : GoString) : List Token := (wordsFrom [] s).map fun w => .word (w.map asciiUpper)

/-- Unquoted words. -/
def keywords (s : String) : List Token := wordTokens (lit s)

private theorem openToken_identStart (h : isIdentStart b = true) :
    openToken b = (.word [b], []) := by
  have hspace : isSpace b = false := by grind [isIdentStart, isSpace]
  rw [openToken, hspace, if_neg Bool.false_ne_true, if_pos h]

private def wordMode (acc : GoString) : Mode := if acc = [] then .start else .word acc

private theorem transduces_wordsFrom (hs : ∀ b ∈ s, b = 0x20 ∨ isIdentStart b = true)
    (acc : GoString) :
    Transduces step (wordMode acc) (s ++ [0x20]) .start
      ((wordsFrom acc s).map fun w => .word (w.map asciiUpper)) := by
  have hspace : ∀ acc, Transduces step (wordMode acc) [0x20] .start
      ((if acc = [] then [] else [acc.reverse]).map fun w => .word (w.map asciiUpper)) := by
    intro acc
    by_cases ha : acc = []
    · subst ha
      rfl
    · simp only [wordMode, if_neg ha]
      rfl
  induction s generalizing acc with
  | nil => exact hspace acc
  | cons b s ih =>
    have ih := ih fun c hc => hs c (mem_cons_of_mem b hc)
    rw [cons_append, wordsFrom]
    split
    · next hb =>
      subst hb
      rw [map_append]
      exact (hspace acc).append (ih [])
    · next hb =>
      have hi := (hs b mem_cons_self).resolve_left hb
      have hstep : step (wordMode acc) b = (wordMode (b :: acc), []) := by
        by_cases ha : acc = []
        · subst ha
          exact openToken_identStart hi
        · simp only [wordMode, if_neg ha, step, isIdentCont, hi, Bool.true_or, ↓reduceIte,
            cons_ne_nil]
      exact Transduces.silent hstep (ih (b :: acc))

/-- A text of words and spaces before a space is its words. -/
theorem lexes_words (hw : ∀ b ∈ w, b = 0x20 ∨ isIdentStart b = true) (hs : s.head? = some 0x20) :
    Lexes w (wordTokens w) s := by
  obtain ⟨s, rfl⟩ := head?_eq_some_iff.1 hs
  have hspace : lexFrom .start (0x20 :: s) = lexFrom .start s := by
    rw [lexFrom_cons]
    exact Option.map_id'
  have hrun := lexFrom_append (t := s) (transduces_wordsFrom hw [])
  rw [append_assoc, singleton_append] at hrun
  rw [Lexes, hspace]
  exact hrun

private theorem transduces_identCont (h : ∀ b ∈ w, isIdentCont b = true) (acc : GoString) :
    Transduces step (.word acc) w (.word (w.reverse ++ acc)) [] :=
  Transduces.collect (fun b hb acc => by simp only [step, h b hb, ↓reduceIte]) acc

/-- An unquoted word is one token before any text that does not extend it. -/
theorem lexes_word (hw : w.head?.any isIdentStart = true) (h : ∀ b ∈ w, isIdentCont b = true)
    (hs : s.head?.all (!isIdentCont ·) = true) : Lexes w [.word (w.map asciiUpper)] s := by
  cases w with
  | nil => cases hw
  | cons b w =>
    have hopen : Transduces step .start (b :: w) (.word (b :: w).reverse) [] := by
      rw [reverse_cons]
      exact Transduces.silent (openToken_identStart hw)
        (transduces_identCont (fun c hc => h c (mem_cons_of_mem b hc)) [b])
    have htoken : wordToken (b :: w).reverse = .word ((b :: w).map asciiUpper) := by
      rw [wordToken, reverse_reverse]
    rw [Lexes, lexFrom_append hopen, lexFrom_close (by rw [finish, htoken]), Option.map_map]
    · rfl
    · intro c hc
      have hend : isIdentCont c = false := by simpa [hc] using hs
      simp only [step, hend, Bool.false_eq_true, ↓reduceIte, htoken]

/-- Words and quoted identifiers. -/
def Token.isName : Token → Bool
  | .word _ | .ident _ => true
  | _ => false

/-- States whose first token is no name. -/
def Mode.unnamed : Mode → Bool
  | .number _ | .dollarTag _ | .dollarBody _ _ | .failed => true
  | _ => false

private theorem unnamed_step (hm : m.unnamed = true) (b : UInt8) :
    (step m b).1.unnamed = true ∧ (step m b).2 = [] ∨ ∃ t ∈ (step m b).2, t.isName = false := by
  cases m with
  | number acc =>
    rw [step]
    split_ifs
    · exact .inl ⟨rfl, rfl⟩
    · exact .inl ⟨rfl, rfl⟩
    · exact .inr ⟨_, mem_cons_self, rfl⟩
  | dollarTag tag =>
    rw [step]
    split_ifs <;> exact .inl ⟨rfl, rfl⟩
  | dollarBody tag acc =>
    rw [step]
    split_ifs
    · exact .inr ⟨_, mem_cons_self, rfl⟩
    · exact .inl ⟨rfl, rfl⟩
    · exact .inl ⟨rfl, rfl⟩
  | failed => exact .inl ⟨rfl, rfl⟩
  | _ => cases hm

/-- What starts with a digit or a dollar sign is not made of names. -/
theorem exists_of_unnamed (hm : m.unnamed = true) (h : lexFrom m s = some ts) :
    ∃ t ∈ ts, t.isName = false := by
  induction s generalizing m ts with
  | nil =>
    cases m with
    | number =>
      cases h
      exact ⟨_, mem_cons_self, rfl⟩
    | dollarTag | dollarBody | failed => cases h
    | _ => cases hm
  | cons b s ih =>
    rw [lexFrom_cons] at h
    obtain ⟨us, hus, rfl⟩ := Option.map_eq_some_iff.1 h
    rcases unnamed_step hm b with ⟨hnext, hnil⟩ | ⟨t, ht, hname⟩
    · rw [hnil]
      exact ih hnext hus
    · exact ⟨t, mem_append_left us ht, hname⟩

private theorem symbol_of_mem_openToken {c : UInt8} (h : .symbol b ∈ (openToken c).2) : b = c := by
  unfold openToken at h
  split_ifs at h <;> simp_all

private theorem symbol_of_mem_step {c : UInt8} (h : .symbol b ∈ (step m c).2) :
    b = c ∨ b = 0x2D ∨ b = 0x2F := by
  have hopen : ∀ {t : Token}, .symbol b ∈ (thenOpen t c).2 → t = .symbol b ∨ b = c := by
    intro t ht
    rcases mem_cons.1 ht with ht | ht
    · exact .inl ht.symm
    · exact .inr (symbol_of_mem_openToken ht)
  have hafter : ∀ {acc : GoString} {newline : Bool},
      .symbol b ∈ (afterLiteral acc newline c).2 → b = c := by
    intro acc newline ht
    unfold afterLiteral at ht
    split_ifs at ht
    · cases ht
    · cases ht
    · cases ht
    · exact (hopen ht).resolve_left Token.noConfusion
  cases m with
  | start => exact .inl (symbol_of_mem_openToken h)
  | word | number | ident | identQuote | literal | dollarTag | dollarBody | lineComment
  | blockComment =>
    rw [step] at h
    split_ifs at h <;> first
      | exact .inl ((hopen h).resolve_left Token.noConfusion)
      | simp at h
  | literalQuote =>
    rw [step] at h
    split_ifs at h
    · cases h
    · exact .inl (hafter h)
  | literalGap acc gap =>
    cases gap with
    | blank newline =>
      rw [step] at h
      split_ifs at h
      · cases h
      · exact .inl (hafter h)
    | dash =>
      rw [step] at h
      split_ifs at h
      · cases h
      · simp only [mem_cons, reduceCtorEq, false_or, Token.symbol.injEq] at h
        exact h.elim (fun h => .inr (.inl h)) (fun h => .inl (symbol_of_mem_openToken h))
    | comment =>
      rw [step] at h
      split_ifs at h <;> cases h
  | dash | slash =>
    rw [step] at h
    split_ifs at h
    · cases h
    · rcases hopen h with ht | rfl
      · cases ht
        simp
      · exact .inl rfl
  | failed => cases h

/-- Symbols stand in the text. -/
theorem mem_of_symbol_mem (h : lexFrom m s = some ts) (hb : .symbol b ∈ ts) :
    b ∈ s ∨ b = 0x2D ∨ b = 0x2F := by
  induction s generalizing m ts with
  | nil =>
    right
    obtain ⟨us, hus, rfl⟩ := Option.map_eq_some_iff.1 h
    change finish m = some us at hus
    have hmem : .symbol b ∈ us := hb
    cases m with
    | literalGap acc gap => cases gap <;> cases hus <;> simp_all
    | identQuote acc =>
      rw [finish] at hus
      split at hus <;> cases hus
      simp at hmem
    | _ => cases hus <;> simp_all [wordToken]
  | cons c s ih =>
    rw [lexFrom_cons] at h
    obtain ⟨us, hus, rfl⟩ := Option.map_eq_some_iff.1 h
    rcases mem_append.1 hb with hb | hb
    · rcases symbol_of_mem_step hb with rfl | hb
      · exact .inl mem_cons_self
      · exact .inr hb
    · exact (ih hus hb).imp_left (mem_cons_of_mem c)

/-! ### Dollar quotes -/

private theorem transduces_dollarBody {tag : GoString} (h0 : 0x00 ∉ body)
    (h : ¬ dollarClose tag <:+: body.reverse ++ acc) :
    Transduces step (.dollarBody tag acc) body (.dollarBody tag (body.reverse ++ acc)) [] := by
  induction body generalizing acc with
  | nil => rfl
  | cons b body ih =>
    obtain ⟨hb, hbody⟩ := not_or.1 (mt mem_cons.2 h0)
    rw [reverse_cons, append_assoc, singleton_append] at h ⊢
    have hp : ¬ (dollarClose tag).isPrefixOf (b :: acc) = true := by
      intro hp
      have hpre := isPrefixOf_iff_prefix.1 hp
      exact h (hpre.isInfix.trans (suffix_append _ _).isInfix)
    have hs : step (.dollarBody tag acc) b = (.dollarBody tag (b :: acc), []) := by
      simp only [step, if_neg hp, if_neg (Ne.symm hb)]
    exact Transduces.silent hs (ih hbody h)

/-- A body between plain dollar quotes ends at the first repetition of the delimiter. -/
theorem transduces_dollar (h0 : 0x00 ∉ body) (h : ¬ [0x24, 0x24] <:+: body ++ [0x24]) :
    Transduces step .start (0x24 :: 0x24 :: (body ++ [0x24, 0x24])) .start [.dollar body] := by
  have hr : ¬ dollarClose [] <:+: (body ++ [0x24]).reverse ++ [] := by
    rw [append_nil, ← reverse_infix, reverse_reverse]
    exact h
  have hbody := transduces_dollarBody (by simpa using h0) hr
  rw [append_nil, reverse_append] at hbody
  have hclose : Transduces step (.dollarBody [] ([0x24].reverse ++ body.reverse)) [0x24]
      .start [.dollar body] := by
    simp [Transduces, transduce, step, dollarClose]
  have hall := hbody.append hclose
  rw [append_assoc] at hall
  exact Transduces.silent rfl (Transduces.silent rfl hall)

end Athos.Sql
