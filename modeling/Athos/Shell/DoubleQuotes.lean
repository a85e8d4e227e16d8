import Athos.Shell.Scripts
import Mathlib.Data.List.Chain

/-!
# Text in double quotes

A text in double quotes stands for itself if it has no backquote and no dollar sign that begins an
expansion, no quote, and no backslash before a byte that it quotes; any other text is not read, or
loses a quote, a backslash or a dollar sign. Text that `%q` has quoted stands for what it was made
from if all of that prints and nothing of it is expanded.
-/

namespace Athos.Shell.Script

open Base List Option

/-! ### Literal text -/

/-- The first byte does not begin an expansion before the second. -/
def Inert (a b : UInt8) : Prop := a = 0x24 → startsExpansion b = false

instance : DecidableRel Inert := fun _ _ => inferInstanceAs (Decidable (_ → _))

/-- Nothing in the text is expanded in double quotes. -/
structure InertText (s : GoString) : Prop where
  no_backquote : 0x60 ∉ s
  chain : s.IsChain Inert

/-- The reader in double quotes after a text that stands for itself. A dollar sign at its end may
still begin an expansion. -/
def Literal (acc : RawWord) (s : GoString) (m : Mode) : Prop :=
  (s.getLast? ≠ some 0x24 ∧ m = .double ((quotedText s).reverse ++ acc)) ∨
  ∃ front, s = front ++ [0x24] ∧ m = .dollar true ((quotedText front).reverse ++ acc)

section Literal

variable {acc : RawWord} {s : GoString} {m : Mode} {b : UInt8}

private theorem literal_nil (acc : RawWord) : Literal acc [] (.double acc) := .inl ⟨nofun, rfl⟩

private theorem quotedText_concat (s : GoString) (b : UInt8) (acc : RawWord) :
    (quotedText (s ++ [b])).reverse ++ acc = .byte b true :: ((quotedText s).reverse ++ acc) := by
  simp [quotedText]

private theorem Literal.step_eq (h : Literal acc s m) (hb : ∀ a ∈ s.getLast?, Inert a b) :
    step m b = (stepDouble ((quotedText s).reverse ++ acc) b, []) := by
  rcases h with ⟨-, rfl⟩ | ⟨front, rfl, rfl⟩
  · rfl
  · have hstarts : startsExpansion b = false := hb 0x24 (by simp) rfl
    have hbrace : b ≠ 0x7B := by
      rintro rfl
      cases hstarts
    rw [quotedText_concat]
    simp [step, hbrace, hstarts]

private theorem Literal.close (h : Literal acc s m) :
    step m 0x22 = (.word ((quotedText s).reverse ++ acc), []) :=
  h.step_eq fun _ _ _ => rfl

private theorem Literal.step_expansion (h : Literal acc s m) (hb : ∃ a ∈ s.getLast?, ¬ Inert a b) :
    step m b = (.failed, []) ∨ ∃ front, s = front ++ [0x24] ∧
      step m b = (.brace true ((quotedText front).reverse ++ acc) [], []) := by
  obtain ⟨a, ha, hab⟩ := hb
  obtain ⟨rfl, hstarts⟩ : a = 0x24 ∧ startsExpansion b = true := by
    simpa [Inert] using hab
  rcases h with ⟨hlast, -⟩ | ⟨front, rfl, rfl⟩
  · exact absurd ha hlast
  · by_cases hbrace : b = 0x7B
    · subst hbrace
      exact .inr ⟨front, rfl, rfl⟩
    · simp [step, hbrace, hstarts]

private theorem literal_stepDouble (hquote : b ≠ 0x22) (hslash : b ≠ 0x5C) (hback : b ≠ 0x60)
    (acc : RawWord) (s : GoString) :
    Literal acc (s ++ [b]) (stepDouble ((quotedText s).reverse ++ acc) b) := by
  by_cases hdollar : b = 0x24
  · subst hdollar
    exact .inr ⟨s, rfl, rfl⟩
  · refine .inl ⟨by simpa using hdollar, ?_⟩
    rw [quotedText_concat]
    simp [stepDouble, hquote, hslash, hback, hdollar]

private theorem InertText.concat (h : InertText s) (hback : b ≠ 0x60)
    (hb : ∀ a ∈ s.getLast?, Inert a b) : InertText (s ++ [b]) := by
  refine ⟨?_, ?_⟩
  · simpa [h.no_backquote] using hback.symm
  · refine isChain_append.2 ⟨h.chain, .singleton b, ?_⟩
    simpa using hb

private theorem InertText.of_concat (h : InertText (s ++ [b])) :
    InertText s ∧ b ≠ 0x60 ∧ ∀ a ∈ s.getLast?, Inert a b := by
  obtain ⟨hchain, -, hlast⟩ := isChain_append.1 h.chain
  have hback := h.no_backquote
  rw [mem_append, not_or, mem_singleton] at hback
  exact ⟨⟨hback.1, hchain⟩, fun hb => hback.2 hb.symm, by simpa using hlast⟩

end Literal

/-! ### Quotes and backslashes -/

/-- The first byte does not take part in an expansion before the second, and does not quote it. -/
def Kept (a b : UInt8) : Prop := Inert a b ∧ (a = 0x5C → b ≠ 0x5C ∧ b ≠ 0x24)

instance : DecidableRel Kept := fun _ _ => inferInstanceAs (Decidable (_ ∧ _))

/-- Quotes and backslashes. -/
def isMark (b : UInt8) : Bool := b == 0x22 || b == 0x5C

/-- The reader in double quotes after a text that stands for itself so far. -/
def LiteralSoFar (acc : RawWord) (s : GoString) (m : Mode) : Prop :=
  (s.getLast? ≠ some 0x5C ∧ Literal acc s m) ∨
  ∃ front, s = front ++ [0x5C] ∧ m = .doubleEscape ((quotedText front).reverse ++ acc)

section Marks

variable {acc : RawWord} {s : GoString} {m : Mode} {b : UInt8}

private theorem literalSoFar_nil (acc : RawWord) : LiteralSoFar acc [] (.double acc) :=
  .inl ⟨nofun, literal_nil acc⟩

private theorem LiteralSoFar.concat (h : LiteralSoFar acc s m) (hquote : b ≠ 0x22)
    (hback : b ≠ 0x60) (hnl : b ≠ 0x0A) (hb : ∀ a ∈ s.getLast?, Kept a b) :
    LiteralSoFar acc (s ++ [b]) (step m b).1 ∧ (step m b).2 = [] := by
  rcases h with ⟨-, hliteral⟩ | ⟨front, rfl, rfl⟩
  · rw [hliteral.step_eq fun a ha => (hb a ha).1]
    refine ⟨?_, rfl⟩
    by_cases hslash : b = 0x5C
    · subst hslash
      exact .inr ⟨s, rfl, rfl⟩
    · exact .inl ⟨by simpa using hslash, literal_stepDouble hquote hslash hback acc s⟩
  · obtain ⟨hslash, hdollar⟩ := (hb 0x5C (by simp)).2 rfl
    refine ⟨.inl ⟨by simpa using hslash, .inl ⟨by simpa using hdollar, ?_⟩⟩, rfl⟩
    simp [step, isExpansion, hnl, hquote, hback, hslash, hdollar, quotedText]

private theorem LiteralSoFar.lose (h : LiteralSoFar acc s m) (hinert : ∀ a ∈ s.getLast?, Inert a b)
    (hb : b = 0x22 ∨ ∃ a ∈ s.getLast?, ¬ Kept a b) :
    held isMark (step m b).1 + ((step m b).2.map (Token.countP isMark)).sum <
      RawWord.countP isMark acc + (s ++ [b]).countP isMark := by
  rcases h with ⟨hlast, hliteral⟩ | ⟨front, rfl, rfl⟩
  · rw [hliteral.step_eq hinert]
    rcases hb with rfl | ⟨a, ha, hkept⟩
    · simp [stepDouble, held, isMark]
      omega
    · -- Only after a backslash are bytes lost that do not begin an expansion.
      have haslash : a = 0x5C := by
        by_contra hne
        exact hkept ⟨hinert a ha, fun h => absurd h hne⟩
      exact absurd (haslash ▸ ha) hlast
  · have hquoted : b = 0x22 ∨ b = 0x5C ∨ b = 0x24 := by
      rcases hb with hb | ⟨a, ha, hkept⟩
      · exact .inl hb
      · obtain rfl : 0x5C = a := by simpa using ha
        by_contra hnot
        push Not at hnot
        exact hkept ⟨by simp [Inert], fun _ => ⟨hnot.2.1, hnot.2.2⟩⟩
    rcases hquoted with rfl | rfl | rfl <;>
      simp [step, isExpansion, held, isMark] <;> omega

/-- The text stands for itself between double quotes, up to its last byte. -/
structure KeptText (s : GoString) : Prop where
  no_quote : 0x22 ∉ s
  chain : s.IsChain Kept

private theorem keptText_concat :
    KeptText (s ++ [b]) ↔ KeptText s ∧ b ≠ 0x22 ∧ ∀ a ∈ s.getLast?, Kept a b := by
  constructor
  · rintro ⟨hquote, hchain⟩
    obtain ⟨hfront, -, hlast⟩ := isChain_append.1 hchain
    rw [mem_append, not_or, mem_singleton] at hquote
    exact ⟨⟨hquote.1, hfront⟩, Ne.symm hquote.2, by simpa using hlast⟩
  · rintro ⟨⟨hquote, hchain⟩, hb, hlast⟩
    refine ⟨by simpa [hquote] using hb.symm, ?_⟩
    exact isChain_append.2 ⟨hchain, .singleton b, by simpa using hlast⟩

/-- A text without newlines in which nothing is expanded stands for itself, or it loses a quote or
a backslash. -/
theorem keptText_or_lost (hs : InertText s) (hnl : 0x0A ∉ s) (acc : RawWord) :
    (KeptText s ∧ LiteralSoFar acc s (transduce step (.double acc) s).1 ∧
      (transduce step (.double acc) s).2 = []) ∨
    (¬ KeptText s ∧ held isMark (transduce step (.double acc) s).1 +
        ((transduce step (.double acc) s).2.map (Token.countP isMark)).sum <
      RawWord.countP isMark acc + s.countP isMark) := by
  induction s using List.reverseRecOn with
  | nil => exact .inl ⟨⟨by simp, .nil⟩, literalSoFar_nil acc, rfl⟩
  | append_singleton s b ih =>
    obtain ⟨hinert, hback, hb⟩ := hs.of_concat
    have hmem : 0x0A ∉ s ∧ b ≠ 0x0A := by
      rw [mem_append, not_or, mem_singleton] at hnl
      exact ⟨hnl.1, fun h => hnl.2 h.symm⟩
    rw [transduce_append, transduce_singleton, keptText_concat]
    rcases ih hinert hmem.1 with ⟨hkept, hsofar, hout⟩ | ⟨hnot, hlost⟩
    · by_cases hkeep : b ≠ 0x22 ∧ ∀ a ∈ s.getLast?, Kept a b
      · obtain ⟨hnext, hnone⟩ := hsofar.concat hkeep.1 hback hmem.2 hkeep.2
        exact .inl ⟨⟨hkept, hkeep⟩, hnext, by rw [hout, hnone]; rfl⟩
      · refine .inr ⟨fun h => hkeep h.2, ?_⟩
        rw [hout, nil_append]
        refine hsofar.lose hb ?_
        by_contra hnot
        push Not at hnot
        exact hkeep hnot
    · refine .inr ⟨fun h => hnot h.1, ?_⟩
      have hle := held_transduce isMark (transduce step (.double acc) s).1 [b]
      rw [transduce_singleton] at hle
      simp only [map_append, sum_append, List.countP_append]
      omega

/-- A text that stands for itself, up to the end of the line. -/
theorem transduces_keptText (hs : KeptText s) (hinert : InertText s) (hnl : 0x0A ∉ s)
    (hend : s.getLast? ≠ some 0x5C) (acc : RawWord) :
    Transduces step (.double acc) (s ++ [0x22, 0x0A]) .blank
      [.word (acc.reverse ++ quotedText s), .newline] := by
  rcases keptText_or_lost hinert hnl acc with ⟨-, ⟨-, hliteral⟩ | ⟨front, rfl, -⟩, hout⟩ | ⟨hnot, -⟩
  · have hclose : step (.word ((quotedText s).reverse ++ acc)) 0x0A =
        (.blank, [.word (acc.reverse ++ quotedText s), .newline]) := by
      simp [step, stepWord, isBlank]
    rw [Transduces, transduce_append, hout, transduce, hliteral.close, transduce_singleton, hclose]
    rfl
  · exact absurd (getLast?_concat ..) hend
  · exact absurd hs hnot

private theorem closed_of_finish {y : GoString}
    (hdouble : finish (transduce step (.double []) y).1 = none)
    (hsingle : finish (transduce step (.single []) y).1 = none)
    (h : finish (transduce step m ([0x22, 0x0A] ++ y)).1 ≠ none) :
    ∃ ts, Transduces step m [0x22, 0x0A] .blank (ts ++ [Token.newline]) ∧
      (ts.map (Token.countP isMark)).sum ≤ held isMark m := by
  have hopen : ∀ acc, finish (transduce step (.double acc) y).1 = none :=
    fun acc => (finish_transduce_erase (.double acc) y).1 hdouble
  have hliteral : ∀ acc, finish (transduce step (.single acc) y).1 = none :=
    fun acc => (finish_transduce_erase (.single acc) y).1 hsingle
  have hfailed : finish (transduce step .failed y).1 = none := by
    rw [transduce_failed]
    rfl
  rw [transduce_append] at h
  cases m with
  | blank => exact absurd (hopen _) h
  | word acc => exact absurd (hopen _) h
  | doubleEscape acc => exact absurd (hopen _) h
  | single acc => exact absurd (hliteral _) h
  | escape acc =>
    refine ⟨[.word (Piece.byte 0x22 true :: acc.getD []).reverse], rfl, ?_⟩
    simp [Token.countP, held, isMark, Nat.add_comm]
  | double acc => exact ⟨[.word acc.reverse], rfl, by simp [Token.countP, held]⟩
  | dollar quoted acc =>
    cases quoted with
    | true =>
      refine ⟨[.word (Piece.byte 0x24 true :: acc).reverse], rfl, ?_⟩
      simp [Token.countP, held, isMark]
    | false => exact absurd hfailed h
  | brace quoted acc name => exact absurd hfailed h
  | comment => exact ⟨[], rfl, Nat.zero_le _⟩
  | failed => exact absurd hfailed h

end Marks

/-! ### Words without variables -/

/-- The word that the reader has begun. -/
def Mode.openWord : Mode → RawWord
  | .word acc | .single acc | .double acc | .doubleEscape acc | .dollar _ acc | .brace _ acc _ =>
    acc
  | .escape acc => acc.getD []
  | .blank | .comment | .failed => []

/-- The reader is after a dollar sign. -/
def Mode.isDollar : Mode → Bool
  | .dollar _ _ => true
  | _ => false

/-- The reader is within braces. -/
def Mode.isBrace : Mode → Bool
  | .brace _ _ _ => true
  | _ => false

/-- A byte that leads here begins no expansion, and there are at most so many variables in the open
word and the words before it. -/
structure Steady (n : Nat) (b : UInt8) (r : Mode × List Token) : Prop where
  no_brace : r.1.isBrace = false
  dollar : r.1.isDollar = true → b = 0x24
  count : List.countP Piece.isVar r.1.openWord + (r.2.map Token.countVars).sum ≤ n

section Open

variable {acc : RawWord} {m : Mode} {b : UInt8} {s : GoString}

private theorem steady_unquoted (acc : RawWord) (b : UInt8) :
    Steady (List.countP Piece.isVar acc) b (unquoted acc b, []) := by
  unfold unquoted
  split_ifs <;> constructor <;>
    simp_all [Mode.isBrace, Mode.isDollar, Mode.openWord, Piece.isVar]

private theorem steady_stepDouble (acc : RawWord) (b : UInt8) :
    Steady (List.countP Piece.isVar acc) b (stepDouble acc b, []) := by
  unfold stepDouble
  split_ifs <;> constructor <;>
    simp_all [Mode.isBrace, Mode.isDollar, Mode.openWord, Piece.isVar]

private theorem steady_stepWord (acc : RawWord) (b : UInt8) :
    Steady (List.countP Piece.isVar acc) b (stepWord acc b) := by
  have hopen := steady_unquoted acc b
  unfold stepWord
  split_ifs <;> first
    | exact hopen
    | constructor <;> simp [Mode.isBrace, Mode.isDollar, Mode.openWord, Token.countVars]

private theorem steady_step (hm : m.isBrace = false) (hb : m.isDollar = true → b ≠ 0x7B) :
    Steady (List.countP Piece.isVar m.openWord) b (step m b) := by
  cases m with
  | blank =>
    have hopen := steady_unquoted [] b
    simp only [step]
    split_ifs <;> first
      | exact hopen
      | constructor <;> simp [Mode.isBrace, Mode.isDollar, Mode.openWord, Token.countVars]
  | word acc => exact steady_stepWord acc b
  | double acc => exact steady_stepDouble acc b
  | escape acc =>
    simp only [step]
    cases acc <;> split_ifs <;> constructor <;>
      simp [Mode.isBrace, Mode.isDollar, Mode.openWord, Piece.isVar]
  | single acc | doubleEscape acc | comment =>
    simp only [step]
    split_ifs <;> constructor <;>
      simp [Mode.isBrace, Mode.isDollar, Mode.openWord, Piece.isVar, Token.countVars]
  | dollar quoted acc =>
    simp only [step, if_neg (hb rfl)]
    split_ifs
    · constructor <;> simp [Mode.isBrace, Mode.isDollar, Mode.openWord]
    · exact steady_stepDouble (.byte 0x24 true :: acc) b
    · exact steady_stepWord (.byte 0x24 false :: acc) b
  | brace quoted acc name => cases hm
  | failed => constructor <;> simp [step, Mode.isBrace, Mode.isDollar, Mode.openWord]

private theorem countVars_transduce (hs : InertText s) (acc : RawWord) :
    (transduce step (.double acc) s).1.isBrace = false ∧
      ((transduce step (.double acc) s).1.isDollar = true → s.getLast? = some 0x24) ∧
      List.countP Piece.isVar (transduce step (.double acc) s).1.openWord +
        ((transduce step (.double acc) s).2.map Token.countVars).sum ≤
          List.countP Piece.isVar acc := by
  induction s using List.reverseRecOn with
  | nil => exact ⟨rfl, nofun, Nat.le_refl _⟩
  | append_singleton s b ih =>
    obtain ⟨hinert, -, hb⟩ := hs.of_concat
    obtain ⟨hbrace, hdollar, hcount⟩ := ih hinert
    have hnot : (transduce step (.double acc) s).1.isDollar = true → b ≠ 0x7B := by
      rintro h rfl
      cases hb 0x24 (hdollar h) rfl
    obtain ⟨hbrace', hdollar', hstep⟩ := steady_step hbrace hnot
    rw [transduce_append, transduce_singleton]
    refine ⟨hbrace', fun h => by rw [getLast?_concat, hdollar' h], ?_⟩
    simp only [map_append, sum_append]
    omega

end Open

/-! ### Text quoted by `%q` -/

/-- The piece was quoted. -/
def Piece.isQuoted : Piece → Bool
  | .byte _ quoted => quoted
  | .var _ quoted => quoted

/-- The reader within double quotes that are a whole word so far. -/
def InQuotes : Mode → Prop
  | .double acc | .dollar true acc | .brace true acc _ => ∀ p ∈ acc, p.isQuoted = true
  | _ => False

section Written

variable {T : RuneTables} {s : GoString} {m : Mode} {b : UInt8} {x : GoString}

private theorem inQuotes_cases (h : InQuotes m) :
    ∃ acc, (∀ p ∈ acc, p.isQuoted = true) ∧
      (m = .double acc ∨ m = .dollar true acc ∨ ∃ name, m = .brace true acc name) := by
  cases m with
  | double acc => exact ⟨acc, h, .inl rfl⟩
  | dollar quoted acc =>
    cases quoted with
    | true => exact ⟨acc, h, .inr (.inl rfl)⟩
    | false => cases h
  | brace quoted acc name =>
    cases quoted with
    | true => exact ⟨acc, h, .inr (.inr ⟨name, rfl⟩)⟩
    | false => cases h
  | _ => cases h

private theorem inQuotes_double {acc : RawWord} (h : ∀ p ∈ acc, p.isQuoted = true) (b : UInt8) :
    InQuotes (.double (.byte b true :: acc)) := forall_mem_cons.2 ⟨rfl, h⟩

private theorem inQuotes_stepDouble {acc : RawWord} (h : ∀ p ∈ acc, p.isQuoted = true)
    (hquote : b ≠ 0x22)
    (hslash : b ≠ 0x5C) : stepDouble acc b = .failed ∨ InQuotes (stepDouble acc b) := by
  simp only [stepDouble, hquote, hslash, if_false]
  split_ifs
  · exact .inr h
  · exact .inl rfl
  · exact .inr (inQuotes_double h b)

private theorem inQuotes_step (h : InQuotes m) (hquote : b ≠ 0x22) (hslash : b ≠ 0x5C) :
    ((step m b).1 = .failed ∨ InQuotes (step m b).1) ∧ (step m b).2 = [] := by
  obtain ⟨acc, hacc, rfl | rfl | ⟨name, rfl⟩⟩ := inQuotes_cases h
  · exact ⟨inQuotes_stepDouble hacc hquote hslash, rfl⟩
  · simp only [step]
    split_ifs
    · exact ⟨.inr hacc, rfl⟩
    · exact ⟨.inl rfl, rfl⟩
    · exact ⟨inQuotes_stepDouble (forall_mem_cons.2 ⟨rfl, hacc⟩) hquote hslash, rfl⟩
  · refine ⟨?_, rfl⟩
    simp only [step]
    split_ifs
    · exact .inr hacc
    · exact .inr (forall_mem_cons.2 ⟨rfl, hacc⟩)
    · exact .inl rfl

private theorem inQuotes_escape (h : InQuotes m) (b : UInt8) :
    ((transduce step m [0x5C, b]).1 = .failed ∨ InQuotes (transduce step m [0x5C, b]).1) ∧
      (transduce step m [0x5C, b]).2 = [] := by
  have hescape : ∀ acc : RawWord, (∀ p ∈ acc, p.isQuoted = true) →
      InQuotes (step (.doubleEscape acc) b).1 ∧ (step (.doubleEscape acc) b).2 = [] := by
    intro acc hacc
    refine ⟨?_, rfl⟩
    simp only [step]
    split_ifs
    · exact hacc
    · exact inQuotes_double hacc b
    · exact inQuotes_double (inQuotes_double hacc 0x5C) b
  rw [← singleton_append, transduce_append, transduce_singleton, transduce_singleton]
  obtain ⟨acc, hacc, rfl | rfl | ⟨name, rfl⟩⟩ := inQuotes_cases h
  · obtain ⟨hin, hout⟩ := hescape acc hacc
    exact ⟨.inr hin, hout⟩
  · obtain ⟨hin, hout⟩ := hescape (.byte 0x24 true :: acc) (forall_mem_cons.2 ⟨rfl, hacc⟩)
    exact ⟨.inr hin, hout⟩
  · exact ⟨.inl rfl, rfl⟩

/-- The reader after text quoted by `%q`: it is literal if nothing in it is expanded, and otherwise
it is not read or a dollar sign is lost. -/
def Reads (s : GoString) (m : Mode) : Prop :=
  (InertText s ∧ Literal [] s m) ∨
  (¬ InertText s ∧ (m = .failed ∨ (InQuotes m ∧ held (· == 0x24) m < s.countP (· == 0x24))))

private theorem reads_step (h : Reads s m) (hquote : b ≠ 0x22) (hslash : b ≠ 0x5C) :
    Reads (s ++ [b]) (step m b).1 ∧ (step m b).2 = [] := by
  rcases h with ⟨hinert, hliteral⟩ | ⟨hinert, rfl | ⟨hin, hlost⟩⟩
  · by_cases hb : ∀ a ∈ s.getLast?, Inert a b
    · rw [hliteral.step_eq hb]
      refine ⟨?_, rfl⟩
      by_cases hback : b = 0x60
      · subst hback
        exact .inr ⟨fun h => h.of_concat.2.1 rfl, .inl rfl⟩
      · exact .inl ⟨hinert.concat hback hb, literal_stepDouble hquote hslash hback [] s⟩
    · have hexpanded : ¬ InertText (s ++ [b]) := fun h => hb h.of_concat.2.2
      push Not at hb
      rcases hliteral.step_expansion hb with hstep | ⟨front, rfl, hstep⟩
      · rw [hstep]
        exact ⟨.inr ⟨hexpanded, .inl rfl⟩, rfl⟩
      · rw [hstep]
        refine ⟨.inr ⟨hexpanded, .inr ⟨?_, ?_⟩⟩, rfl⟩
        · intro p hp
          simp only [quotedText, append_nil, mem_reverse, List.mem_map] at hp
          obtain ⟨c, -, rfl⟩ := hp
          rfl
        · simp [held]
  · exact ⟨.inr ⟨fun h => hinert h.of_concat.1, .inl rfl⟩, rfl⟩
  · obtain ⟨hnext, hout⟩ := inQuotes_step hin hquote hslash
    refine ⟨.inr ⟨fun h => hinert h.of_concat.1, ?_⟩, hout⟩
    refine hnext.imp_right fun hnext => ⟨hnext, ?_⟩
    have hle := held_transduce (· == 0x24) m [b]
    rw [transduce_singleton] at hle
    rw [List.countP_append]
    omega

private theorem reads_plain (h : Reads s m) (hquote : 0x22 ∉ x) (hslash : 0x5C ∉ x) :
    Reads (s ++ x) (transduce step m x).1 ∧ (transduce step m x).2 = [] := by
  induction x generalizing s m with
  | nil =>
    rw [append_nil]
    exact ⟨h, rfl⟩
  | cons b x ih =>
    rw [mem_cons, not_or] at hquote hslash
    obtain ⟨hnext, hout⟩ := reads_step h (Ne.symm hquote.1) (Ne.symm hslash.1)
    obtain ⟨hrest, hnone⟩ := ih hnext hquote.2 hslash.2
    rw [append_assoc, singleton_append] at hrest
    rw [transduce, hout, hnone]
    exact ⟨hrest, rfl⟩

/-- What is left in double quotes of a rune that `%q` has written. -/
def shown (T : RuneTables) (p : Nat × GoString) (x : GoString) : GoString :=
  if Prints T p then p.2 else x

variable {y : GoString} {f : Nat × GoString → GoString} {ps : List (Nat × GoString)} {vars : Vars}

private theorem InertText.append (hs : InertText s) (hy : InertText y)
    (hhead : ∀ c ∈ y.head?, startsExpansion c = false) : InertText (s ++ y) := by
  refine ⟨?_, hs.chain.append hy.chain fun a _ c hc _ => hhead c hc⟩
  rw [mem_append, not_or]
  exact ⟨hs.no_backquote, hy.no_backquote⟩

private theorem InertText.of_append (h : InertText (s ++ y)) : InertText s :=
  ⟨fun hm => h.no_backquote (mem_append_left y hm), (isChain_append.1 h.chain).1⟩

private theorem reads_escape (h : Reads s m) {c : UInt8} (hb : b ≠ 0x24) (hc : c ≠ 0x24)
    (hinert : InertText (y ++ [c])) (hhead : ∀ a ∈ (y ++ [c]).head?, startsExpansion a = false)
    (hstep : ∀ acc, step (.doubleEscape acc) b =
      (.double ((quotedText (y ++ [c])).reverse ++ acc), [])) :
    Reads (s ++ (y ++ [c])) (transduce step m [0x5C, b]).1 ∧
      (transduce step m [0x5C, b]).2 = [] := by
  rcases h with ⟨hs, hliteral⟩ | ⟨hs, rfl | ⟨hin, hlost⟩⟩
  · have hslash : step m 0x5C = (.doubleEscape ((quotedText s).reverse ++ []), []) :=
      hliteral.step_eq fun a _ _ => rfl
    have hrun : transduce step m [0x5C, b] =
        (.double ((quotedText (s ++ (y ++ [c]))).reverse ++ []), []) := by
      rw [transduce, hslash, transduce_singleton, hstep]
      simp [quotedText]
    rw [hrun]
    refine ⟨.inl ⟨hs.append hinert hhead, .inl ⟨?_, rfl⟩⟩, rfl⟩
    rw [← append_assoc, getLast?_concat]
    simpa using hc
  · rw [transduce_failed]
    exact ⟨.inr ⟨fun h => hs h.of_append, .inl rfl⟩, rfl⟩
  · obtain ⟨hnext, hout⟩ := inQuotes_escape hin b
    refine ⟨.inr ⟨fun h => hs h.of_append, ?_⟩, hout⟩
    refine hnext.imp_right fun hnext => ⟨hnext, ?_⟩
    have hle := held_transduce (· == 0x24) m [0x5C, b]
    have hnone : [0x5C, b].countP (· == 0x24) = 0 := by simp [hb]
    rw [List.countP_append]
    omega

private theorem reads_rune {p : Nat × GoString} (h : Reads s m) (hx : QuotedRune T p x) :
    Reads (s ++ shown T p x) (transduce step m x).1 ∧ (transduce step m x).2 = [] := by
  cases hx with
  | verbatim hprints hquote hslash =>
    rw [shown, if_pos hprints]
    exact reads_plain h hquote hslash
  | escaped b hb hp =>
    have hprints : Prints T p := by
      rw [hp]
      refine ⟨?_, ?_⟩
      · rcases hb with rfl | rfl <;> exact T.isPrint_ascii _ (by decide)
      · rcases hb with rfl | rfl <;> decide
    rw [shown, if_pos hprints, hp]
    refine reads_escape (y := []) (c := b) h ?_ ?_ ?_ ?_ ?_
    · rcases hb with rfl | rfl <;> decide
    · rcases hb with rfl | rfl <;> decide
    · exact ⟨by rcases hb with rfl | rfl <;> decide, .singleton b⟩
    · intro a ha
      obtain rfl := some.inj ha
      rcases hb with rfl | rfl <;> rfl
    · rcases hb with rfl | rfl <;> exact fun _ => rfl
  | coded c digits hprints hdigits hlength =>
    rw [shown, if_neg hprints]
    obtain ⟨hc, hdigits⟩ := forall_mem_cons.1 hdigits
    have hbytes : ∀ d : UInt8, (isAsciiLetter d.toNat || isDigitByte d) = true →
        d ≠ 0x22 ∧ d ≠ 0x5C ∧ d ≠ 0x24 ∧ d ≠ 0x60 ∧ d ≠ 0x0A := by
      intro d hd
      refine ⟨?_, ?_, ?_, ?_, ?_⟩ <;> rintro rfl <;> cases hd
    obtain ⟨hquote, hslash, hdollar, hback, hnl⟩ := hbytes c hc
    obtain ⟨hpair, hnone⟩ := reads_escape (y := [0x5C]) (c := c) h hdollar hdollar
      ⟨by simpa using hback.symm, by simp [Inert]⟩ (fun a ha => by rw [← some.inj ha]; rfl)
      fun acc => by simp [step, isExpansion, hnl, hdollar, hback, hquote, hslash, quotedText]
    obtain ⟨hrest, hout⟩ := reads_plain hpair (x := digits)
      (fun hm => (hbytes _ (hdigits _ hm)).1 rfl) (fun hm => (hbytes _ (hdigits _ hm)).2.1 rfl)
    have hsplit : 0x5C :: c :: digits = [0x5C, c] ++ digits := rfl
    rw [hsplit, transduce_append, hnone, hout]
    rw [append_assoc] at hrest
    exact ⟨hrest, rfl⟩

section

variable (h : ∀ p ∈ ps, QuotedRune T p (f p))

include h

private theorem reads_runes :
    Reads (ps.flatMap fun p => shown T p (f p)) (transduce step (.double []) (ps.flatMap f)).1 ∧
      (transduce step (.double []) (ps.flatMap f)).2 = [] := by
  induction ps using List.reverseRecOn with
  | nil => exact ⟨.inl ⟨⟨by simp, .nil⟩, literal_nil []⟩, rfl⟩
  | append_singleton ps p ih =>
    rw [forall_mem_append, forall_mem_singleton] at h
    obtain ⟨hfront, hnone⟩ := ih h.1
    obtain ⟨hlast, hout⟩ := reads_rune hfront h.2
    rw [flatMap_append, flatMap_append, flatMap_singleton, flatMap_singleton,
      transduce_append, hnone, hout]
    exact ⟨hlast, rfl⟩

private theorem length_shown :
    (ps.flatMap Prod.snd).length ≤ (ps.flatMap fun p => shown T p (f p)).length ∧
      ((ps.flatMap fun p => shown T p (f p)).length ≤ (ps.flatMap Prod.snd).length →
        ∀ p ∈ ps, Prints T p) := by
  apply length_flatMap_le
  intro p hp
  by_cases hprint : Prints T p
  · have hshown : shown T p (f p) = p.2 := if_pos hprint
    exact .inl ⟨hprint, by rw [hshown]⟩
  · right
    rw [shown, if_neg hprint]
    have hpiece := h p hp
    generalize f p = x at hpiece
    cases hpiece with
    | verbatim h => exact absurd h hprint
    | escaped b hb hp =>
      rw [hp]
      exact Nat.lt_succ_self 1
    | coded c digits _ _ hlength => exact hlength

private theorem countP_shown_le :
    (ps.flatMap fun p => shown T p (f p)).countP (· == 0x24) ≤
      (ps.flatMap Prod.snd).countP (· == 0x24) := by
  induction ps with
  | nil => exact Nat.le_refl 0
  | cons p ps ih =>
    obtain ⟨hp, hps⟩ := forall_mem_cons.1 h
    have hpiece : (shown T p (f p)).countP (· == 0x24) ≤ p.2.countP (· == 0x24) := by
      rw [shown]
      split
      · exact Nat.le_refl _
      · next hprint =>
        generalize f p = x at hp
        cases hp with
        | verbatim h => exact absurd h hprint
        | escaped b hb hp =>
          rcases hb with rfl | rfl <;> exact Nat.zero_le _
        | coded c digits _ hdigits _ =>
          refine Nat.le_trans (Nat.le_of_eq ?_) (Nat.zero_le _)
          rw [List.countP_eq_zero]
          refine forall_mem_cons.2 ⟨by decide, fun d hd heq => ?_⟩
          rw [beq_iff_eq] at heq
          subst heq
          cases hdigits _ hd
    have hrest := ih hps
    simp only [flatMap_cons, List.countP_append]
    omega

end

private theorem marked_of_quoted {w : RawWord} (h : ∀ p ∈ w, p.isQuoted = true) {x : Word}
    (hx : RawWord.marked vars w = some x) : x = quoted x.text := by
  induction w generalizing x with
  | nil =>
    obtain rfl := some.inj hx
    rfl
  | cons p w ih =>
    obtain ⟨hp, hw⟩ := forall_mem_cons.1 h
    cases p with
    | byte b q =>
      obtain rfl : q = true := hp
      obtain ⟨y, hy, rfl⟩ := map_eq_some_iff.1 hx
      rw [Word.text_cons, quoted, map_cons, ← quoted, ← ih hw hy]
    | var name q =>
      obtain ⟨value, -, hrest⟩ := bind_eq_some_iff.1 hx
      obtain ⟨y, hy, hx⟩ := bind_eq_some_iff.1 hrest
      obtain rfl := some.inj hx
      rw [Word.text_append, text_quoted, quoted, quoted, map_append, ← quoted, ← quoted, ← ih hw hy]

/-- In quotes everything is one word. -/
theorem expand_of_quoted {w : RawWord} (h : ∀ p ∈ w, p.isQuoted = true) :
    RawWord.expand vars w = (RawWord.marked vars w).map fun x => [x.text] := by
  have hopen : w.any Piece.isOpen = false := by
    rw [List.any_eq_false]
    intro p hp
    have hquoted := h p hp
    cases p <;> simp_all [Piece.isQuoted, Piece.isOpen]
  have hexpand : RawWord.expand vars w =
      ((RawWord.marked vars w).bind fixedWord).map ([·]) := by
    unfold RawWord.expand
    split
    · cases h _ mem_cons_self
    · rw [hopen]
      rfl
  rw [hexpand]
  cases hx : RawWord.marked vars w with
  | none => rfl
  | some x =>
    have hfixed : fixedWord x = some x.text := by
      conv_lhs => rw [marked_of_quoted h hx, fixedWord_quoted]
    rw [bind_some, hfixed]
    rfl

/-- Quoted text stands for itself. -/
theorem marked_quotedText (vars : Vars) (s : GoString) :
    RawWord.marked vars (quotedText s) = some (quoted s) := by
  induction s with
  | nil => rfl
  | cons b s ih =>
    have hcons : quotedText (b :: s) = .byte b true :: quotedText s := rfl
    rw [hcons, RawWord.marked, ih]
    rfl

private theorem isQuoted_quotedText (s : GoString) : ∀ p ∈ quotedText s, p.isQuoted = true := by
  intro p hp
  obtain ⟨b, -, rfl⟩ := List.mem_map.1 hp
  rfl

/-- Quoted text is the word that it is. -/
theorem expand_quotedText (vars : Vars) (s : GoString) :
    RawWord.expand vars (quotedText s) = some [s] := by
  rw [expand_of_quoted (isQuoted_quotedText s), marked_quotedText, map_some, text_quoted]

/-- The value of a variable in quotes, with a text after it. -/
theorem expand_var_quotedText {name value : GoString} (h : vars.lookup name = some value)
    (s : GoString) : RawWord.expand vars (.var name true :: quotedText s) = some [value ++ s] := by
  have hquoted : ∀ p ∈ .var name true :: quotedText s, p.isQuoted = true :=
    forall_mem_cons.2 ⟨rfl, isQuoted_quotedText s⟩
  rw [expand_of_quoted hquoted, RawWord.marked, h, marked_quotedText]
  simp

/-- All of the text prints. -/
def Printing (T : RuneTables) (s : GoString) : Prop := ∀ p ∈ decode s, Prints T p

instance (T : RuneTables) (s : GoString) : Decidable (Printing T s) :=
  inferInstanceAs (Decidable (∀ p ∈ _, _))

/-- No control characters print. -/
theorem Printing.not_mem (h : Printing T s) (hb : b < 0x80)
    (hcontrol : ¬ (0x20 ≤ b.toNat ∧ b.toNat ≤ 0x7E)) : b ∉ s := by
  intro hmem
  obtain ⟨p, hp, hrune⟩ := List.mem_map.1 (ascii_mem_runes hmem hb)
  have hprint := (h p hp).1
  rw [hrune, T.isPrint_ascii _ (UInt8.lt_iff_toNat_lt.1 hb), decide_eq_true_eq] at hprint
  exact hcontrol hprint

private theorem inQuotes_close (h : InQuotes m) :
    (step m 0x22 = (.failed, [])) ∨ ∃ w, step m 0x22 = (.word w.reverse, []) ∧
      (∀ p ∈ w, p.isQuoted = true) ∧ RawWord.countP (· == 0x24) w = held (· == 0x24) m := by
  have hclose : ∀ acc : RawWord, (∀ p ∈ acc, p.isQuoted = true) →
      ∃ w, (Mode.word acc, ([] : List Token)) = (.word w.reverse, []) ∧
        (∀ p ∈ w, p.isQuoted = true) ∧
        RawWord.countP (· == 0x24) w = RawWord.countP (· == 0x24) acc := by
    intro acc hacc
    exact ⟨acc.reverse, by rw [reverse_reverse], fun p hp => hacc p (mem_reverse.1 hp),
      RawWord.countP_reverse _ acc⟩
  obtain ⟨acc, hacc, rfl | rfl | ⟨name, rfl⟩⟩ := inQuotes_cases h
  · exact .inr (hclose acc hacc)
  · obtain ⟨w, hw, hquoted, hcount⟩ :=
      hclose (.byte 0x24 true :: acc) (forall_mem_cons.2 ⟨rfl, hacc⟩)
    rw [RawWord.countP_byte, Nat.add_comm] at hcount
    exact .inr ⟨w, hw, hquoted, hcount⟩
  · exact .inl rfl

private theorem transduce_goQuote (T : RuneTables) (s : GoString) :
    ∃ m, transduce step .blank (goQuote T s) = step m 0x22 ∧
      ∃ text, Reads text m ∧ s.length ≤ text.length ∧
        (text.length ≤ s.length → Printing T s) ∧ (Printing T s → text = s) ∧
        text.countP (· == 0x24) ≤ s.countP (· == 0x24) := by
  obtain ⟨f, hf, hrunes⟩ := exists_quoteBody T s
  obtain ⟨hreads, hout⟩ := reads_runes hrunes
  obtain ⟨hle, hprints⟩ := length_shown hrunes
  have hdollars := countP_shown_le hrunes
  rw [flatMap_decode] at hle hprints hdollars
  refine ⟨_, ?_, _, hreads, hle, hprints, fun hall => ?_, hdollars⟩
  · have hopen : step .blank 0x22 = (.double [], []) := rfl
    rw [goQuote_eq, transduce, hopen, hf, transduce_append, hout, transduce_singleton]
    rfl
  · exact (flatMap_congr fun p hp => if_pos (hall p hp)).trans (flatMap_decode s)

/-- Text that prints and in which nothing is expanded is read as it was before it was quoted. -/
theorem transduces_goQuote (hprints : Printing T s) (hs : InertText s) :
    Transduces step .blank (goQuote T s) (.word (quotedText s).reverse) [] := by
  obtain ⟨m, hrun, text, hreads, -, -, htext, -⟩ := transduce_goQuote T s
  obtain rfl := htext hprints
  rcases hreads with ⟨-, hliteral⟩ | ⟨hnot, -⟩
  · rw [Transduces, hrun, hliteral.close, append_nil]
  · exact absurd hs hnot

/-- A word that `%q` has written is the text that was quoted only if all of it prints and nothing in
it is expanded. -/
theorem goQuote_word (T : RuneTables) (s : GoString) :
    transduce step .blank (goQuote T s) = (.failed, []) ∨
      ∃ w, transduce step .blank (goQuote T s) = (.word w.reverse, []) ∧
        ∀ vars, Vars.most (· == 0x24) vars = 0 → RawWord.expand vars w = some [s] →
          Printing T s ∧ InertText s := by
  obtain ⟨m, hrun, text, hreads, hle, hprints, -, hdollars⟩ := transduce_goQuote T s
  rw [hrun]
  rcases hreads with ⟨hinert, hliteral⟩ | ⟨-, rfl | ⟨hin, hlost⟩⟩
  · refine .inr ⟨quotedText text, ?_, fun vars _ hexpand => ?_⟩
    · rw [hliteral.close, append_nil]
    · rw [expand_quotedText] at hexpand
      obtain rfl : text = s := by simpa using hexpand
      exact ⟨hprints (Nat.le_refl _), hinert⟩
  · exact .inl rfl
  · -- The word would have fewer dollar signs than the text.
    rcases inQuotes_close hin with hfail | ⟨w, hw, hquoted, hcount⟩
    · exact .inl hfail
    · refine .inr ⟨w, hw, fun vars hvars hexpand => ?_⟩
      rw [expand_of_quoted hquoted] at hexpand
      obtain ⟨x, hx, htext⟩ := map_eq_some_iff.1 hexpand
      obtain rfl : x.text = s := by simpa using htext
      have hbytes := countP_marked (· == 0x24) hx
      rw [hvars, hcount] at hbytes
      omega

end Written

/-! ### A line that ends in quoted text -/

/-- Where a script goes on after a line that ends in a quoted text in which nothing is expanded, if
there is at most one variable before it: no value has more quotes and backslashes than the text
leaves. -/
theorem exists_vars_of_runFrom {s y : GoString} {acc : RawWord} {vars : Vars} {frames : List Frame}
    {out : List (List GoString)} (hs : InertText s) (hacc : List.countP Piece.isVar acc ≤ 1)
    (hvars : Vars.most isMark vars = 0)
    (hdouble : finish (transduce step (.double []) y).1 = none)
    (hsingle : finish (transduce step (.single []) y).1 = none)
    (h : runFrom (.double acc) (some ⟨vars, frames, []⟩) (s ++ ([0x22, 0x0A] ++ y)) = some out) :
    ∃ vars' frames' out₁ out₂,
      runFrom .blank (some ⟨vars', frames', []⟩) y = some out₂ ∧ out₁ ++ out₂ = out ∧
      Vars.most isMark vars' ≤ held isMark (transduce step (.double acc) s).1 +
        ((transduce step (.double acc) s).2.map (Token.countP isMark)).sum ∧
      ∃ ts, Transduces step (transduce step (.double acc) s).1 [0x22, 0x0A] .blank ts := by
  have hfinish := finish_of_runFrom h
  rw [transduce_append] at hfinish
  obtain ⟨ts, hclose, hle⟩ := closed_of_finish hdouble hsingle hfinish
  have hread : Transduces step (.double acc) (s ++ [0x22, 0x0A]) .blank
      ((transduce step (.double acc) s).2 ++ (ts ++ [Token.newline])) :=
    Transduces.append rfl hclose
  have hinert : InertText (s ++ [0x22, 0x0A]) := by
    refine hs.append ⟨by decide, by decide⟩ fun c hc => ?_
    obtain rfl := some.inj hc
    rfl
  have hsingle : ∀ t ∈ (transduce step (.double acc) s).2 ++ (ts ++ [Token.newline]),
      t.countVars ≤ 1 := by
    intro t ht
    have hcount := (countVars_transduce hinert acc).2.2
    obtain ⟨front, rest, hsplit⟩ := append_of_mem ht
    rw [hread, hsplit] at hcount
    simp only [map_append, sum_append, map_cons, sum_cons] at hcount
    omega
  cases hexec : transduce exec (some ⟨vars, frames, []⟩)
      ((transduce step (.double acc) s).2 ++ (ts ++ [Token.newline])) with
  | mk st out₁ =>
    rw [← append_assoc, runFrom_append hread hexec] at h
    obtain ⟨out₂, hout₂, hout⟩ := map_eq_some_iff.1 h
    cases st with
    | none =>
      rw [runFrom_none] at hout₂
      cases hout₂
    | some st =>
      have hcount := most_vars_le isMark hvars hsingle hexec
      have hwords : st.words = [] := by
        rw [← append_assoc] at hexec
        exact words_of_newline hexec
      simp only [map_append, sum_append, map_singleton, sum_singleton, Token.countP] at hcount
      have hst : st = ⟨st.vars, st.frames, []⟩ := by
        rw [← hwords]
      rw [hst] at hout₂
      exact ⟨st.vars, st.frames, out₁, out₂, hout₂, hout, by omega, _, hclose⟩

end Athos.Shell.Script
