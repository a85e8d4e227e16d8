import Athos.Base.GoString
import Athos.Base.Transducer
import Mathlib.Data.List.TakeWhile

/-!
# Simple commands of the shell

How a POSIX shell reads a line that is one simple command: words with their quoting, variable
assignments before the first of them, and comments. Only what is the same in every environment is
read. A line with operators or with a parameter, command or arithmetic expansion is not read;
neither is one with a word that is a pattern for the names of files or starts with the name of a
home directory.
-/

namespace Athos.Shell

open Base List Option

/-! ### Words -/

/-- The bytes of a word, each with whether it was quoted. -/
abbrev Word := List (UInt8 × Bool)

/-- The bytes of a word after quote removal. -/
def Word.text (w : Word) : GoString := w.map Prod.fst

/-- An empty word has no text. -/
@[simp] theorem Word.text_nil : Word.text [] = [] := rfl

/-- The text of a byte and those after it. -/
@[simp] theorem Word.text_cons (x : UInt8 × Bool) (w : Word) :
    Word.text (x :: w) = x.1 :: w.text := rfl

/-- The text of words that follow each other. -/
@[simp] theorem Word.text_append (w w' : Word) : Word.text (w ++ w') = w.text ++ w'.text :=
  map_append

@[simp] private theorem Word.text_reverse (w : Word) : Word.text w.reverse = w.text.reverse :=
  map_reverse

/-- A word written without quotes. -/
def plain (s : GoString) : Word := s.map (·, false)

/-- A word in quotes. -/
def quoted (s : GoString) : Word := s.map (·, true)

@[simp] private theorem text_plain (s : GoString) : (plain s).text = s := by
  simp [plain, Word.text, Function.comp_def]

/-- Quoted bytes are the text. -/
@[simp] theorem text_quoted (s : GoString) : (quoted s).text = s := by
  simp [quoted, Word.text, Function.comp_def]

/-- Blank and tab. -/
def isBlank (b : UInt8) : Bool := b == 0x20 || b == 0x09

/-- Newline and `;`, `&`, `|`, `<`, `>`, `(`, `)`. -/
def isOperator (b : UInt8) : Bool :=
  b == 0x0A || b == 0x3B || b == 0x26 || b == 0x7C || b == 0x3C || b == 0x3E || b == 0x28 ||
    b == 0x29

/-- Single quote, double quote and backslash. -/
def isQuote (b : UInt8) : Bool := b == 0x27 || b == 0x22 || b == 0x5C

/-- Dollar sign and backquote. -/
def isExpansion (b : UInt8) : Bool := b == 0x24 || b == 0x60

/-- Bytes that stand for themselves within a word. -/
def isWordByte (b : UInt8) : Bool :=
  !(isBlank b || isOperator b || isQuote b || isExpansion b)

private theorem isQuote_of_isWordByte {b : UInt8} (h : isWordByte b = true) :
    isQuote b = false := by
  simp only [isWordByte, Bool.not_eq_true', Bool.or_eq_false_iff] at h
  exact h.1.2

private theorem isWordByte_spec {b : UInt8} (h : isWordByte b = true) :
    isBlank b = false ∧ isOperator b = false ∧ isExpansion b = false ∧
      b ≠ 0x27 ∧ b ≠ 0x22 ∧ b ≠ 0x5C := by
  have hquote := isQuote_of_isWordByte h
  simp only [isQuote, Bool.or_eq_false_iff, beq_eq_false_iff_ne, and_assoc] at hquote
  simp only [isWordByte, Bool.not_eq_true', Bool.or_eq_false_iff] at h
  exact ⟨h.1.1.1, h.1.1.2, h.2, hquote⟩

/-- Reader states. Accumulators hold the bytes of a word read so far, last byte first. An
escape that no word is open for may be the end of a continued line. -/
inductive Mode where
  | blank
  | word (acc : Word)
  | escape (acc : Option Word)
  | single (acc : Word)
  | double (acc : Word)
  | doubleEscape (acc : Word)
  | comment
  | failed
  deriving DecidableEq

/-- A byte outside quotes that is not blank. -/
def unquoted (acc : Word) (b : UInt8) : Mode :=
  if b = 0x27 then .single acc
  else if b = 0x22 then .double acc
  else if isOperator b || isExpansion b then .failed
  else .word ((b, false) :: acc)

/-- One byte of input. -/
def step : Mode → UInt8 → Mode × List Word
  | .blank, b =>
    (if isBlank b then .blank else if b = 0x23 then .comment
      else if b = 0x5C then .escape none else unquoted [] b, [])
  | .word acc, b =>
    if isBlank b then (.blank, [acc.reverse])
    else (if b = 0x5C then .escape (some acc) else unquoted acc b, [])
  | .escape acc, b =>
    (if b = 0x0A then acc.elim .blank .word else .word ((b, true) :: acc.getD []), [])
  | .single acc, b => (if b = 0x27 then .word acc else .single ((b, true) :: acc), [])
  | .double acc, b =>
    (if b = 0x22 then .word acc else if b = 0x5C then .doubleEscape acc
      else if isExpansion b then .failed else .double ((b, true) :: acc), [])
  | .doubleEscape acc, b =>
    -- In double quotes a backslash quotes only these; before other bytes it stays.
    (if b = 0x0A then .double acc
      else if isExpansion b || b == 0x22 || b == 0x5C then .double ((b, true) :: acc)
      else .double ((b, true) :: (0x5C, true) :: acc), [])
  | .comment, b => (if b = 0x0A then .failed else .comment, [])
  | .failed, _ => (.failed, [])

/-- The end of the line may not come within quotes. -/
def finish : Mode → Option (List Word)
  | .blank | .comment => some []
  | .word acc => some [acc.reverse]
  | .escape _ | .single _ | .double _ | .doubleEscape _ | .failed => none

/-- The words of the rest of a line. -/
def wordsFrom (m : Mode) (s : GoString) : Option (List Word) :=
  (finish (transduce step m s).1).map ((transduce step m s).2 ++ ·)

/-! ### Commands -/

/-- A simple command. -/
structure Command where
  assignments : List (GoString × GoString)
  words : List GoString
  deriving DecidableEq

/-- Bytes of variable names. -/
def isNameByte (b : UInt8) : Bool :=
  (0x41 ≤ b && b ≤ 0x5A) || (0x61 ≤ b && b ≤ 0x7A) || b == 0x5F || isDigitByte b

/-- Whether the word starts with the name of a home directory: an unquoted tilde, and nothing
quoted up to the first of the bytes that end the name. -/
def startsHome (stops : GoString) : Word → Bool
  | (0x7E, false) :: w => (w.takeWhile fun x => x.2 || !stops.contains x.1).all (!·.2)
  | _ => false

/-- Whether there is a name of a home directory where an assignment may have one: at the start
and after an unquoted colon. -/
def namesHome : Bool → Word → Bool
  | _, [] => false
  | here, x :: w => (here && startsHome (lit "/:") (x :: w)) || namesHome (x == (0x3A, false)) w

/-- Whether there is a closing bracket before the next slash. -/
def closesBracket : Word → Bool
  | [] => false
  | x :: w => x == (0x5D, false) || (x.1 != 0x2F && closesBracket w)

/-- Whether the word goes on with the members of a bracket expression and its end. The first
member may be a closing bracket. -/
def bracketMembers (w : Word) : Bool :=
  match if w.head? = some (0x21, false) then w.tail else w with
  | [] => false
  | x :: w => x.1 != 0x2F && closesBracket w

/-- Whether the word is a pattern, so that it may stand for the names of files. -/
def isPattern : Word → Bool
  | [] => false
  | x :: w =>
    (!x.2 && ((lit "*?").contains x.1 || (x.1 == 0x5B && bracketMembers w))) || isPattern w

/-- The word as it is in every environment. -/
def fixedWord (w : Word) : Option GoString :=
  if startsHome (lit "/") w || isPattern w then none else some w.text

/-- The value of an assignment as it is in every environment. Patterns are not expanded there. -/
def fixedValue (w : Word) : Option GoString := if namesHome true w then none else some w.text

/-- Name and value, if the word is an assignment. -/
def splitAssignment (w : Word) : Option (GoString × Word) :=
  let name := Word.text (w.takeWhile fun x => !x.2 && isNameByte x.1)
  match w.dropWhile fun x => !x.2 && isNameByte x.1 with
  | (0x3D, false) :: value =>
    if name.head?.all isDigitByte then none else some (name, value)
  | _ => none

/-- Assignments and, from the first other word on, the command. -/
def fixed : List Word → Option Command
  | [] => some ⟨[], []⟩
  | w :: ws =>
    match splitAssignment w with
    | some (name, value) => do
      let value ← fixedValue value
      let c ← fixed ws
      return { c with assignments := (name, value) :: c.assignments }
    | none => do return ⟨[], ← (w :: ws).mapM fixedWord⟩

/-- Words that are not the name of a command. -/
def reserved : List GoString :=
  [lit "!", lit "\x7b", lit "\x7d", lit "case", lit "do", lit "done", lit "elif", lit "else",
    lit "esac", lit "fi", lit "for", lit "if", lit "in", lit "then", lit "until", lit "while"]

/-- The simple command of a line. -/
def parse (line : GoString) : Option Command := do
  let ws ← wordsFrom .blank line
  if ws.head?.any fun w => w.all (!·.2) && reserved.contains w.text then none else fixed ws

/-! ### Reading words -/

section Reading

variable {s t : GoString} {m : Mode} {w : Word} {ws : List Word}

/-- A line is read from where its first part ends. -/
theorem wordsFrom_append {m' : Mode} (h : Transduces step m s m' ws) (t : GoString) :
    wordsFrom m (s ++ t) = (wordsFrom m' t).map (ws ++ ·) := by
  unfold Transduces at h
  rw [wordsFrom, wordsFrom, transduce_append, h, Option.map_map]
  simp [Function.comp_def]

private theorem unquoted_wordByte {b : UInt8} (h : isWordByte b = true) (acc : Word) :
    unquoted acc b = .word ((b, false) :: acc) := by
  simp [unquoted, isWordByte_spec h]

private theorem step_word {b : UInt8} (h : isWordByte b = true) (acc : Word) :
    step (.word acc) b = (.word ((b, false) :: acc), []) := by
  simp [step, isWordByte_spec h, unquoted_wordByte h]

private theorem transduces_word (h : ∀ b ∈ s, isWordByte b = true) (acc : Word) :
    Transduces step (.word acc) s (.word ((plain s).reverse ++ acc)) [] := by
  have hrun := Transduces.collect (f := fun l => Mode.word (plain l ++ acc))
    (fun b hb l => step_word (h b hb) (plain l ++ acc)) []
  simpa [plain] using hrun

/-- A word without quotes is read as it stands, unless it starts a comment. -/
theorem transduces_plain (h : ∀ b ∈ s, isWordByte b = true) (hne : s ≠ [])
    (hcomment : s.head? ≠ some 0x23) :
    Transduces step .blank s (.word (plain s).reverse) [] := by
  cases s with
  | nil => exact absurd rfl hne
  | cons b s =>
    have hb := h b mem_cons_self
    have hhash : b ≠ 0x23 := by simpa using hcomment
    have hopen : step .blank b = (.word [(b, false)], []) := by
      simp [step, isWordByte_spec hb, hhash, unquoted_wordByte hb]
    have hrest := transduces_word (fun c hc => h c (mem_cons_of_mem b hc)) [(b, false)]
    simpa [plain] using Transduces.silent hopen hrest

/-- The single quotes that a text needs: its own are written outside of them. -/
def singleQuote (s : GoString) : GoString :=
  0x27 :: (replaceByte 0x27 [0x27, 0x5C, 0x27, 0x27] s ++ [0x27])

private theorem transduces_single (s : GoString) (acc : Word) :
    Transduces step (.single acc) (replaceByte 0x27 [0x27, 0x5C, 0x27, 0x27] s)
      (.single ((quoted s).reverse ++ acc)) [] := by
  induction s generalizing acc with
  | nil => rfl
  | cons b s ih =>
    have hbyte : Transduces step (.single acc) (if b = 0x27 then [0x27, 0x5C, 0x27, 0x27] else [b])
        (.single ((b, true) :: acc)) [] := by
      split_ifs with hb
      · subst hb
        rfl
      · simp [Transduces, transduce, step, hb]
    have hrun := hbyte.append (ih ((b, true) :: acc))
    simpa [replaceByte, quoted] using hrun

/-- Every text can be read as one word. -/
theorem transduces_singleQuote (s : GoString) :
    Transduces step .blank (singleQuote s) (.word (quoted s).reverse) [] := by
  have hopen : step .blank 0x27 = (.single [], []) := rfl
  have hclose : Transduces step (.single (quoted s).reverse) [0x27] (.word (quoted s).reverse) [] :=
    rfl
  have hbody := transduces_single s []
  rw [append_nil] at hbody
  exact Transduces.silent hopen (hbody.append hclose)

private theorem transduces_close (w : Word) :
    Transduces step (.word w.reverse) [0x20] .blank [w] := by
  simp [Transduces, transduce, step, isBlank]

/-- A word ends at a blank. -/
theorem wordsFrom_word (h : Transduces step .blank s (.word w.reverse) []) (t : GoString) :
    wordsFrom .blank (s ++ 0x20 :: t) = (wordsFrom .blank t).map (w :: ·) := by
  rw [← singleton_append, ← append_assoc]
  exact wordsFrom_append (h.append (transduces_close w)) t

/-- The last word ends with the line. -/
theorem wordsFrom_last (h : Transduces step .blank s (.word w.reverse) []) :
    wordsFrom .blank s = some [w] := by
  have hline := wordsFrom_append h []
  rw [append_nil] at hline
  rw [hline]
  simp [wordsFrom, transduce, finish]

end Reading

/-! ### Where the bytes of words come from -/

section Bytes

variable {P : UInt8 → Bool} {s t : GoString} {m : Mode} {w : Word} {ws : List Word}

/-- The bytes of the open word, and a backslash that may become one. -/
def held (P : UInt8 → Bool) : Mode → Nat
  | .blank | .comment | .failed => 0
  | .word acc | .single acc | .double acc => acc.text.countP P
  | .escape acc => (acc.getD []).text.countP P
  | .doubleEscape acc => acc.text.countP P + [0x5C].countP P

private theorem held_unquoted (P : UInt8 → Bool) (acc : Word) (b : UInt8) :
    held P (unquoted acc b) ≤ acc.text.countP P + [b].countP P := by
  unfold unquoted
  split_ifs <;> simp [held, countP_cons]

private theorem held_step (P : UInt8 → Bool) (m : Mode) (b : UInt8) :
    held P (step m b).1 + ((step m b).2.map (·.text.countP P)).sum ≤ held P m + [b].countP P := by
  cases m with
  | blank =>
    simp only [step, map_nil, sum_nil, Nat.add_zero]
    have hopen := held_unquoted P [] b
    split_ifs <;> simp_all [held]
  | word acc =>
    have hopen := held_unquoted P acc b
    simp only [step]
    split_ifs <;> simp_all [held]
  | escape acc =>
    simp only [step, map_nil, sum_nil, Nat.add_zero]
    cases acc <;> split_ifs <;> simp [held, countP_cons]
  | double acc =>
    simp only [step, map_nil, sum_nil, Nat.add_zero]
    split_ifs with _ hslash <;> simp_all [held, countP_cons]
  | single | doubleEscape | comment =>
    simp only [step, map_nil, sum_nil, Nat.add_zero]
    split_ifs <;> simp [held, countP_cons] <;> omega
  | failed => simp [step, held]

private theorem countP_wordsFrom_le (P : UInt8 → Bool) (h : wordsFrom m s = some ws) :
    (ws.map (·.text.countP P)).sum ≤ held P m + s.countP P := by
  have hfinish : ∀ m' fs, finish m' = some fs →
      (fs.map (·.text.countP P)).sum ≤ held P m' + 0 := by
    intro m' fs hfs
    cases m' <;> simp only [finish, some.injEq, reduceCtorEq] at hfs <;>
      subst hfs <;> simp [held]
  have hle := finished_weight_le (transduce_weight_le (held_step P) m s) hfinish h
  rw [sum_countP_singleton] at hle
  exact hle

/-- Words read from a text without quotes. -/
def Clean (w : Word) : Prop := ∀ x ∈ w, isWordByte x.1 = true ∧ x.2 = false

/-- The reader has seen no quotes. -/
def Mode.Clean : Mode → Prop
  | .blank | .comment | .failed => True
  | .word acc => Shell.Clean acc
  | .escape _ | .single _ | .double _ | .doubleEscape _ => False

private theorem clean_unquoted {acc : Word} (hacc : Clean acc) {b : UInt8}
    (hblank : isBlank b = false) (hquote : isQuote b = false) : (unquoted acc b).Clean := by
  have hb := hquote
  simp only [isQuote, Bool.or_eq_false_iff, beq_eq_false_iff_ne] at hb
  simp only [unquoted, hb, ↓reduceIte]
  split_ifs with hspecial
  · trivial
  · rw [Bool.not_eq_true, Bool.or_eq_false_iff] at hspecial
    refine forall_mem_cons.2 ⟨⟨?_, rfl⟩, hacc⟩
    simp [isWordByte, hblank, hquote, hspecial]

private theorem clean_step {m : Mode} (hm : m.Clean) {b : UInt8} (hquote : isQuote b = false) :
    (step m b).1.Clean ∧ ∀ w ∈ (step m b).2, Clean w := by
  have hslash : b ≠ 0x5C := by
    rintro rfl
    cases hquote
  cases m with
  | blank =>
    simp only [step, if_neg hslash, not_mem_nil, false_implies, implies_true, and_true]
    split_ifs with hblank
    · trivial
    · trivial
    · exact clean_unquoted (forall_mem_nil _) (by simpa using hblank) hquote
  | word acc =>
    simp only [step, if_neg hslash]
    split_ifs with hblank
    · refine ⟨trivial, ?_⟩
      intro w hw x hx
      obtain rfl := mem_singleton.1 hw
      exact hm x (mem_reverse.1 hx)
    · exact ⟨clean_unquoted hm (by simpa using hblank) hquote, nofun⟩
  | comment =>
    simp only [step, not_mem_nil, false_implies, implies_true, and_true]
    split_ifs <;> trivial
  | failed => exact ⟨trivial, nofun⟩
  | escape | single | double | doubleEscape => exact hm.elim

private theorem clean_transduce (hs : ∀ b ∈ s, isQuote b = false) (hm : m.Clean) :
    (transduce step m s).1.Clean ∧ ∀ w ∈ (transduce step m s).2, Clean w :=
  transduce_invariant (I := Mode.Clean) (fun _ hm b hb => clean_step hm (hs b hb)) hm

private theorem clean_wordsFrom (hs : ∀ b ∈ s, isQuote b = false) (hm : m.Clean)
    (h : wordsFrom m s = some ws) : ∀ w ∈ ws, Clean w := by
  obtain ⟨hlast, hout⟩ := clean_transduce hs hm
  obtain ⟨fs, hfinish, rfl⟩ := map_eq_some_iff.1 h
  intro w hw
  rcases mem_append.1 hw with hw | hw
  · exact hout w hw
  · revert hfinish hlast
    generalize (transduce step m s).1 = m'
    intro hlast hfinish
    cases m' with
    | blank | comment =>
      obtain rfl := some.inj hfinish
      cases hw
    | word acc =>
      obtain rfl := some.inj hfinish
      obtain rfl := mem_singleton.1 hw
      intro x hx
      exact hlast x (mem_reverse.1 hx)
    | escape | single | double | doubleEscape | failed => cases hfinish

private theorem Clean.eq_plain (h : Clean w) : w = plain w.text := by
  induction w with
  | nil => rfl
  | cons x w ih =>
    obtain ⟨hx, hw⟩ := forall_mem_cons.1 h
    rw [Word.text_cons, plain, map_cons, ← plain, ← ih hw, ← hx.2]

section

variable (hP : ∀ b, isWordByte b = true → P b = false)

include hP

private theorem Clean.countP_eq_zero (h : Clean w) : w.text.countP P = 0 := by
  rw [List.countP_eq_zero]
  intro b hb
  obtain ⟨x, hx, rfl⟩ := List.mem_map.1 hb
  simp [hP _ (h x hx).1]

private theorem Mode.Clean.held_eq_zero (hm : m.Clean) : held P m = 0 := by
  cases m with
  | blank | comment | failed => rfl
  | word acc => exact Clean.countP_eq_zero hP hm
  | escape | single | double | doubleEscape => exact hm.elim

private theorem countP_after_clean (hs : ∀ b ∈ s, isQuote b = false)
    (h : wordsFrom .blank (s ++ t) = some ws) :
    ∃ m ws', m.Clean ∧ wordsFrom m t = some ws' ∧
      (ws.map (·.text.countP P)).sum = (ws'.map (·.text.countP P)).sum := by
  obtain ⟨hm, hout⟩ := clean_transduce hs (m := .blank) trivial
  have hrun : Transduces step .blank s (transduce step .blank s).1 (transduce step .blank s).2 :=
    rfl
  rw [wordsFrom_append hrun] at h
  obtain ⟨ws', hws', rfl⟩ := map_eq_some_iff.1 h
  refine ⟨_, ws', hm, hws', ?_⟩
  have hzero : ∀ w ∈ (transduce step .blank s).2, w.text.countP P = 0 :=
    fun w hw => (hout w hw).countP_eq_zero hP
  rw [map_append, sum_append, map_congr_left hzero]
  simp

end

-- Whatever a quote opens, it is not a byte of a word.
private theorem held_step_quote (hm : m.Clean) {c : UInt8} (hc : isQuote c = true) :
    held isQuote (step m c).1 = 0 ∧ (step m c).2 = [] := by
  have hheld := hm.held_eq_zero (fun _ => isQuote_of_isWordByte)
  simp only [isQuote, Bool.or_eq_true, beq_iff_eq] at hc
  cases m with
  | blank | comment | failed => rcases hc with (rfl | rfl) | rfl <;> exact ⟨rfl, rfl⟩
  | word acc => rcases hc with (rfl | rfl) | rfl <;> exact ⟨hheld, rfl⟩
  | escape | single | double | doubleEscape => exact hm.elim

private theorem quote_free_of_countP (h : wordsFrom .blank s = some ws)
    (hall : s.countP isQuote ≤ (ws.map (·.text.countP isQuote)).sum) :
    ∀ b ∈ s, isQuote b = false := by
  by_contra hnot
  have hsplit := takeWhile_append_dropWhile (p := (!isQuote ·)) (l := s)
  have hclean : ∀ b ∈ s.takeWhile (!isQuote ·), isQuote b = false := by
    intro b hb
    simpa using mem_takeWhile_imp hb
  cases hrest : s.dropWhile (!isQuote ·) with
  | nil =>
    rw [hrest, append_nil] at hsplit
    rw [hsplit] at hclean
    exact hnot hclean
  | cons c rest =>
    have hc : isQuote c = true := by
      have := head?_dropWhile_not (!isQuote ·) s
      rw [hrest] at this
      simpa using this
    rw [hrest] at hsplit
    rw [← hsplit] at h hall
    obtain ⟨m, ws', hm, hws', hsum⟩ := countP_after_clean (fun _ => isQuote_of_isWordByte) hclean h
    have hopen := held_step_quote hm hc
    have hone : Transduces step m [c] (step m c).1 (step m c).2 := transduce_singleton step m c
    rw [← singleton_append, wordsFrom_append hone, hopen.2] at hws'
    obtain ⟨fs, hfs, rfl⟩ := map_eq_some_iff.1 hws'
    have hbound := countP_wordsFrom_le isQuote hfs
    rw [hopen.1] at hbound
    rw [List.countP_append, countP_cons_of_pos hc, hsum] at hall
    simp only [nil_append] at hall
    omega

end Bytes

/-! ### Words that are the same in every environment -/

section Fixed

variable {s t : GoString} {w : Word} {ws : List Word} {c : Command}

private theorem text_of_fixedWord (h : fixedWord w = some t) : w.text = t := by
  rw [fixedWord] at h
  split_ifs at h
  exact some.inj h

/-- A fixed value is the text of its word. -/
theorem text_of_fixedValue (h : fixedValue w = some t) : w.text = t := by
  rw [fixedValue] at h
  split_ifs at h
  exact some.inj h

private theorem isPattern_quoted (s : GoString) : isPattern (quoted s) = false := by
  induction s with
  | nil => rfl
  | cons b s ih => simpa [quoted, isPattern] using ih

/-- Nothing is expanded in quotes. -/
theorem fixedWord_quoted (s : GoString) : fixedWord (quoted s) = some s := by
  have hhome : startsHome (lit "/") (quoted s) = false := by
    cases s with
    | nil => rfl
    | cons b s => simp [quoted, startsHome]
  rw [fixedWord, hhome, isPattern_quoted, text_quoted]
  rfl

/-- Quoted text is a fixed value. -/
theorem fixedValue_quoted (s : GoString) : fixedValue (quoted s) = some s := by
  have hhome : ∀ here, namesHome here (quoted s) = false := by
    induction s with
    | nil => exact fun _ => rfl
    | cons b s ih =>
      intro here
      have hcons : quoted (b :: s) = (b, true) :: quoted s := rfl
      rw [hcons, namesHome, ih]
      simp [startsHome]
  rw [fixedValue, hhome, text_quoted]
  rfl

private theorem startsHome_plain (stops s : GoString) :
    startsHome stops (plain s) = true ↔ s.head? = some 0x7E := by
  cases s with
  | nil => simp [plain, startsHome]
  | cons b s =>
    by_cases hb : b = 0x7E
    · subst hb
      simp only [plain, map_cons, startsHome, head?_cons, iff_true, List.all_eq_true]
      intro x hx
      obtain ⟨d, -, rfl⟩ := List.mem_map.1 ((takeWhile_sublist _).subset hx)
      rfl
    · simp [plain, startsHome, hb]

/-- A word without quotes is fixed if it is neither a pattern nor starts with a tilde. -/
theorem fixedWord_plain_iff :
    fixedWord (plain s) = some s ↔ s.head? ≠ some 0x7E ∧ isPattern (plain s) = false := by
  rw [fixedWord, text_plain, ite_none_left_eq_some, Bool.or_eq_true, not_or,
    startsHome_plain, Bool.not_eq_true, and_iff_left rfl]

/-- Without its special bytes a word is no pattern. -/
theorem isPattern_plain (h : ∀ b ∈ s, b ∉ lit "*?[") : isPattern (plain s) = false := by
  induction s with
  | nil => rfl
  | cons b s ih =>
    obtain ⟨hb, hs⟩ := forall_mem_cons.1 h
    have hpattern : lit "*?[" = lit "*?" ++ [0x5B] := rfl
    rw [hpattern, mem_append, not_or, mem_singleton] at hb
    have hrest : isPattern (List.map (·, false) s) = false := ih hs
    simp [plain, isPattern, hrest, hb]

private theorem namesHome_plain (here : Bool) (s : GoString) :
    namesHome here (plain s) = true ↔
      (here = true ∧ s.head? = some 0x7E) ∨ [0x3A, 0x7E] <:+: s := by
  induction s generalizing here with
  | nil => simp [plain, namesHome]
  | cons b s ih =>
    have hcons : plain (b :: s) = (b, false) :: plain s := rfl
    have hcolon : ((b, false) == ((0x3A : UInt8), false)) = true ↔ b = 0x3A := by simp
    rw [hcons, namesHome, ← hcons, Bool.or_eq_true, Bool.and_eq_true, startsHome_plain, ih,
      infix_cons_iff, hcolon, cons_prefix_cons]
    have htilde : [0x7E] <+: s ↔ s.head? = some 0x7E := by
      cases s <;> simp [eq_comm]
    rw [htilde, eq_comm (a := b)]

/-- The value of an assignment without quotes is fixed if there is no tilde where it names a
home directory. -/
theorem fixedValue_plain_iff :
    fixedValue (plain s) = some s ↔ s.head? ≠ some 0x7E ∧ ¬ [0x3A, 0x7E] <:+: s := by
  rw [fixedValue, text_plain, ite_none_left_eq_some, namesHome_plain]
  simp

variable {name rest : GoString} {ts more : List GoString}

private theorem splitAssignment_eq_some {value : Word}
    (h : splitAssignment w = some (name, value)) :
    w.text = name ++ 0x3D :: value.text ∧ value ⊆ w := by
  have hsplit := takeWhile_append_dropWhile (p := fun x => !x.2 && isNameByte x.1) (l := w)
  unfold splitAssignment at h
  extract_lets text at h
  split at h
  · next value' hdrop =>
    split_ifs at h
    obtain ⟨rfl, rfl⟩ := Prod.mk.inj (some.inj h)
    rw [hdrop] at hsplit
    constructor
    · conv_lhs => rw [← hsplit]
      simp [text]
    · intro x hx
      rw [← hsplit]
      simp [hx]
  · cases h

/-- Words are fixed one by one. -/
theorem mapM_fixedWord_cons :
    (w :: ws).mapM fixedWord = some ts ↔
      ∃ u us, fixedWord w = some u ∧ ws.mapM fixedWord = some us ∧ u :: us = ts := by
  rw [mapM_cons]
  simp [bind_eq_some_iff]

private theorem texts_of_mapM (h : ws.mapM fixedWord = some ts) : ws.map Word.text = ts := by
  have htexts := (Base.mapM_eq_some_iff.1 h).imp fun _ _ => text_of_fixedWord
  rwa [← forall₂_map_left_iff (R := Eq), forall₂_eq_eq_eq] at htexts

private theorem fixed_cons_eq_some (h : fixed (w :: ws) = some c) :
    (∃ name value v c', splitAssignment w = some (name, value) ∧ fixedValue value = some v ∧
      fixed ws = some c' ∧ c = ⟨(name, v) :: c'.assignments, c'.words⟩) ∨
    (splitAssignment w = none ∧ c.assignments = [] ∧ (w :: ws).mapM fixedWord = some c.words) := by
  rw [fixed] at h
  cases hsplit : splitAssignment w with
  | none =>
    rw [hsplit] at h
    obtain ⟨ts, hts, hc⟩ := bind_eq_some_iff.1 h
    obtain rfl := some.inj hc
    exact .inr ⟨rfl, rfl, hts⟩
  | some p =>
    rw [hsplit] at h
    obtain ⟨v, hv, hrest⟩ := bind_eq_some_iff.1 h
    obtain ⟨c', hc', hc⟩ := bind_eq_some_iff.1 hrest
    obtain rfl := some.inj hc
    exact .inl ⟨p.1, p.2, v, c', rfl, hv, hc', rfl⟩

/-- A leading assignment is set apart. -/
theorem fixed_assignment {value : GoString} {v : Word} (hsplit : splitAssignment w = some (name, v))
    (hv : fixedValue v = some value) (hws : fixed ws = some c) :
    fixed (w :: ws) = some ⟨(name, value) :: c.assignments, c.words⟩ := by
  rw [fixed, hsplit]
  simp [hv, hws]

/-- Where no assignment leads, all words are arguments. -/
theorem fixed_words (hsplit : splitAssignment w = none) (h : (w :: ws).mapM fixedWord = some ts) :
    fixed (w :: ws) = some ⟨[], ts⟩ := by
  rw [fixed, hsplit]
  simp [h]

/-- The bytes of a command. -/
def Command.countP (P : UInt8 → Bool) (c : Command) : Nat :=
  (c.assignments.map fun a => (a.1 ++ 0x3D :: a.2).countP P).sum +
    (c.words.map (·.countP P)).sum

private theorem countP_fixed (P : UInt8 → Bool) (h : fixed ws = some c) :
    (ws.map (·.text.countP P)).sum = c.countP P := by
  unfold Command.countP
  induction ws generalizing c with
  | nil =>
    obtain rfl := some.inj h
    rfl
  | cons w ws ih =>
    obtain ⟨name, value, v, c', hsplit, hv, hc', rfl⟩ | ⟨-, hc, hwords⟩ := fixed_cons_eq_some h
    · simp only [map_cons, sum_cons, ih hc', (splitAssignment_eq_some hsplit).1,
        text_of_fixedValue hv, Nat.add_assoc]
    · rw [hc, ← texts_of_mapM hwords, List.map_map]
      simp [Function.comp_def]

/-- A command without assignments has its words as they are. -/
theorem mapM_of_fixed (h : fixed ws = some c) (hc : c.assignments = []) :
    ws.mapM fixedWord = some c.words := by
  cases ws with
  | nil =>
    obtain rfl := some.inj h
    rfl
  | cons w ws =>
    obtain ⟨name, value, v, c', -, -, -, rfl⟩ | ⟨-, -, hwords⟩ := fixed_cons_eq_some h
    · cases hc
    · exact hwords

private theorem wordsFrom_comment (h : wordsFrom .comment s = some ws) : ws = [] := by
  have hstep : ∀ m : Mode, m = .comment ∨ m = .failed → ∀ b ∈ s,
      ((step m b).1 = .comment ∨ (step m b).1 = .failed) ∧ ∀ w ∈ (step m b).2, False := by
    rintro m (rfl | rfl) b -
    · simp only [step]
      split_ifs <;> simp
    · simp [step]
  obtain ⟨hlast, hout⟩ := transduce_invariant hstep (s := .comment) (.inl rfl)
  obtain ⟨fs, hfinish, rfl⟩ := map_eq_some_iff.1 h
  rcases hlast with hlast | hlast
  · rw [hlast] at hfinish
    obtain rfl := some.inj hfinish
    rw [append_nil]
    exact eq_nil_iff_forall_not_mem.2 hout
  · rw [hlast] at hfinish
    cases hfinish

private theorem wordBytes_of_wordsFrom (hquote : ∀ b ∈ s, isQuote b = false)
    (hrest : ∀ b ∈ s, rest.count b ≤ (more.map (·.count b)).sum)
    (h : wordsFrom .blank (s ++ 0x20 :: rest) = some ws) (htexts : ws.map Word.text = s :: more) :
    ∀ b ∈ s, isWordByte b = true := by
  intro b hb
  by_contra hnot
  have hP : ∀ d, isWordByte d = true → (d == b) = false := by
    intro d hd
    rw [beq_eq_false_iff_ne]
    rintro rfl
    exact hnot hd
  have hclean : ∀ d ∈ s ++ [0x20], isQuote d = false := by
    rw [forall_mem_append, forall_mem_singleton]
    exact ⟨hquote, rfl⟩
  rw [← singleton_append, ← append_assoc] at h
  obtain ⟨m, ws', hm, hws', hsum⟩ := countP_after_clean hP hclean h
  have hbound := countP_wordsFrom_le (· == b) hws'
  rw [hm.held_eq_zero hP] at hbound
  have hall : (ws.map (·.text.countP (· == b))).sum = s.count b + (more.map (·.count b)).sum := by
    have hcounts := congrArg (fun l => (l.map (·.count b)).sum) htexts
    simpa [Function.comp_def, List.count] using hcounts
  have hpos := count_pos_iff.2 hb
  have hle := hrest b hb
  have hcount : rest.countP (· == b) = rest.count b := rfl
  omega

private theorem words_of_head_comment (hhead : s.head? = some 0x23)
    (h : wordsFrom .blank s = some ws) :
    ws = [] := by
  obtain ⟨s', rfl⟩ : ∃ s', s = 0x23 :: s' := head?_eq_some_iff.1 hhead
  have hopen : Transduces step .blank [0x23] .comment [] := rfl
  rw [← singleton_append, wordsFrom_append hopen] at h
  obtain ⟨ws', hws', rfl⟩ := map_eq_some_iff.1 h
  rw [wordsFrom_comment hws', append_nil]

/-- A text without quotes before a blank is read as one fixed word only if it is one. -/
theorem wordByte_of_wordsFrom (hquote : ∀ b ∈ s, isQuote b = false) (hne : s ≠ [])
    (hrest : ∀ b ∈ s, rest.count b ≤ (more.map (·.count b)).sum)
    (h : wordsFrom .blank (s ++ 0x20 :: rest) = some ws)
    (hfixed : ws.mapM fixedWord = some (s :: more)) :
    (∀ b ∈ s, isWordByte b = true) ∧ s.head? ≠ some 0x23 ∧ fixedWord (plain s) = some s := by
  have hbytes := wordBytes_of_wordsFrom hquote hrest h (texts_of_mapM hfixed)
  have hcomment : s.head? ≠ some 0x23 := by
    intro hhead
    have hline : (s ++ 0x20 :: rest).head? = some 0x23 := by
      rw [head?_append_of_ne_nil _ hne, hhead]
    rw [words_of_head_comment hline h] at hfixed
    cases hfixed
  refine ⟨hbytes, hcomment, ?_⟩
  rw [wordsFrom_word (transduces_plain hbytes hne hcomment)] at h
  obtain ⟨ws', -, rfl⟩ := map_eq_some_iff.1 h
  obtain ⟨u, us, hu, -, hcons⟩ := mapM_fixedWord_cons.1 hfixed
  rw [(List.cons.inj hcons).1] at hu
  exact hu

end Fixed

/-! ### Reading commands -/

section Commands

variable {s line : GoString} {ws : List Word} {c : Command}

/-- A line is parsed by its words. -/
theorem parse_eq_some (h : parse line = some c) :
    ∃ ws, wordsFrom .blank line = some ws ∧ fixed ws = some c := by
  obtain ⟨ws, hws, hfixed⟩ := bind_eq_some_iff.1 h
  split_ifs at hfixed
  exact ⟨ws, hws, hfixed⟩

/-- A line whose first word is not reserved is a command. -/
theorem parse_of_not_reserved (h : wordsFrom .blank line = some (plain s :: ws))
    (hs : reserved.contains s = false) : parse line = fixed (plain s :: ws) := by
  have hhead : ((plain s :: ws).head?.any fun w => w.all (!·.2) && reserved.contains w.text) =
      false := by
    rw [head?_cons, any_some, text_plain, hs, Bool.and_false]
  rw [parse, h, bind_eq_bind, bind_some, hhead]
  rfl

/-- The bytes of a command are bytes of its line. -/
theorem countP_le_of_parse (P : UInt8 → Bool) (h : parse line = some c) :
    c.countP P ≤ line.countP P := by
  obtain ⟨ws, hws, hfixed⟩ := parse_eq_some h
  rw [← countP_fixed P hfixed]
  simpa [held] using countP_wordsFrom_le P hws

/-- If no quote of the line is lost, the value of the first assignment was written without any. -/
theorem value_of_parse {name value : GoString} {more : List (GoString × GoString)}
    {words : List GoString} (h : parse line = some ⟨(name, value) :: more, words⟩)
    (hquotes : line.countP isQuote ≤ Command.countP isQuote ⟨(name, value) :: more, words⟩) :
    (∀ b ∈ value, isWordByte b = true) ∧ fixedValue (plain value) = some value := by
  obtain ⟨ws, hws, hfixed⟩ := parse_eq_some h
  rw [← countP_fixed isQuote hfixed] at hquotes
  have hclean := clean_wordsFrom (quote_free_of_countP hws hquotes) (m := .blank) trivial hws
  cases ws with
  | nil => cases hfixed
  | cons w ws =>
    obtain ⟨name', v, value', c', hsplit, hv, -, hc⟩ | ⟨-, hnone, -⟩ := fixed_cons_eq_some hfixed
    · obtain rfl : value = value' := by
        injection hc with hassignments
        injection hassignments with hfirst
        exact (Prod.mk.inj hfirst).2
      have hvclean : Clean v := fun x hx => hclean w mem_cons_self x
        ((splitAssignment_eq_some hsplit).2 hx)
      have htext := text_of_fixedValue hv
      rw [hvclean.eq_plain, htext] at hv hvclean
      refine ⟨?_, hv⟩
      intro b hb
      exact (hvclean (b, false) (List.mem_map_of_mem hb)).1
    · cases hnone

end Commands

end Athos.Shell
