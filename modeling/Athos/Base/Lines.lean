import Athos.Base.Strings

/-!
# Texts of lines

The lines of a text as a `bufio.Scanner` delivers them, and runs of lines between separators: a run
ends at a separator if not all of its lines are blank.
-/

namespace Athos.Base

open List

/-- Lines one after the other, each with its newline. -/
def unlines (lines : List GoString) : GoString := lines.flatMap (· ++ [0x0A])

/-- The lines of a text, also one that no newline ends. -/
def rawLines (s : GoString) : List GoString :=
  let parts := s.splitOn 0x0A
  if parts.getLast? = some [] then parts.dropLast else parts

/-- `dropCR` of the package `bufio`. -/
def dropCR (line : GoString) : GoString :=
  if line.getLast? = some 0x0D then line.dropLast else line

/-- What a `bufio.Scanner` with a buffer of `limit` bytes delivers of a text, and whether it comes
to the end: a line that fills the buffer ends the scan with `bufio.ErrTooLong`. -/
def scanLines (limit : Nat) (s : GoString) : List GoString × Bool :=
  (((rawLines s).takeWhile fun line => line.length < limit).map dropCR,
    (rawLines s).all fun line => line.length < limit)

variable {s line : GoString} {lines : List GoString}

/-- A text whose lines fit is delivered line by line. -/
theorem scanLines_eq {limit : Nat} (h : ∀ line ∈ rawLines s, line.length < limit) :
    scanLines limit s = ((rawLines s).map dropCR, true) := by
  have hfit : ∀ line ∈ rawLines s, decide (line.length < limit) = true := fun line hline =>
    decide_eq_true (h line hline)
  rw [scanLines, takeWhile_eq_self_iff.2 hfit, all_eq_true.2 hfit]

/-- No lines have no text. -/
@[simp] theorem unlines_nil : unlines [] = [] := rfl

/-- The text of a line and of those after it. -/
@[simp] theorem unlines_cons (line : GoString) (lines : List GoString) :
    unlines (line :: lines) = line ++ 0x0A :: unlines lines := by
  rw [unlines, flatMap_cons, append_assoc, singleton_append]
  rfl

/-- The text of lines that follow each other. -/
@[simp] theorem unlines_append (front back : List GoString) :
    unlines (front ++ back) = unlines front ++ unlines back := flatMap_append

/-- The text of groups of lines. -/
theorem unlines_flatten (parts : List (List GoString)) :
    unlines parts.flatten = (parts.map unlines).flatten := by
  induction parts with
  | nil => rfl
  | cons part parts ih =>
    rw [flatten_cons, unlines_append, ih, map_cons, flatten_cons]

/-- Texts of lines are split back into them, with an empty text after the last newline. -/
theorem splitOn_unlines (h : ∀ line ∈ lines, 0x0A ∉ line) :
    (unlines lines).splitOn 0x0A = lines ++ [[]] := by
  induction lines with
  | nil => rfl
  | cons line lines ih =>
    rw [unlines_cons, splitOn_append_cons_self_of_not_mem (h line mem_cons_self),
      ih fun l hl => h l (mem_cons_of_mem _ hl), cons_append]

/-- Lines without a newline are read back from their text. -/
theorem rawLines_unlines (h : ∀ line ∈ lines, 0x0A ∉ line) : rawLines (unlines lines) = lines := by
  simp [rawLines, splitOn_unlines h]

private theorem mem_splitOn_of_mem_rawLines (h : line ∈ rawLines s) : line ∈ s.splitOn 0x0A := by
  rw [rawLines] at h
  split at h
  · exact mem_of_mem_dropLast h
  · exact h

/-- A line has no newline in it. -/
theorem not_mem_of_mem_rawLines (h : line ∈ rawLines s) : 0x0A ∉ line :=
  not_mem_of_mem_splitOn (mem_splitOn_of_mem_rawLines h)

/-- A text that ends in a newline is the text of its lines. -/
theorem unlines_rawLines_concat (s : GoString) :
    unlines (rawLines (s ++ [0x0A])) = s ++ [0x0A] := by
  have hinter : ∀ parts : List GoString, parts ≠ [] →
      unlines parts = List.intercalate [0x0A] parts ++ [0x0A] := by
    intro parts hne
    induction parts with
    | nil => exact absurd rfl hne
    | cons part parts ih =>
      cases parts with
      | nil => simp
      | cons next parts =>
        rw [unlines_cons, ih (cons_ne_nil _ _), intercalate_cons_cons]
        simp
  have hsplit : rawLines (s ++ [0x0A]) = s.splitOn 0x0A := by
    rw [rawLines, splitOn_append_cons_self]
    simp
  rw [hsplit, hinter _ (splitOn_ne_nil _ _), intercalate_splitOn]

/-- The bytes of the lines are bytes of the text. -/
theorem mem_of_mem_rawLines (h : line ∈ rawLines s) : ∀ b ∈ line, b ∈ s :=
  fun _ hb => (of_mem_splitOnP (mem_splitOn_of_mem_rawLines h)).2.subset hb

/-- A line without a carriage return keeps its end. -/
theorem dropCR_of_not_mem (h : 0x0D ∉ line) : dropCR line = line := by
  rw [dropCR, if_neg fun hlast => h (mem_of_getLast? hlast)]

/-- What is dropped stands at the end. -/
theorem dropCR_isPrefix (line : GoString) : dropCR line <+: line := by
  unfold dropCR
  split
  · exact dropLast_prefix line
  · exact prefix_rfl

/-- A carriage return at the end of a line is space. -/
theorem trimSpace_dropCR (line : GoString) : trimSpace (dropCR line) = trimSpace line := by
  unfold dropCR
  split
  · next h =>
    obtain ⟨front, rfl⟩ := getLast?_eq_some_iff.1 h
    rw [dropLast_concat, trimSpace_concat (by decide) (by decide)]
  · rfl

/-- Nothing but space. -/
def isBlankText (s : GoString) : Bool := trimSpace s = []

/-- A carriage return is blank. -/
theorem isBlankText_dropCR (line : GoString) : isBlankText (dropCR line) = isBlankText line := by
  rw [isBlankText, isBlankText, trimSpace_dropCR]

/-- A text is blank exactly if all its lines are. -/
theorem isBlankText_unlines (lines : List GoString) :
    isBlankText (unlines lines) = lines.all isBlankText := by
  have hrunes : ∀ line rest : GoString,
      runes (line ++ 0x0A :: rest) = runes line ++ 0x0A :: runes rest := by
    intro line rest
    rw [runes, decode_append_cons (by decide), decode_cons_ascii (by decide), map_append, map_cons]
    rfl
  rw [Bool.eq_iff_iff]
  induction lines with
  | nil => exact iff_of_true rfl rfl
  | cons line lines ih =>
    rw [all_cons, Bool.and_eq_true, ← ih]
    simp only [isBlankText, decide_eq_true_eq, trimSpace_eq_nil_iff, unlines_cons, hrunes,
      forall_mem_append, forall_mem_cons]
    constructor
    · rintro ⟨h, -, hrest⟩
      exact ⟨h, hrest⟩
    · rintro ⟨h, hrest⟩
      exact ⟨h, by decide, hrest⟩

/-- Newlines at the end of a text of lines stand for empty lines. -/
theorem rdropWhile_unlines (h : lines.rdropWhile (· = []) ≠ [])
    (hnl : ∀ line ∈ lines, 0x0A ∉ line) :
    (unlines lines).rdropWhile (· == 0x0A) ++ [0x0A] = unlines (lines.rdropWhile (· = [])) := by
  induction lines using List.reverseRecOn with
  | nil => exact absurd rfl h
  | append_singleton lines line ih =>
    by_cases hline : line = []
    · subst hline
      rw [rdropWhile_concat_pos _ _ _ (by simp)] at h ⊢
      have hlast : unlines (lines ++ [[]]) = unlines lines ++ [0x0A] := by simp
      rw [hlast, rdropWhile_concat_pos _ _ _ (by simp)]
      exact ih h fun l hl => hnl l (mem_append_left _ hl)
    · obtain ⟨front, b, rfl⟩ := (eq_nil_or_concat line).resolve_left hline
      rw [concat_eq_append] at *
      have hb : (b == 0x0A) = false := by
        rw [beq_eq_false_iff_ne]
        rintro rfl
        exact hnl _ (mem_append_right _ mem_cons_self) (by simp)
      have htext : unlines (lines ++ [front ++ [b]]) =
          (unlines lines ++ front ++ [b]) ++ [0x0A] := by simp
      rw [htext, rdropWhile_concat_pos _ _ _ (by simp), rdropWhile_concat_neg _ _ _ (by simp [hb]),
        rdropWhile_concat_neg _ _ _ (by simp), htext]

section Intercalate

variable {α β : Type}

private theorem flatMap_intercalate (g : α → List β) (sep : List α) (parts : List (List α)) :
    (sep.intercalate parts).flatMap g = (sep.flatMap g).intercalate (parts.map (·.flatMap g)) := by
  induction parts with
  | nil => rfl
  | cons part parts ih =>
    cases parts with
    | nil => simp
    | cons next parts =>
      rw [intercalate_cons_cons, flatMap_append, flatMap_append, ih, map_cons,
        map_cons, map_cons, intercalate_cons_cons]

/-- A map on the parts and on what stands between them. -/
theorem map_intercalate (f : α → β) (sep : List α) (parts : List (List α)) :
    (sep.intercalate parts).map f = (sep.map f).intercalate (parts.map (·.map f)) := by
  simp only [map_eq_flatMap (f := f)]
  exact flatMap_intercalate _ sep parts

/-- What holds of the parts and of what stands between them holds of the whole. -/
theorem forall_mem_intercalate {P : α → Prop} {sep : List α} (hsep : ∀ a ∈ sep, P a)
    {parts : List (List α)} (h : ∀ part ∈ parts, ∀ a ∈ part, P a) :
    ∀ a ∈ sep.intercalate parts, P a := by
  induction parts with
  | nil => intro a ha; cases ha
  | cons part parts ih =>
    have hpart := h part mem_cons_self
    have hrest := ih fun p hp => h p (mem_cons_of_mem _ hp)
    cases parts with
    | nil => simpa using hpart
    | cons next parts =>
      rw [intercalate_cons_cons]
      simpa only [forall_mem_append] using ⟨⟨hpart, hsep⟩, hrest⟩

end Intercalate

/-- Texts of lines with a separating line between them. -/
theorem unlines_intercalate (sep : GoString) (parts : List (List GoString)) :
    unlines ([sep].intercalate parts) = (sep ++ [0x0A]).intercalate (parts.map unlines) := by
  rw [unlines, flatMap_intercalate, flatMap_singleton]
  rfl

section Runs

variable {α : Type} (sep blank : α → Bool)

/-- The runs of lines between separators. A separator after blank lines alone does not end the
run: the lines are kept for the next one. -/
def runsFrom (pending : List α) : List α → List (List α)
  | [] => if pending.all blank then [] else [pending]
  | line :: lines =>
    if sep line then
      if pending.all blank then runsFrom pending lines else pending :: runsFrom [] lines
    else runsFrom (pending ++ [line]) lines

variable {sep blank}

/-- No line that is neither blank nor a separator is lost, and their order is kept. -/
theorem filter_flatten_runsFrom (pending lines : List α) :
    (runsFrom sep blank pending lines).flatten.filter (fun l => !blank l) =
      pending.filter (fun l => !blank l) ++ lines.filter (fun l => !blank l && !sep l) := by
  have hblank : pending.all blank = true → pending.filter (fun l => !blank l) = [] := by
    intro h
    rw [filter_eq_nil_iff]
    intro l hl
    simp [all_eq_true.1 h l hl]
  induction lines generalizing pending with
  | nil =>
    rw [runsFrom]
    split
    · next h => simp [hblank h]
    · simp
  | cons line lines ih =>
    rw [runsFrom]
    split
    · next hsep =>
      split
      · next h =>
        rw [ih pending hblank]
        simp [hsep]
      · rw [flatten_cons, filter_append, ih [] fun _ => rfl]
        simp [hsep]
    · next hsep =>
      rw [ih (pending ++ [line])]
      · cases hline : blank line <;> simp [filter_append, hline, hsep]
      · intro h
        rw [filter_eq_nil_iff]
        intro l hl
        simp [all_eq_true.1 h l hl]

/-- Runs are not blank, have no separator, and their lines are lines of the text. -/
theorem of_mem_runsFrom {pending lines : List α} (hpending : ∀ l ∈ pending, sep l = false)
    {run : List α} (h : run ∈ runsFrom sep blank pending lines) :
    run.all blank = false ∧ (∀ l ∈ run, sep l = false) ∧ ∀ l ∈ run, l ∈ pending ++ lines := by
  induction lines generalizing pending with
  | nil =>
    rw [runsFrom] at h
    split at h
    · cases h
    · next hblank =>
      obtain rfl := mem_singleton.1 h
      exact ⟨Bool.eq_false_iff.2 hblank, hpending, fun l hl => mem_append_left _ hl⟩
  | cons line lines ih =>
    rw [runsFrom] at h
    split at h
    · split at h
      · obtain ⟨hrun, hsep, hmem⟩ := ih hpending h
        refine ⟨hrun, hsep, fun l hl => ?_⟩
        rcases mem_append.1 (hmem l hl) with hl | hl
        · exact mem_append_left _ hl
        · exact mem_append_right _ (mem_cons_of_mem _ hl)
      · next hblank =>
        rcases mem_cons.1 h with rfl | h
        · exact ⟨Bool.eq_false_iff.2 hblank, hpending, fun l hl => mem_append_left _ hl⟩
        · obtain ⟨hrun, hsep, hmem⟩ := ih (by simp) h
          exact ⟨hrun, hsep, fun l hl =>
            mem_append_right _ (mem_cons_of_mem _ (by simpa using hmem l hl))⟩
    · next hline =>
      have hsep' : ∀ l ∈ pending ++ [line], sep l = false := by
        simpa [or_imp, forall_and, hline] using hpending
      simpa using ih hsep' h

private theorem runsFrom_append {more : List α} (h : ∀ l ∈ more, sep l = false)
    (pending lines : List α) :
    runsFrom sep blank pending (more ++ lines) = runsFrom sep blank (pending ++ more) lines := by
  induction more generalizing pending with
  | nil => rw [nil_append, append_nil]
  | cons line more ih =>
    rw [cons_append, runsFrom, if_neg (by simp [h line mem_cons_self]),
      ih fun l hl => h l (mem_cons_of_mem _ hl), append_assoc, singleton_append]

/-- Runs written with separators between them are found again. -/
theorem runsFrom_intercalate {s : α} (hs : sep s = true) {runs : List (List α)}
    (hblank : ∀ run ∈ runs, run.all blank = false) (hsep : ∀ run ∈ runs, ∀ l ∈ run, sep l = false) :
    runsFrom sep blank [] ([s].intercalate runs) = runs := by
  induction runs with
  | nil => rfl
  | cons run runs ih =>
    have hrun := hblank run mem_cons_self
    have hfree := hsep run mem_cons_self
    cases runs with
    | nil =>
      rw [intercalate_singleton, ← append_nil run, runsFrom_append hfree, runsFrom]
      simp [hrun]
    | cons next runs =>
      rw [intercalate_cons_cons, append_assoc, runsFrom_append hfree,
        singleton_append, runsFrom, if_pos hs, nil_append, hrun,
        ih (fun r hr => hblank r (mem_cons_of_mem _ hr))
          (fun r hr => hsep r (mem_cons_of_mem _ hr))]
      rfl

end Runs

end Athos.Base
