import Athos.Base.Lines
import Mathlib.Algebra.GroupWithZero.Nat

/-!
# Server configuration

How PostgreSQL reads `postgresql.conf`: one assignment a line, with comments after `#`. A value is a
string in quotes, or an identifier, an integer with a unit or a real number without them; every
other line is a syntax error. Which further bytes a value without quotes may have after its first
letter is a parameter. Directives that include other files are left out.
-/

namespace Athos.Server.Conf

open Base List Option

/-! ### Tokens -/

/-- Blanks between tokens. -/
def isBlank (b : UInt8) : Bool := b == 0x20 || b == 0x09 || b == 0x0D

/-- Letters; all bytes beyond ASCII are. -/
def isLetter (b : UInt8) : Bool :=
  (0x41 ≤ b && b ≤ 0x5A) || (0x61 ≤ b && b ≤ 0x7A) || b == 0x5F || 0x80 ≤ b

/-- Letters of units. -/
def isUnitLetter (b : UInt8) : Bool := (0x41 ≤ b && b ≤ 0x5A) || (0x61 ≤ b && b ≤ 0x7A)

/-- Hexadecimal digits. -/
def isHexDigit (b : UInt8) : Bool :=
  isDigitByte b || (0x41 ≤ b && b ≤ 0x46) || (0x61 ≤ b && b ≤ 0x66)

/-- Octal digits. -/
def isOctalDigit (b : UInt8) : Bool := 0x30 ≤ b && b ≤ 0x37

/-- A letter, then letters and digits. -/
def isIdentifier : GoString → Bool
  | [] => false
  | b :: s => isLetter b && s.all fun c => isLetter c || isDigitByte c

/-- Two identifiers with a dot between them. -/
def isQualified (s : GoString) : Bool :=
  s.contains 0x2E && isIdentifier (cutByte 0x2E s).1 && isIdentifier (cutByte 0x2E s).2

/-- A letter, then letters, digits and the further bytes. -/
def isWord (further : UInt8 → Bool) : GoString → Bool
  | [] => false
  | b :: s => isLetter b && s.all fun c => isLetter c || isDigitByte c || further c

/-- The text after a sign. -/
def unsigned : GoString → GoString
  | [] => []
  | b :: s => if b = 0x2D ∨ b = 0x2B then s else b :: s

/-- Digits, or `0x` and hexadecimal digits, and then the letters of a unit. -/
def isInteger (s : GoString) : Bool :=
  ((unsigned s).takeWhile isDigitByte != [] &&
      ((unsigned s).dropWhile isDigitByte).all isUnitLetter) ||
    ((unsigned s).take 2 == lit "0x" && ((unsigned s).drop 2).takeWhile isHexDigit != [] &&
      (((unsigned s).drop 2).dropWhile isHexDigit).all isUnitLetter)

/-- Nothing, or an exponent. -/
def isExponent : GoString → Bool
  | [] => true
  | b :: s => (b == 0x45 || b == 0x65) && unsigned s != [] && (unsigned s).all isDigitByte

/-- Digits around a point, and an exponent. -/
def isReal (s : GoString) : Bool :=
  match (unsigned s).dropWhile isDigitByte with
  | 0x2E :: fraction => isExponent (fraction.dropWhile isDigitByte)
  | _ => false

/-- A value without quotes. Two identifiers with a dot are the name of a parameter. -/
def isPlainValue (further : UInt8 → Bool) (s : GoString) : Bool :=
  isIdentifier s || (isWord further s && !isQualified s) || isInteger s || isReal s

/-! ### Quoted strings -/

/-- The text up to the closing quote and what follows it. A quote that is doubled or after a
backslash does not close. -/
def quotedBody : GoString → Option (GoString × GoString)
  | [] => none
  | 0x5C :: [] => none
  | 0x5C :: c :: s => (quotedBody s).map fun p => (0x5C :: c :: p.1, p.2)
  | 0x27 :: 0x27 :: s => (quotedBody s).map fun p => (0x27 :: 0x27 :: p.1, p.2)
  | 0x27 :: s => some ([], s)
  | b :: s => (quotedBody s).map fun p => (b :: p.1, p.2)

/-- The character that a letter after a backslash stands for. -/
def escapeChar (c : UInt8) : UInt8 :=
  if c = 0x62 then 0x08 else if c = 0x66 then 0x0C else if c = 0x6E then 0x0A
  else if c = 0x72 then 0x0D else if c = 0x74 then 0x09 else c

/-- The octal digits at the head of a text, at most three. -/
def octalDigits (s : GoString) : GoString := (s.take 3).takeWhile isOctalDigit

/-- The byte that octal digits stand for. -/
def octalValue (digits : GoString) : UInt8 :=
  UInt8.ofNat (digits.foldl (fun v d => v * 8 + (d.toNat - 0x30)) 0)

/-- The string a quoted text stands for; the number says how many bytes are still to be skipped
because an escape has used them. -/
def deescape : Nat → GoString → GoString
  | _, [] => []
  | skip + 1, _ :: s => deescape skip s
  | 0, b :: s =>
    if b = 0x5C then
      if octalDigits s ≠ [] then octalValue (octalDigits s) :: deescape (octalDigits s).length s
      else
        match s with
        | [] => []
        | c :: _ => escapeChar c :: deescape 1 s
    else if b = 0x27 then 0x27 :: deescape 1 s
    else b :: deescape 0 s

/-! ### Lines -/

/-- Nothing but blanks and a comment. -/
def atEnd (s : GoString) : Bool :=
  match s.dropWhile isBlank with
  | [] => true
  | b :: _ => b == 0x23

/-- A value up to the end of its line. -/
def readValue (further : UInt8 → Bool) : GoString → Option GoString
  | 0x27 :: s =>
    match quotedBody s with
    | some (body, rest) => if atEnd rest then some (deescape 0 body) else none
    | none => none
  | s =>
    let word := s.takeWhile fun b => !isBlank b && b != 0x23
    let rest := s.dropWhile fun b => !isBlank b && b != 0x23
    if isPlainValue further word && atEnd rest then some word else none

/-- The value after a name, with an equals sign or without. -/
def readAssigned (further : UInt8 → Bool) (s : GoString) : Option GoString :=
  match s.dropWhile isBlank with
  | 0x3D :: s => readValue further (s.dropWhile isBlank)
  | s => readValue further s

/-- A name of a parameter. -/
def isName (s : GoString) : Bool := isIdentifier s || isQualified s

/-- Bytes that end a name. -/
def endsName (b : UInt8) : Bool := isBlank b || b == 0x3D || b == 0x23 || b == 0x27

/-- An assignment, nothing on an empty line, or a syntax error. -/
def readLine (further : UInt8 → Bool) (line : GoString) :
    Option (Option (GoString × GoString)) :=
  if atEnd line then some none
  else
    let text := line.dropWhile isBlank
    let name := text.takeWhile fun b => !endsName b
    if isName name then
      (readAssigned further (text.dropWhile fun b => !endsName b)).map fun v => some (name, v)
    else none

/-- The assignments of a file in their order; one wrong line makes the whole file wrong. -/
def readFile (further : UInt8 → Bool) (s : GoString) : Option (List (GoString × GoString)) :=
  ((s.splitOn 0x0A).mapM (readLine further)).map fun lines => lines.filterMap id

/-! ### Files made of lines -/

section Lines

variable {further : UInt8 → Bool}

private theorem readFile_lines {lines : List GoString} (h : ∀ line ∈ lines, 0x0A ∉ line) :
    readFile further (lines.flatMap (· ++ [0x0A])) =
      (lines.mapM (readLine further)).map fun entries => entries.filterMap id := by
  have hsplit : (lines.flatMap (· ++ [0x0A])).splitOn 0x0A = lines ++ [[]] := splitOn_unlines h
  -- The text after the last newline is empty.
  have hempty : [[]].mapM (readLine further) = some [none] := rfl
  rw [readFile, hsplit, mapM_append, hempty]
  cases lines.mapM (readLine further) with
  | none => rfl
  | some entries =>
    show some ((entries ++ [none]).filterMap id) = some (entries.filterMap id)
    rw [filterMap_append]
    simp

private theorem chars_of_isIdentifier {s : GoString} (h : isIdentifier s = true) :
    ∃ b t, s = b :: t ∧ isLetter b = true ∧
      ∀ c ∈ s, isLetter c = true ∨ isDigitByte c = true := by
  cases s with
  | nil => cases h
  | cons b t =>
    rw [isIdentifier, Bool.and_eq_true, List.all_eq_true] at h
    refine ⟨b, t, rfl, h.1, ?_⟩
    intro c hc
    rcases mem_cons.1 hc with rfl | hc
    · exact .inl h.1
    · exact Bool.or_eq_true_iff.1 (h.2 c hc)

private theorem chars_of_isName {s : GoString} (h : isName s = true) :
    ∃ b t, s = b :: t ∧ isLetter b = true ∧
      ∀ c ∈ s, isLetter c = true ∨ isDigitByte c = true ∨ c = 0x2E := by
  rw [isName, Bool.or_eq_true] at h
  rcases h with h | h
  · obtain ⟨b, t, rfl, hb, hchars⟩ := chars_of_isIdentifier h
    exact ⟨b, t, rfl, hb, fun c hc => (hchars c hc).imp_right .inl⟩
  · rw [isQualified, Bool.and_eq_true, Bool.and_eq_true, contains_iff_mem] at h
    obtain ⟨⟨hdot, hleft⟩, hright⟩ := h
    obtain ⟨b, t, hcut, hb, hleft⟩ := chars_of_isIdentifier hleft
    obtain ⟨-, -, -, -, hright⟩ := chars_of_isIdentifier hright
    have hsplit := cutByte_append hdot
    refine ⟨b, t ++ 0x2E :: (cutByte 0x2E s).2, ?_, hb, ?_⟩
    · calc s = (cutByte 0x2E s).1 ++ 0x2E :: (cutByte 0x2E s).2 := hsplit
        _ = b :: (t ++ 0x2E :: (cutByte 0x2E s).2) := by rw [hcut, cons_append]
    · intro c hc
      rw [hsplit, mem_append, mem_cons] at hc
      rcases hc with hc | rfl | hc
      · exact (hleft c hc).imp_right .inl
      · exact .inr (.inr rfl)
      · exact (hright c hc).imp_right .inl

private theorem not_endsName {c : UInt8}
    (h : isLetter c = true ∨ isDigitByte c = true ∨ c = 0x2E) : endsName c = false := by
  grind [isLetter, isDigitByte, endsName, isBlank]

private theorem not_isBlank_of_isLetter {b : UInt8} (h : isLetter b = true) :
    isBlank b = false ∧ b ≠ 0x23 := by
  grind [isLetter, isBlank]

private theorem readLine_assignment {name : GoString} (hname : isName name = true)
    (text : GoString) :
    readLine further (name ++ lit " = " ++ text) =
      (readValue further (text.dropWhile isBlank)).map fun v => some (name, v) := by
  obtain ⟨b, t, rfl, hb, hchars⟩ := chars_of_isName hname
  obtain ⟨hblank, hcomment⟩ := not_isBlank_of_isLetter hb
  have hline : b :: t ++ lit " = " ++ text = b :: t ++ 0x20 :: 0x3D :: 0x20 :: text := by
    rw [append_assoc]
    rfl
  have hdrop : (b :: t ++ 0x20 :: 0x3D :: 0x20 :: text).dropWhile isBlank =
      b :: t ++ 0x20 :: 0x3D :: 0x20 :: text := by
    rw [cons_append, dropWhile_cons_of_neg (by rw [hblank]; exact Bool.false_ne_true)]
  have hends : ∀ c ∈ b :: t, (!endsName c) = true := by
    intro c hc
    rw [not_endsName (hchars c hc)]
    rfl
  have hname' : (b :: t ++ 0x20 :: 0x3D :: 0x20 :: text).takeWhile (fun c => !endsName c) =
      b :: t := by
    rw [takeWhile_append_of_pos hends]
    simp [endsName, isBlank]
  have hrest : (b :: t ++ 0x20 :: 0x3D :: 0x20 :: text).dropWhile (fun c => !endsName c) =
      0x20 :: 0x3D :: 0x20 :: text := by
    rw [dropWhile_append_of_pos hends]
    simp [endsName, isBlank]
  have hnotend : atEnd (b :: t ++ 0x20 :: 0x3D :: 0x20 :: text) = false := by
    rw [atEnd, hdrop]
    simpa using hcomment
  rw [hline, readLine, hnotend, hdrop]
  simp only [Bool.false_eq_true, ↓reduceIte, hname', hrest]
  rw [if_pos hname]
  rfl

/-- The line of an assignment. -/
def assignment (entry : GoString × GoString) : GoString := entry.1 ++ lit " = " ++ entry.2

/-- What the texts of assignments read as. -/
def readEntries (further : UInt8 → Bool) (entries : List (GoString × GoString)) :
    Option (List (GoString × GoString)) :=
  entries.mapM fun p => (readValue further (p.2.dropWhile isBlank)).map (Prod.mk p.1)

variable {entries out : List (GoString × GoString)}

/-- Each assignment is read with its own name. -/
theorem readEntries_eq_some_iff :
    readEntries further entries = some out ↔
      Forall₂ (fun p q => p.1 = q.1 ∧ readValue further (p.2.dropWhile isBlank) = some q.2)
        entries out := by
  have hentry : ∀ p q : GoString × GoString,
      (readValue further (p.2.dropWhile isBlank)).map (Prod.mk p.1) = some q ↔
        p.1 = q.1 ∧ readValue further (p.2.dropWhile isBlank) = some q.2 := by
    rintro p ⟨n, v⟩
    simp [and_comm]
  simp only [readEntries, mapM_eq_some_iff, hentry]

/-- Texts that can be read are read together. -/
theorem exists_readEntries
    (h : ∀ p ∈ entries, (readValue further (p.2.dropWhile isBlank)).isSome = true) :
    ∃ out, readEntries further entries = some out := by
  simp only [readEntries_eq_some_iff]
  induction entries with
  | nil => exact ⟨[], .nil⟩
  | cons p entries ih =>
    obtain ⟨out, hout⟩ := ih fun q hq => h q (mem_cons_of_mem _ hq)
    obtain ⟨v, hv⟩ := isSome_iff_exists.1 (h p mem_cons_self)
    exact ⟨(p.1, v) :: out, .cons ⟨rfl, hv⟩ hout⟩

/-- The names are those that were written. -/
theorem map_fst_of_readEntries (h : readEntries further entries = some out) :
    out.map Prod.fst = entries.map Prod.fst := by
  rw [readEntries_eq_some_iff] at h
  induction h with
  | nil => rfl
  | cons hhead _ ih => rw [map_cons, map_cons, ih, hhead.1]

/-- Every entry is read. -/
theorem exists_mem_of_readEntries (h : readEntries further entries = some out)
    {p : GoString × GoString} (hp : p ∈ entries) :
    ∃ v, (p.1, v) ∈ out ∧ readValue further (p.2.dropWhile isBlank) = some v := by
  obtain ⟨q, hq, hname, hread⟩ := exists_of_forall₂_left (readEntries_eq_some_iff.1 h) hp
  exact ⟨q.2, hname ▸ hq, hread⟩

private theorem mapM_assignment (hnames : ∀ p ∈ entries, isName p.1 = true) :
    ((entries.map assignment).mapM (readLine further)).map (fun lines => lines.filterMap id) =
      readEntries further entries := by
  induction entries with
  | nil => rfl
  | cons p entries ih =>
    have ih := ih fun q hq => hnames q (mem_cons_of_mem _ hq)
    rw [readEntries, map_cons, mapM_cons, mapM_cons, ← readEntries, ← ih, assignment,
      readLine_assignment (hnames p mem_cons_self)]
    cases readValue further (p.2.dropWhile isBlank) with
    | none => rfl
    | some v =>
      cases (entries.map assignment).mapM (readLine further) <;> rfl

/-- A file of comments and assignments reads as the assignments. -/
theorem readFile_assignments {comments : List GoString}
    (hcomments : ∀ line ∈ comments, 0x0A ∉ line ∧ atEnd line = true)
    (hnames : ∀ p ∈ entries, isName p.1 = true) (hvalues : ∀ p ∈ entries, 0x0A ∉ p.2) :
    readFile further ((comments ++ entries.map assignment).flatMap (· ++ [0x0A])) =
      readEntries further entries := by
  have hlines : ∀ line ∈ comments ++ entries.map assignment, 0x0A ∉ line := by
    intro line hline
    rcases mem_append.1 hline with hline | hline
    · exact (hcomments line hline).1
    · obtain ⟨p, hp, rfl⟩ := List.mem_map.1 hline
      obtain ⟨b, t, -, -, hchars⟩ := chars_of_isName (hnames p hp)
      have hname : 0x0A ∉ p.1 := fun h => absurd (hchars _ h) (by decide)
      simp only [assignment, mem_append, not_or]
      exact ⟨⟨hname, by decide⟩, hvalues p hp⟩
  rw [readFile_lines hlines, ← mapM_assignment hnames]
  clear hlines
  induction comments with
  | nil => rfl
  | cons line comments ih =>
    have ih := ih fun l hl => hcomments l (mem_cons_of_mem _ hl)
    have hline : readLine further line = some none :=
      if_pos (hcomments line mem_cons_self).2
    rw [← ih, cons_append, mapM_cons, hline]
    cases (comments ++ entries.map assignment).mapM (readLine further) <;> rfl

end Lines

/-! ### Settings

Names are compared without regard to the case of ASCII letters, and the last assignment of a
name is the one that counts. -/

section Settings

/-- The further bytes of words in the server's own grammar: dash, dot, slash and colon. -/
def wordBytes (b : UInt8) : Bool := b == 0x2D || b == 0x2E || b == 0x2F || b == 0x3A

/-- The name in lower case. -/
def foldName (name : GoString) : GoString := name.map asciiLower

/-- The last entry of a name. -/
def lastNamed (entries : List (GoString × GoString)) (name : GoString) :
    Option (GoString × GoString) :=
  (entries.filter fun p => foldName p.1 == foldName name).getLast?

/-- The value of a parameter, if the file sets it. -/
def effective (assignments : List (GoString × GoString)) (name : GoString) : Option GoString :=
  (lastNamed assignments name).map Prod.snd

variable {further : UInt8 → Bool} {entries out : List (GoString × GoString)} {name : GoString}
  {p : GoString × GoString}

/-- Later entries come first. -/
theorem lastNamed_cons : lastNamed (p :: entries) name =
    (lastNamed entries name).or (if foldName p.1 = foldName name then some p else none) := by
  rw [lastNamed, filter_cons]
  by_cases h : foldName p.1 = foldName name
  · rw [if_pos (beq_iff_eq.2 h), if_pos h, getLast?_cons, lastNamed]
    cases List.getLast? _ <;> rfl
  · rw [if_neg (by rwa [beq_iff_eq]), if_neg h, or_none, lastNamed]

/-- The value of a parameter is what its last text reads as. -/
theorem effective_of_readEntries (h : readEntries further entries = some out) (name : GoString) :
    effective out name =
      (lastNamed entries name).bind fun p => readValue further (p.2.dropWhile isBlank) := by
  rw [readEntries_eq_some_iff] at h
  -- Both last entries are missing, or one reads as the other.
  suffices lastNamed entries name = none ∧ lastNamed out name = none ∨
      ∃ p q, lastNamed entries name = some p ∧ lastNamed out name = some q ∧
        readValue further (p.2.dropWhile isBlank) = some q.2 by
    rcases this with ⟨hentries, hout⟩ | ⟨p, q, hentries, hout, hread⟩
    · rw [effective, hentries, hout]
      rfl
    · rw [effective, hentries, hout]
      exact hread.symm
  induction h with
  | nil => exact .inl ⟨rfl, rfl⟩
  | @cons p q entries out hhead _ ih =>
    rw [lastNamed_cons, lastNamed_cons, ← hhead.1]
    rcases ih with ⟨hentries, hout⟩ | ⟨p', q', hentries, hout, hread⟩
    · rw [hentries, hout, none_or, none_or]
      split_ifs
      · exact .inr ⟨p, q, rfl, rfl, hhead.2⟩
      · exact .inl ⟨rfl, rfl⟩
    · rw [hentries, hout]
      exact .inr ⟨p', q', rfl, rfl, hread⟩

/-- In a sorted list the last entry of a name is the greatest one. -/
theorem lastNamed_eq_some_iff
    (hsorted : entries.Pairwise fun p q => compare p.1 q.1 = .lt) :
    lastNamed entries name = some p ↔ p ∈ entries ∧ foldName p.1 = foldName name ∧
      ∀ q ∈ entries, foldName q.1 = foldName name → q = p ∨ compare q.1 p.1 = .lt := by
  have hmem : ∀ q, q ∈ (entries.filter fun p => foldName p.1 == foldName name) ↔
      q ∈ entries ∧ foldName q.1 = foldName name := by
    intro q
    rw [mem_filter, beq_iff_eq]
  have hforward : ∀ p, lastNamed entries name = some p →
      p ∈ entries ∧ foldName p.1 = foldName name ∧
        ∀ q ∈ entries, foldName q.1 = foldName name → q = p ∨ compare q.1 p.1 = .lt := by
    intro p h
    obtain ⟨front, hfront⟩ := getLast?_eq_some_iff.1 h
    have hp := (hmem p).1 (by rw [hfront]; exact mem_append_right _ mem_cons_self)
    refine ⟨hp.1, hp.2, ?_⟩
    intro q hq hname
    have hq := (hmem q).2 ⟨hq, hname⟩
    have hfiltered := hsorted.filter fun p => foldName p.1 == foldName name
    rw [hfront] at hq hfiltered
    rcases mem_append.1 hq with hq | hq
    · exact .inr ((pairwise_append.1 hfiltered).2.2 q hq p mem_cons_self)
    · exact .inl (mem_singleton.1 hq)
  constructor
  · exact hforward p
  · rintro ⟨hp, hname, hgreatest⟩
    cases hlast : lastNamed entries name with
    | none =>
      have hnil := getLast?_eq_none_iff.1 hlast
      have := (hmem p).2 ⟨hp, hname⟩
      rw [hnil] at this
      cases this
    | some z =>
      obtain ⟨hz, hzname, hzgreatest⟩ := hforward z hlast
      rcases hgreatest z hz hzname with rfl | hlt
      · rfl
      · rcases hzgreatest p hp hname with rfl | hgt
        · rfl
        · rw [Std.OrientedCmp.gt_of_lt hgt] at hlt
          cases hlt

/-- A name has no last entry if it has none. -/
theorem lastNamed_eq_none_iff :
    lastNamed entries name = none ↔ ∀ q ∈ entries, foldName q.1 ≠ foldName name := by
  rw [lastNamed, getLast?_eq_none_iff, filter_eq_nil_iff]
  simp only [beq_iff_eq]

/-- Folding a name twice is folding it once. -/
@[simp] theorem foldName_foldName (name : GoString) : foldName (foldName name) = foldName name := by
  rw [foldName, foldName, List.map_map]
  apply map_congr_left
  intro b _
  grind [asciiLower]

/-- Names are told from other texts without regard to case. -/
theorem isName_foldName (name : GoString) : isName (foldName name) = isName name := by
  have hletter : ∀ b, isLetter (asciiLower b) = isLetter b := by
    intro b
    grind [isLetter, asciiLower]
  have hdigit : ∀ b, isDigitByte (asciiLower b) = isDigitByte b := by
    intro b
    grind [isDigitByte, asciiLower]
  have hdot : ∀ b, (asciiLower b != 0x2E) = (b != 0x2E) := by
    intro b
    grind [asciiLower]
  have hidentifier : ∀ s : GoString, isIdentifier (s.map asciiLower) = isIdentifier s := by
    intro s
    cases s with
    | nil => rfl
    | cons b s => simp [isIdentifier, hletter, hdigit, List.all_map, Function.comp_def]
  have hcut : cutByte 0x2E (name.map asciiLower) =
      ((cutByte 0x2E name).1.map asciiLower, (cutByte 0x2E name).2.map asciiLower) := by
    rw [cutByte, cutByte, takeWhile_map, dropWhile_map, map_tail]
    simp only [Function.comp_def, hdot]
  have hmem : (name.map asciiLower).contains 0x2E = name.contains 0x2E := by
    have hiff : ∀ b, asciiLower b = 0x2E ↔ b = 0x2E := by
      intro b
      grind [asciiLower]
    rw [Bool.eq_iff_iff]
    simp [hiff]
  rw [isName, isName, isQualified, isQualified, foldName, hcut, hmem, hidentifier, hidentifier,
    hidentifier]

/-- What a file assigns has a name. -/
theorem isName_of_readFile {s : GoString} (h : readFile further s = some out) :
    ∀ p ∈ out, isName p.1 = true := by
  obtain ⟨lines, hlines, rfl⟩ := map_eq_some_iff.1 h
  have hline : ∀ line entry, readLine further line = some (some entry) →
      isName entry.1 = true := by
    intro line entry hread
    unfold readLine at hread
    extract_lets text word at hread
    split_ifs at hread with hend hname
    · cases some.inj hread
    · obtain ⟨v, -, hv⟩ := map_eq_some_iff.1 hread
      obtain rfl := some.inj hv
      exact hname
  intro p hp
  obtain ⟨entry, hentry, rfl⟩ := mem_filterMap.1 hp
  obtain ⟨line, -, hread⟩ := exists_of_forall₂_right (mapM_eq_some_iff.1 hlines) hentry
  exact hline line p hread

/-- A setting with a value is among the entries. -/
theorem exists_mem_of_effective {v : GoString} (h : effective out name = some v) :
    ∃ q ∈ out, foldName q.1 = foldName name := by
  obtain ⟨q, hq, -⟩ := map_eq_some_iff.1 h
  have hmem := mem_filter.1 (mem_of_getLast? hq)
  exact ⟨q, hmem.1, beq_iff_eq.1 hmem.2⟩

private theorem foldByte_lt {a : UInt8} (h : asciiLower a ≠ a) : a < asciiLower a := by
  grind [asciiLower]

/-- The name in lower case is the greatest of its spellings. -/
theorem compare_foldName {a : GoString} (h : foldName a ≠ a) : compare a (foldName a) = .lt := by
  induction a with
  | nil => exact absurd rfl h
  | cons b a ih =>
    rw [foldName, map_cons, List.compare_cons_cons]
    by_cases hb : asciiLower b = b
    · have ha : foldName a ≠ a := by
        intro he
        apply h
        rw [foldName, map_cons, hb]
        exact congrArg _ he
      have hself : compare b b = .eq := Std.ReflCmp.compare_self
      rw [hb, hself]
      exact ih ha
    · rw [Std.compare_eq_lt.2 (foldByte_lt hb)]
      rfl

end Settings

/-! ### Reading quoted strings -/

section Quoted

variable {s body rest : GoString}

private theorem quotedBody_pair (s : GoString) :
    quotedBody (0x27 :: 0x27 :: s) = (quotedBody s).map fun p => (0x27 :: 0x27 :: p.1, p.2) := by
  rw [quotedBody]

private theorem quotedBody_close (h : s.head? ≠ some 0x27) :
    quotedBody (0x27 :: s) = some ([], s) := by
  rw [quotedBody]
  rintro t rfl
  exact h rfl

variable {b : UInt8} {v t : GoString}

private theorem quotedBody_byte (hslash : b ≠ 0x5C) (hquote : b ≠ 0x27) (s : GoString) :
    quotedBody (b :: s) = (quotedBody s).map fun p => (b :: p.1, p.2) := by
  rw [quotedBody] <;> grind

/-- The texts that have no closing quote. -/
inductive Body : GoString → Prop
  | nil : Body []
  | escape (c : UInt8) {s : GoString} : Body s → Body (0x5C :: c :: s)
  | pair {s : GoString} : Body s → Body (0x27 :: 0x27 :: s)
  | byte {b : UInt8} {s : GoString} : b ≠ 0x5C → b ≠ 0x27 → Body s → Body (b :: s)

private theorem of_quotedBody (h : quotedBody s = some (body, rest)) :
    Body body ∧ s = body ++ 0x27 :: rest := by
  fun_induction quotedBody s generalizing body with
  | case1 => cases h
  | case2 => cases h
  | case3 c s ih =>
    obtain ⟨p, hp, heq⟩ := map_eq_some_iff.1 h
    obtain ⟨rfl, rfl⟩ := Prod.mk.inj heq
    obtain ⟨hbody, rfl⟩ := ih hp
    exact ⟨.escape c hbody, rfl⟩
  | case4 s ih =>
    obtain ⟨p, hp, heq⟩ := map_eq_some_iff.1 h
    obtain ⟨rfl, rfl⟩ := Prod.mk.inj heq
    obtain ⟨hbody, rfl⟩ := ih hp
    exact ⟨.pair hbody, rfl⟩
  | case5 s hs =>
    obtain ⟨rfl, rfl⟩ := Prod.mk.inj (some.inj h)
    exact ⟨.nil, rfl⟩
  | case6 b s hlast hescape _ hquote ih =>
    have hslash : b ≠ 0x5C := by
      rintro rfl
      cases s with
      | nil => exact hlast rfl rfl
      | cons c s => exact hescape c s rfl rfl
    obtain ⟨p, hp, heq⟩ := map_eq_some_iff.1 h
    obtain ⟨rfl, rfl⟩ := Prod.mk.inj heq
    obtain ⟨hbody, rfl⟩ := ih hp
    exact ⟨.byte hslash hquote hbody, rfl⟩

private theorem deescape_skip (n : Nat) (s : GoString) : deescape n s = deescape 0 (s.drop n) := by
  induction n generalizing s with
  | zero => rfl
  | succ n ih =>
    cases s with
    | nil => rfl
    | cons b s => rw [deescape, ih, drop_succ_cons]

private theorem deescape_byte (hslash : b ≠ 0x5C) (hquote : b ≠ 0x27) (s : GoString) :
    deescape 0 (b :: s) = b :: deescape 0 s := by
  rw [deescape.eq_def]
  simp only [if_neg hslash, if_neg hquote]

private theorem deescape_pair (s : GoString) :
    deescape 0 (0x27 :: 0x27 :: s) = 0x27 :: deescape 0 s := by
  rw [deescape, if_neg (by decide), if_pos rfl, deescape_skip]
  rfl

private theorem deescape_escape (c : UInt8) (s : GoString) :
    deescape 0 (0x5C :: c :: s) =
      if octalDigits (c :: s) ≠ [] then
        octalValue (octalDigits (c :: s)) ::
          deescape 0 ((c :: s).drop (octalDigits (c :: s)).length)
      else escapeChar c :: deescape 0 s := by
  rw [deescape, if_pos rfl, deescape_skip]
  split_ifs
  · rw [deescape_skip]
  · rfl

/-- The string of a text without backslashes in which every quote is doubled. -/
def doubled (s : GoString) : GoString := replaceByte 0x27 [0x27, 0x27] s

private theorem doubled_cons (b : UInt8) (s : GoString) :
    doubled (b :: s) = (if b = 0x27 then [0x27, 0x27] else [b]) ++ doubled s := rfl

/-- Doubling quotes adds no other byte. -/
theorem not_mem_doubled (h : b ∉ v) : b ∉ doubled v := mt mem_replaceByte_double.1 h

private theorem quotedBody_doubled (h : 0x5C ∉ v) (hrest : rest.head? ≠ some 0x27) :
    quotedBody (doubled v ++ 0x27 :: rest) = some (doubled v, rest) := by
  induction v with
  | nil => exact quotedBody_close hrest
  | cons b v ih =>
    rw [mem_cons, not_or] at h
    rw [doubled_cons]
    by_cases hb : b = 0x27
    · rw [if_pos hb, append_assoc]
      show quotedBody (0x27 :: 0x27 :: (doubled v ++ 0x27 :: rest)) = _
      rw [quotedBody_pair, ih h.2]
      rfl
    · rw [if_neg hb, append_assoc, singleton_append, quotedBody_byte (Ne.symm h.1) hb, ih h.2]
      rfl

private theorem deescape_doubled (h : 0x5C ∉ v) : deescape 0 (doubled v) = v := by
  induction v with
  | nil => rfl
  | cons b v ih =>
    rw [mem_cons, not_or] at h
    rw [doubled_cons]
    by_cases hb : b = 0x27
    · rw [if_pos hb, hb]
      show deescape 0 (0x27 :: 0x27 :: doubled v) = _
      rw [deescape_pair, ih h.2]
    · rw [if_neg hb, singleton_append, deescape_byte (Ne.symm h.1) hb, ih h.2]

/-! ### Backslashes make strings shorter

A byte of a string takes two quotes of the text or one other byte, and more than that with a
backslash. So every byte counts twice, except that a quote counts once. -/

/-- The size of a text in half bytes of its string. -/
def weight (s : GoString) : Nat := (s.map fun b => if b = 0x27 then 1 else 2).sum

private theorem weight_cons (b : UInt8) (s : GoString) :
    weight (b :: s) = (if b = 0x27 then 1 else 2) + weight s := rfl

private theorem weight_append (s t : GoString) : weight (s ++ t) = weight s + weight t := by
  rw [weight, map_append, sum_append]
  rfl

private theorem weight_doubled (v : GoString) : weight (doubled v) = 2 * v.length := by
  induction v with
  | nil => rfl
  | cons b v ih =>
    rw [doubled_cons, weight_append, ih, length_cons]
    split_ifs with hb
    · have : weight [0x27, 0x27] = 2 := rfl
      omega
    · rw [weight_cons, if_neg hb]
      have : weight [] = 0 := rfl
      omega

private theorem weight_pos_of_mem (h : b ∈ s) : 0 < weight s := by
  cases s with
  | nil => cases h
  | cons a s =>
    rw [weight_cons]
    split_ifs <;> omega

private theorem Body.drop_octal (h : Body s) {n : Nat} (hn : n ≤ s.length)
    (hoctal : ∀ b ∈ s.take n, isOctalDigit b = true) :
    Body (s.drop n) ∧ weight s = 2 * n + weight (s.drop n) := by
  induction n generalizing s with
  | zero => exact ⟨h, by simp⟩
  | succ n ih =>
    cases h with
    | nil => cases hn
    | escape c h => exact absurd (hoctal 0x5C (by simp)) (by decide)
    | pair h => exact absurd (hoctal 0x27 (by simp)) (by decide)
    | byte hslash hquote h =>
      rename_i b s
      obtain ⟨hbody, hweight⟩ := ih h (Nat.le_of_succ_le_succ hn) fun c hc =>
        hoctal c (by simp [hc])
      refine ⟨hbody, ?_⟩
      rw [weight_cons, if_neg hquote, hweight, drop_succ_cons]
      omega

private theorem octalDigits_spec (s : GoString) :
    (octalDigits s).length ≤ s.length ∧
      ∀ b ∈ s.take (octalDigits s).length, isOctalDigit b = true := by
  have htaken := take_prefix 3 s
  have hdigits : octalDigits s <+: s.take 3 := takeWhile_prefix _
  have hhead := hdigits.trans htaken
  refine ⟨hhead.length_le, ?_⟩
  rw [← prefix_iff_eq_take.1 hhead]
  intro b hb
  exact mem_takeWhile_imp hb

private theorem Body.length_deescape (h : Body s) :
    2 * (deescape 0 s).length ≤ weight s ∧
      (0x5C ∈ s → 2 * (deescape 0 s).length < weight s) := by
  -- An octal escape takes several bytes at once, so the induction is on the length.
  induction hlen : s.length using Nat.strong_induction_on generalizing s with
  | _ n ih =>
    cases h with
    | nil => exact ⟨Nat.le_refl 0, nofun⟩
    | @escape c t h =>
      suffices 2 * (deescape 0 (0x5C :: c :: t)).length < weight (0x5C :: c :: t) from
        ⟨Nat.le_of_lt this, fun _ => this⟩
      have hweight : weight (0x5C :: c :: t) = 2 + weight (c :: t) := rfl
      rw [deescape_escape, hweight]
      split_ifs with hoctal
      · obtain ⟨hle, hdigits⟩ := octalDigits_spec (c :: t)
        have hpos := length_pos_iff.2 hoctal
        have hc : isOctalDigit c = true := by
          apply hdigits
          rw [← Nat.sub_add_cancel hpos, take_succ_cons]
          exact mem_cons_self
        have hbody : Body (c :: t) := by
          apply Body.byte _ _ h <;> rintro rfl <;> exact absurd hc (by decide)
        obtain ⟨hdrop, hdropped⟩ := hbody.drop_octal hle hdigits
        have hrest := (ih _ (by simp at hlen ⊢; omega) hdrop rfl).1
        rw [length_cons]
        omega
      · have hrest := (ih t.length (by simp at hlen; omega) h rfl).1
        rw [weight_cons, length_cons]
        split_ifs <;> omega
    | @pair t h =>
      have hrest := ih t.length (by simp at hlen; omega) h rfl
      rw [deescape_pair, weight_cons, weight_cons, if_pos rfl, length_cons]
      refine ⟨by omega, ?_⟩
      intro hmem
      have := hrest.2 (by simpa using hmem)
      omega
    | @byte b t hslash hquote h =>
      have hrest := ih t.length (by simp at hlen; omega) h rfl
      rw [deescape_byte hslash hquote, weight_cons, if_neg hquote, length_cons]
      refine ⟨by omega, ?_⟩
      intro hmem
      have := hrest.2 (by simpa [Ne.symm hslash] using hmem)
      omega

private theorem length_deescape_lt (hslash : 0x5C ∈ v)
    (h : quotedBody (doubled v ++ [0x27]) = some (body, rest)) :
    (deescape 0 body).length < v.length := by
  obtain ⟨hbody, htext⟩ := of_quotedBody h
  have hweight := congrArg weight htext
  rw [weight_append, weight_doubled, weight_append, weight_cons 0x27 rest, if_pos rfl,
    show weight [0x27] = 1 from rfl] at hweight
  have hlength := hbody.length_deescape
  by_cases hmem : 0x5C ∈ body
  · have := hlength.2 hmem
    omega
  · -- The backslash is behind the closing quote, which takes its weight away.
    have hin : 0x5C ∈ body ++ 0x27 :: rest := by
      rw [← htext, mem_append]
      left
      rw [doubled, replaceByte, mem_flatMap]
      exact ⟨0x5C, hslash, by decide⟩
    have hrest : 0x5C ∈ rest := by simpa [hmem] using hin
    have := weight_pos_of_mem hrest
    omega

variable {further : UInt8 → Bool}

/-- A value in quotes, with its own quotes doubled, is read back unless it has a backslash. -/
theorem readValue_doubled_iff (v : GoString) :
    readValue further (0x27 :: (doubled v ++ [0x27])) = some v ↔ 0x5C ∉ v := by
  rw [readValue]
  constructor
  · intro h hslash
    cases hbody : quotedBody (doubled v ++ [0x27]) with
    | none =>
      rw [hbody] at h
      cases h
    | some p =>
      rw [hbody] at h
      obtain ⟨body, rest⟩ := p
      have hlt := length_deescape_lt hslash hbody
      simp only [ite_none_right_eq_some] at h
      rw [some.inj h.2] at hlt
      exact Nat.lt_irrefl _ hlt
  · intro h
    rw [quotedBody_doubled h (by simp)]
    simp only
    rw [if_pos (by rfl), deescape_doubled h]

private theorem weight_add_count (s : GoString) : weight s + s.count 0x27 = 2 * s.length := by
  induction s with
  | nil => rfl
  | cons b s ih =>
    rw [weight_cons, count_cons, length_cons]
    by_cases hb : b = 0x27
    · simp only [hb, ↓reduceIte, BEq.rfl]
      omega
    · simp only [hb, ↓reduceIte, beq_iff_eq]
      omega

/-- A text in quotes that has neither quotes nor backslashes is read as it is. -/
theorem readValue_quoted (hquote : 0x27 ∉ t) (hslash : 0x5C ∉ t) :
    readValue further (0x27 :: (t ++ [0x27])) = some t := by
  have hread : readValue further (0x27 :: (doubled t ++ [0x27])) = some t :=
    (readValue_doubled_iff t).2 hslash
  rwa [doubled, replaceByte_of_not_mem hquote] at hread

/-- What a text in quotes reads as is shorter than the text, unless the text has neither quotes
nor backslashes and is read as it is. -/
theorem length_readValue_quoted (h : readValue further (0x27 :: (t ++ [0x27])) = some v) :
    v.length ≤ t.length ∧ (t.length ≤ v.length → v = t ∧ 0x27 ∉ t ∧ 0x5C ∉ t) := by
  rw [readValue] at h
  cases hread : quotedBody (t ++ [0x27]) with
  | none =>
    rw [hread] at h
    cases h
  | some p =>
    rw [hread] at h
    obtain ⟨body, rest⟩ := p
    simp only [ite_none_right_eq_some] at h
    obtain rfl := some.inj h.2
    obtain ⟨hbody, htext⟩ := of_quotedBody hread
    have hlength := congrArg List.length htext
    rw [length_append, length_append, length_singleton, length_cons] at hlength
    have hhalf := hbody.length_deescape
    have hweight := weight_add_count body
    refine ⟨by omega, ?_⟩
    intro hle
    have hrest : rest = [] := eq_nil_of_length_eq_zero (by omega)
    subst hrest
    obtain rfl := append_cancel_right htext
    have hslash : 0x5C ∉ t := by
      intro hmem
      have := hhalf.2 hmem
      omega
    have hquote : 0x27 ∉ t := count_eq_zero.1 (by omega)
    have hdoubled : doubled t = t := replaceByte_of_not_mem hquote
    refine ⟨?_, hquote, hslash⟩
    rw [← hdoubled, deescape_doubled hslash, hdoubled]

end Quoted

/-- A text without blanks, comments and quotes is read back if it is a value. -/
theorem readValue_plain_iff {further : UInt8 → Bool} {v : GoString}
    (hchars : ∀ b ∈ v, isBlank b = false ∧ b ≠ 0x23) (hquote : v.head? ≠ some 0x27) :
    readValue further v = some v ↔ isPlainValue further v = true := by
  have hall : ∀ b ∈ v, (!isBlank b && b != 0x23) = true := by
    intro b hb
    simp [hchars b hb]
  have htake := takeWhile_eq_self_iff.2 hall
  have hdrop := dropWhile_eq_nil_iff.2 hall
  rw [readValue]
  · simp only [htake, hdrop]
    simp [atEnd]
  · rintro s rfl
    exact hquote rfl

end Athos.Server.Conf
