import Athos.Base.Strings
import Athos.Shell.Words

/-!
# Scripts of the shell

How bash runs a script of simple commands, assignments and conditions: the script is cut into words,
newlines and semicolons, and the commands are run one after the other. Of the expansions only the
values of the script's own variables are read, as `${name}`: quoted, or as a word that is cut into
fields. What else a dollar sign or a backquote begins runs other commands or depends on the
environment; a script with it is not read. Neither is one with other operators or compound commands.
Commands are not looked into: each succeeds, and leaves the variables alone.
-/

namespace Athos.Shell.Script

open Base List Option

/-! ### Words before expansion -/

/-- A part of a word, and whether it was quoted. -/
inductive Piece where
  | byte (b : UInt8) (quoted : Bool)
  | var (name : GoString) (quoted : Bool)
  deriving DecidableEq

/-- A word before expansion. -/
abbrev RawWord := List Piece

/-- A word written without quotes. -/
def keyword (s : GoString) : RawWord := s.map (.byte · false)

/-- A text in quotes. -/
def quotedText (s : GoString) : RawWord := s.map (.byte · true)

/-- Words, and what ends a command. -/
inductive Token where
  | word (w : RawWord)
  | newline
  | semicolon
  deriving DecidableEq

/-- Bytes before which a dollar sign begins an expansion. -/
def startsExpansion (b : UInt8) : Bool := isNameByte b || (lit "*@#?-$!([\x7b").contains b

/-- Reader states. Accumulators hold the pieces of a word read so far, last piece first; the name
of a variable is held the same way. -/
inductive Mode where
  | blank
  | word (acc : RawWord)
  | escape (acc : Option RawWord)
  | single (acc : RawWord)
  | double (acc : RawWord)
  | doubleEscape (acc : RawWord)
  | dollar (quoted : Bool) (acc : RawWord)
  | brace (quoted : Bool) (acc : RawWord) (name : GoString)
  | comment
  | failed
  deriving DecidableEq

/-- A byte outside quotes that does not end the word. -/
def unquoted (acc : RawWord) (b : UInt8) : Mode :=
  if b = 0x27 then .single acc
  else if b = 0x22 then .double acc
  else if b = 0x24 then .dollar false acc
  else if isOperator b || b == 0x60 then .failed
  else .word (.byte b false :: acc)

/-- A byte after a word was begun. -/
def stepWord (acc : RawWord) (b : UInt8) : Mode × List Token :=
  if isBlank b then (.blank, [.word acc.reverse])
  else if b = 0x0A then (.blank, [.word acc.reverse, .newline])
  else if b = 0x3B then (.blank, [.word acc.reverse, .semicolon])
  else (if b = 0x5C then .escape (some acc) else unquoted acc b, [])

/-- A byte within double quotes. -/
def stepDouble (acc : RawWord) (b : UInt8) : Mode :=
  if b = 0x22 then .word acc
  else if b = 0x5C then .doubleEscape acc
  else if b = 0x24 then .dollar true acc
  else if b = 0x60 then .failed
  else .double (.byte b true :: acc)

/-- One byte of input. -/
def step : Mode → UInt8 → Mode × List Token
  | .blank, b =>
    if b = 0x0A then (.blank, [.newline])
    else if b = 0x3B then (.blank, [.semicolon])
    else (if isBlank b then .blank else if b = 0x23 then .comment
      else if b = 0x5C then .escape none else unquoted [] b, [])
  | .word acc, b => stepWord acc b
  | .escape acc, b =>
    (if b = 0x0A then acc.elim .blank .word else .word (.byte b true :: acc.getD []), [])
  | .single acc, b => (if b = 0x27 then .word acc else .single (.byte b true :: acc), [])
  | .double acc, b => (stepDouble acc b, [])
  | .doubleEscape acc, b =>
    -- In double quotes a backslash quotes only these; before other bytes it stays.
    (if b = 0x0A then .double acc
      else if isExpansion b || b == 0x22 || b == 0x5C then .double (.byte b true :: acc)
      else .double (.byte b true :: .byte 0x5C true :: acc), [])
  | .dollar quoted acc, b =>
    if b = 0x7B then (.brace quoted acc [], [])
    else if startsExpansion b || (!quoted && (b == 0x27 || b == 0x22)) then (.failed, [])
    -- The dollar sign stands for itself.
    else if quoted then (stepDouble (.byte 0x24 true :: acc) b, [])
    else stepWord (.byte 0x24 false :: acc) b
  | .brace quoted acc name, b =>
    (if isNameByte b then .brace quoted acc (b :: name)
      else if b = 0x7D ∧ name.getLast?.all isDigitByte = false then
        if quoted then .double (.var name.reverse true :: acc)
        else .word (.var name.reverse false :: acc)
      else .failed, [])
  | .comment, b => if b = 0x0A then (.blank, [.newline]) else (.comment, [])
  | .failed, _ => (.failed, [])

/-- The end of the script may not come within quotes. -/
def finish : Mode → Option (List Token)
  | .blank | .comment => some []
  | .word acc => some [.word acc.reverse]
  | .dollar false acc => some [.word (.byte 0x24 false :: acc).reverse]
  | .escape _ | .single _ | .double _ | .doubleEscape _ | .dollar true _ | .brace _ _ _ | .failed =>
    none

/-! ### Expansion -/

/-- Variables with their values, the last assignment first. -/
abbrev Vars := List (GoString × GoString)

/-- A word with the values of its variables, in which nothing is a quote, a pattern or the name of
a home directory. -/
def RawWord.marked (vars : Vars) : RawWord → Option Word
  | [] => some []
  | .byte b q :: w => (RawWord.marked vars w).map ((b, q) :: ·)
  | .var name _ :: w => do
    let value ← vars.lookup name
    return quoted value ++ (← RawWord.marked vars w)

/-- A field of a value, where a backslash quotes the next byte. -/
def fieldWord : GoString → Word
  | [] => []
  | [b] => [(b, false)]
  | b :: c :: s =>
    if b = 0x5C then (b, true) :: (c, true) :: fieldWord s else (b, false) :: fieldWord (c :: s)

/-- Where a value is cut: at blanks and newlines. -/
def isFieldSeparator (b : UInt8) : Bool := isBlank b || b == 0x0A

/-- The fields of a value, as they are in every environment. -/
def fields (value : GoString) : Option (List GoString) :=
  let parts := (value.splitOnP isFieldSeparator).filter (· ≠ [])
  if parts.any fun part => isPattern (fieldWord part) then none else some parts

/-- What is not read in a word: a variable that is cut into fields next to other text, and a brace
that may make several words of one. -/
def Piece.isOpen : Piece → Bool
  | .var _ quoted => !quoted
  | .byte b quoted => b == 0x7B && !quoted

/-- The words that a word stands for. -/
def RawWord.expand (vars : Vars) (w : RawWord) : Option (List GoString) :=
  match w with
  | [.var name false] => (vars.lookup name).bind fields
  | w =>
    if w.any Piece.isOpen then none else ((RawWord.marked vars w).bind fixedWord).map ([·])

/-! ### Commands -/

/-- The byte, if it is one of an unquoted name. -/
def Piece.nameByte : Piece → Option UInt8
  | .byte b false => if isNameByte b then some b else none
  | _ => none

/-- What stands before the first piece that is not part of a name, and from there on. -/
def RawWord.splitName : RawWord → GoString × RawWord
  | [] => ([], [])
  | p :: w =>
    match p.nameByte with
    | some b => (b :: (RawWord.splitName w).1, (RawWord.splitName w).2)
    | none => ([], p :: w)

/-- Name and value, if the word is an assignment. -/
def RawWord.assignment (w : RawWord) : Option (GoString × RawWord) :=
  match w.splitName with
  | (name, .byte 0x3D false :: value) =>
    if name.head?.all isDigitByte then none else some (name, value)
  | _ => none

/-- Whether the word may be an assignment to an element of an array, or one that appends. -/
def RawWord.compound (w : RawWord) : Bool :=
  match w.splitName with
  | (name, .byte b false :: _) => name ≠ [] && (b == 0x2B || b == 0x5B)
  | _ => false

/-- A simple command: without words its assignments are made, and with words they are for that
command alone. -/
def simple (start : Vars) : Vars → List RawWord → Option (Vars × List (List GoString))
  | vars, [] => some (vars, [])
  | vars, w :: ws =>
    match w.assignment with
    | some (name, value) => do
      let v ← (RawWord.marked vars value).bind fixedValue
      simple start ((name, v) :: vars) ws
    | none =>
      if w.compound then none
      else do
        let parts ← (w :: ws).mapM (RawWord.expand start)
        if parts.flatten = [] then none else some (start, [parts.flatten])

/-- The parts of a condition that are open, and whether they have a command. -/
inductive Frame where
  | condition (filled : Bool)
  | body (filled : Bool)
  deriving DecidableEq

/-- The innermost part has a command. -/
def fill : List Frame → List Frame
  | [] => []
  | .condition _ :: frames => .condition true :: frames
  | .body _ :: frames => .body true :: frames

/-- The condition is complete. -/
def openBody : List Frame → Option (List Frame)
  | .condition true :: frames => some (.body false :: frames)
  | _ => none

/-- What depends on the condition is complete. -/
def closeBody : List Frame → Option (List Frame)
  | .body true :: frames => some (fill frames)
  | _ => none

/-- Words that begin compound commands and other constructs that are not read. -/
def notRead : List GoString :=
  reserved.filter (fun w => w ≠ lit "if" ∧ w ≠ lit "then" ∧ w ≠ lit "fi") ++
    [lit "[[", lit "coproc", lit "function", lit "select", lit "time"]

/-- The variables, the open conditions and the words of the open command. -/
structure State where
  vars : Vars
  frames : List Frame
  words : List RawWord
  deriving DecidableEq

/-- A command after the words that open and close conditions. -/
def command (s : State) : List RawWord → Option (State × List (List GoString))
  | [] => some (s, [])
  | w :: ws =>
    if w = keyword (lit "if") then command { s with frames := .condition false :: s.frames } ws
    else if w = keyword (lit "then") then
      (openBody s.frames).bind fun frames => command { s with frames := frames } ws
    else if w = keyword (lit "fi") then
      if ws = [] then (closeBody s.frames).map fun frames => ({ s with frames := frames }, [])
      else none
    else if w ∈ notRead.map keyword then none
    else (simple s.vars s.vars (w :: ws)).map fun r =>
      ({ s with vars := r.1, frames := fill s.frames }, r.2)

/-- Words after which a command has to come. -/
def opensList (w : RawWord) : Bool := w = keyword (lit "if") ∨ w = keyword (lit "then")

/-- One token of a script; nothing is run after an error. -/
def exec : Option State → Token → Option State × List (List GoString)
  | none, _ => (none, [])
  | some s, .word w => (some { s with words := s.words ++ [w] }, [])
  | some s, .newline => conclude (command { s with words := [] } s.words)
  | some s, .semicolon =>
    if s.words.all opensList then (none, [])
    else conclude (command { s with words := [] } s.words)
where
  conclude : Option (State × List (List GoString)) → Option State × List (List GoString)
    | none => (none, [])
    | some (s, out) => (some s, out)

/-- The commands that the rest of a script runs, in their order. -/
def runFrom (m : Mode) (s : Option State) (text : GoString) : Option (List (List GoString)) := do
  let last ← finish (transduce step m text).1
  match transduce exec s ((transduce step m text).2 ++ (last ++ [Token.newline])) with
  | (some ⟨_, [], _⟩, out) => some out
  | _ => none

/-- The commands that a script runs. -/
def run (script : GoString) : Option (List (List GoString)) :=
  runFrom .blank (some ⟨[], [], []⟩) script

/-! ### Running scripts part by part -/

section Parts

variable {m m' : Mode} {s s' : Option State} {x : GoString} {ts : List Token}
  {out : List (List GoString)}

/-- A failed lexer stays failed. -/
@[simp] theorem transduce_failed (x : GoString) : transduce step .failed x = (.failed, []) := by
  induction x with
  | nil => rfl
  | cons b x ih => simp [transduce, step, ih]

@[simp] private theorem transduce_exec_none (ts : List Token) :
    transduce exec none ts = (none, []) := by
  induction ts with
  | nil => rfl
  | cons t ts ih => simp [transduce, exec, ih]

/-- A script is run from where its first part ends. -/
theorem runFrom_append (hx : Transduces step m x m' ts) (hs : Transduces exec s ts s' out)
    (y : GoString) : runFrom m s (x ++ y) = (runFrom m' s' y).map (out ++ ·) := by
  unfold Transduces at hx hs
  rw [runFrom, runFrom, transduce_append, hx]
  cases finish (transduce step m' y).1 with
  | none => rfl
  | some last =>
    simp only [bind_eq_bind, bind_some]
    rw [append_assoc, transduce_append, hs]
    generalize transduce exec s' ((transduce step m' y).2 ++ (last ++ [Token.newline])) = r
    rcases r with ⟨_ | ⟨vars, _ | ⟨frame, frames⟩, words⟩, out'⟩ <;> rfl

/-- A text with a lexical error is not run. -/
theorem runFrom_failed (s : Option State) (y : GoString) : runFrom .failed s y = none := by
  rw [runFrom, transduce_failed]
  rfl

/-- After a failed command nothing is run. -/
theorem runFrom_none (m : Mode) (y : GoString) : runFrom m none y = none := by
  rw [runFrom]
  cases finish (transduce step m y).1 with
  | none => rfl
  | some last =>
    rw [bind_eq_bind, bind_some, transduce_exec_none]

/-- The end of a script is reached. -/
theorem finish_of_runFrom (h : runFrom m s x = some out) :
    finish (transduce step m x).1 ≠ none := by
  intro hnone
  rw [runFrom, hnone] at h
  cases h

/-- The state of the reader without the word that it has begun. -/
def Mode.erase : Mode → Mode
  | .word _ => .word []
  | .escape acc => .escape (acc.map fun _ => [])
  | .single _ => .single []
  | .double _ => .double []
  | .doubleEscape _ => .doubleEscape []
  | .dollar quoted _ => .dollar quoted []
  | .brace quoted _ name => .brace quoted [] name
  | .blank => .blank
  | .comment => .comment
  | .failed => .failed

private theorem erase_unquoted (acc acc' : RawWord) (b : UInt8) :
    (unquoted acc b).erase = (unquoted acc' b).erase := by
  unfold unquoted
  split_ifs <;> rfl

private theorem erase_stepWord (acc acc' : RawWord) (b : UInt8) :
    (stepWord acc b).1.erase = (stepWord acc' b).1.erase := by
  have hopen := erase_unquoted acc acc' b
  unfold stepWord
  split_ifs <;> first | rfl | exact hopen

private theorem erase_stepDouble (acc acc' : RawWord) (b : UInt8) :
    (stepDouble acc b).erase = (stepDouble acc' b).erase := by
  unfold stepDouble
  split_ifs <;> rfl

private theorem erase_step (m : Mode) (b : UInt8) :
    (step m b).1.erase = (step m.erase b).1.erase := by
  cases m with
  | blank | comment | failed => rfl
  | word acc => exact erase_stepWord acc [] b
  | escape acc => cases acc <;> simp only [step, Mode.erase] <;> split_ifs <;> rfl
  | single acc => simp only [step, Mode.erase]; split_ifs <;> rfl
  | double acc => exact erase_stepDouble acc [] b
  | doubleEscape acc => simp only [step, Mode.erase]; split_ifs <;> rfl
  | dollar quoted acc =>
    have hword := erase_stepWord (.byte 0x24 false :: acc) [.byte 0x24 false] b
    have hdouble := erase_stepDouble (.byte 0x24 true :: acc) [.byte 0x24 true] b
    simp only [step, Mode.erase]
    split_ifs <;> first | rfl | exact hdouble | exact hword
  | brace quoted acc name => simp only [step, Mode.erase]; split_ifs <;> rfl

private theorem erase_transduce (m : Mode) (x : GoString) :
    (transduce step m x).1.erase = (transduce step m.erase x).1.erase := by
  induction x generalizing m with
  | nil =>
    cases m with
    | escape acc => cases acc <;> rfl
    | _ => rfl
  | cons b x ih =>
    simp only [transduce]
    rw [ih, ih (step m.erase b).1, erase_step]

/-- Whether the end of a script is reached does not depend on it either. -/
theorem finish_transduce_erase (m : Mode) (x : GoString) :
    finish (transduce step m.erase x).1 = none ↔ finish (transduce step m x).1 = none := by
  have herase : ∀ m : Mode, finish m.erase = none ↔ finish m = none := by
    intro m
    cases m with
    | dollar quoted acc => cases quoted <;> simp [Mode.erase, finish]
    | _ => simp [Mode.erase, finish]
  rw [← herase, ← erase_transduce, herase]

/-- Words that are the name of a command. -/
def RawWord.isName (w : RawWord) : Bool :=
  !(w = keyword (lit "if") ∨ w = keyword (lit "then") ∨ w = keyword (lit "fi") ∨
    w ∈ notRead.map keyword ∨ w.assignment ≠ none ∨ w.compound)

variable {st : State} {name value : GoString}

variable {w : RawWord} {ws : List RawWord}

private theorem exec_newline (hwords : st.words = w :: ws) (hw : w.isName = true) :
    exec (some st) .newline =
      match (w :: ws).mapM (RawWord.expand st.vars) with
      | some parts => if parts.flatten = [] then (none, [])
        else (some ⟨st.vars, fill st.frames, []⟩, [parts.flatten])
      | none => (none, []) := by
  simp only [RawWord.isName, Bool.not_eq_true', decide_eq_false_iff_not, not_or, not_not] at hw
  obtain ⟨hif, hthen, hfi, hread, hassign, hcompound⟩ := hw
  rw [exec, hwords, command, if_neg hif, if_neg hthen, if_neg hfi, if_neg hread, simple, hassign]
  dsimp only
  rw [if_neg hcompound]
  cases (w :: ws).mapM (RawWord.expand st.vars) with
  | none => rfl
  | some parts =>
    simp only [bind_eq_bind, bind_some]
    split <;> rfl

private theorem transduce_exec_words (vars : Vars) (frames : List Frame) (ws₀ ws : List RawWord) :
    transduce exec (some ⟨vars, frames, ws₀⟩) (ws.map .word) =
      (some ⟨vars, frames, ws₀ ++ ws⟩, []) := by
  induction ws generalizing ws₀ with
  | nil => simp [transduce]
  | cons w ws ih => simp [transduce, exec, ih]

private theorem exec_line (hw : w.isName = true) (vars : Vars) (frames : List Frame)
    (ws : List RawWord) :
    transduce exec (some ⟨vars, frames, []⟩) ((w :: ws).map .word ++ [Token.newline]) =
      match (w :: ws).mapM (RawWord.expand vars) with
      | some parts => if parts.flatten = [] then (none, [])
        else (some ⟨vars, fill frames, []⟩, [parts.flatten])
      | none => (none, []) := by
  rw [transduce_append, transduce_exec_words, transduce_singleton, exec_newline rfl hw, nil_append]
  rfl

/-- A line that starts with the name of a command runs it. -/
theorem runFrom_line {vars : Vars} {frames : List Frame}
    (hx : Transduces step m x .blank ((w :: ws).map .word ++ [Token.newline]))
    (hw : w.isName = true) (y : GoString) :
    runFrom m (some ⟨vars, frames, []⟩) (x ++ y) =
      ((w :: ws).mapM (RawWord.expand vars)).bind fun parts =>
        if parts.flatten = [] then none
        else (runFrom .blank (some ⟨vars, fill frames, []⟩) y).map (parts.flatten :: ·) := by
  have hline := exec_line hw vars frames ws
  cases hparts : (w :: ws).mapM (RawWord.expand vars) with
  | none =>
    rw [hparts] at hline
    rw [runFrom_append hx hline, runFrom_none]
    rfl
  | some parts =>
    rw [hparts] at hline
    dsimp only at hline
    rw [bind_some]
    split_ifs at hline ⊢
    · rw [runFrom_append hx hline, runFrom_none]
      rfl
    · rw [runFrom_append hx hline]
      rfl

private theorem command_words {st' : State} (h : command st ws = some (st', out)) :
    st'.words = st.words := by
  induction ws generalizing st with
  | nil =>
    obtain ⟨rfl, -⟩ := Prod.mk.inj (some.inj h)
    rfl
  | cons w ws ih =>
    rw [command] at h
    split_ifs at h with hif hthen hfi hlast hread
    · have hwords := ih h
      exact hwords
    · obtain ⟨frames, -, hbody⟩ := bind_eq_some_iff.1 h
      have hwords := ih hbody
      exact hwords
    · obtain ⟨frames, -, heq⟩ := map_eq_some_iff.1 h
      obtain ⟨rfl, -⟩ := Prod.mk.inj heq
      rfl
    · obtain ⟨r, -, heq⟩ := map_eq_some_iff.1 h
      obtain ⟨rfl, -⟩ := Prod.mk.inj heq
      rfl

private theorem command_of_conclude {c : Option (State × List (List GoString))}
    (h : exec.conclude c = (some st, out)) : c = some (st, out) := by
  cases c with
  | none => cases h
  | some r =>
    obtain ⟨hst, hout⟩ := Prod.mk.inj h
    exact congrArg some (Prod.ext (some.inj hst) hout)

/-- After a line no command is open. -/
theorem words_of_newline (h : transduce exec s (ts ++ [Token.newline]) = (some st, out)) :
    st.words = [] := by
  rw [transduce_append, transduce_singleton] at h
  obtain ⟨hst, -⟩ := Prod.mk.inj h
  cases hs : (transduce exec s ts).1 with
  | none =>
    rw [hs] at hst
    cases hst
  | some st₀ =>
    rw [hs] at hst
    exact command_words (command_of_conclude (Prod.ext hst rfl))

private theorem marked_keyword (vars : Vars) (x : GoString) :
    RawWord.marked vars (keyword x) = some (plain x) := by
  induction x with
  | nil => rfl
  | cons b x ih =>
    have hcons : keyword (b :: x) = .byte b false :: keyword x := rfl
    rw [hcons, RawWord.marked, ih]
    rfl

/-- A word without quotes stands for itself if it does so on every line. -/
theorem expand_keyword (hfixed : fixedWord (plain x) = some x) (hbrace : 0x7B ∉ x) (vars : Vars) :
    RawWord.expand vars (keyword x) = some [x] := by
  have hopen : (keyword x).any Piece.isOpen = false := by
    rw [List.any_eq_false]
    intro p hp
    obtain ⟨b, hb, rfl⟩ := List.mem_map.1 hp
    have hne : b ≠ 0x7B := by
      rintro rfl
      exact hbrace hb
    simp [Piece.isOpen, hne]
  unfold RawWord.expand
  split
  · next name hvar =>
    have hmem : Piece.var name false ∈ keyword x := by simp [hvar]
    obtain ⟨b, -, hb⟩ := List.mem_map.1 hmem
    cases hb
  · rw [hopen, marked_keyword]
    simp [hfixed]

private theorem splitName_keyword (h : ∀ b ∈ name, isNameByte b = true) {p : Piece}
    (hp : p.nameByte = none)
    (w : RawWord) : RawWord.splitName (keyword name ++ p :: w) = (name, p :: w) := by
  induction name with
  | nil =>
    show RawWord.splitName (p :: w) = ([], p :: w)
    rw [RawWord.splitName, hp]
  | cons b name ih =>
    obtain ⟨hb, hname⟩ := forall_mem_cons.1 h
    have hcons : keyword (b :: name) ++ p :: w = .byte b false :: (keyword name ++ p :: w) := rfl
    have hbyte : (Piece.byte b false).nameByte = some b := if_pos hb
    rw [hcons, RawWord.splitName, hbyte, ih hname]

/-- A name, an equals sign and a value are an assignment. -/
theorem assignment_keyword (h : ∀ b ∈ name, isNameByte b = true)
    (hhead : name.head?.all isDigitByte = false) (value : RawWord) :
    RawWord.assignment (keyword name ++ .byte 0x3D false :: value) = some (name, value) := by
  have hname : (Piece.byte 0x3D false).nameByte = none := rfl
  rw [RawWord.assignment, splitName_keyword h hname]
  simp [hhead]

/-- A line that is one assignment. -/
theorem exec_assignment {vars : Vars} {value : RawWord} {v : GoString}
    (hw : w.assignment = some (name, value))
    (hv : (RawWord.marked vars value).bind fixedValue = some v) (frames : List Frame) :
    Transduces exec (some ⟨vars, frames, []⟩) [.word w, .newline]
      (some ⟨(name, v) :: vars, fill frames, []⟩) [] := by
  have hnot : ∀ x : RawWord, x.assignment = none → w ≠ x := by
    rintro x hx rfl
    rw [hx] at hw
    cases hw
  have hread : ∀ x ∈ notRead.map keyword, RawWord.assignment x = none := by decide
  have hcommand : command ⟨vars, frames, []⟩ [w] =
      some (⟨(name, v) :: vars, fill frames, []⟩, []) := by
    rw [command, if_neg (hnot _ (by decide)), if_neg (hnot _ (by decide)),
      if_neg (hnot _ (by decide)), if_neg fun hm => hnot w (hread w hm) rfl, simple, hw]
    simp [hv, simple]
  simp [Transduces, transduce, exec, hcommand, exec.conclude]

/-- The fields of a value, if another text comes after it. -/
theorem fields_append_iff {y : GoString} {parts : List GoString} {b : UInt8}
    (h : fields value = some parts) (hb : isFieldSeparator b = true) (hy : y ≠ []) :
    fields (value ++ b :: y) = some (parts ++ [y]) ↔
      (∀ c ∈ y, isFieldSeparator c = false) ∧ isPattern (fieldWord y) = false := by
  rw [fields] at h
  split at h
  · cases h
  · next hfixed =>
    obtain hparts := some.inj h
    rw [fields, splitOnP_append_cons _ _ hb, filter_append, hparts]
    rw [hparts, Bool.not_eq_true] at hfixed
    rw [any_append, hfixed, Bool.false_or]
    constructor
    · intro hsome
      split at hsome
      · cases hsome
      · next hpattern =>
        have hfilter := append_cancel_left (some.inj hsome)
        have hmem : y ∈ y.splitOnP isFieldSeparator :=
          mem_of_mem_filter (hfilter ▸ mem_cons_self)
        refine ⟨(of_mem_splitOnP hmem).1, ?_⟩
        rw [hfilter] at hpattern
        simpa using hpattern
    · rintro ⟨hsep, hpattern⟩
      have hone : (y.splitOnP isFieldSeparator).filter (· ≠ []) = [y] := by
        rw [splitOnP_eq_singleton hsep]
        simp [hy]
      rw [hone]
      simp [hpattern]

/-- The fields of a value have no bytes but its own. -/
theorem countP_fields_le (P : UInt8 → Bool) {parts : List GoString}
    (h : fields value = some parts) : ∀ part ∈ parts, part.countP P ≤ value.countP P := by
  rw [fields] at h
  split at h
  · cases h
  · obtain rfl := some.inj h
    intro part hpart
    exact (of_mem_splitOnP (mem_of_mem_filter hpart)).2.countP_le

end Parts

/-! ### Where the bytes of words come from -/

section Bytes

variable (P : UInt8 → Bool)

/-- The bytes that are written in a piece. -/
def Piece.countP : Piece → Nat
  | .byte b _ => [b].countP P
  | .var _ _ => 0

/-- The bytes that are written in a word. -/
def RawWord.countP (w : RawWord) : Nat := (w.map (Piece.countP P)).sum

/-- The bytes that are written in a token. -/
def Token.countP : Token → Nat
  | .word w => RawWord.countP P w
  | .newline | .semicolon => 0

/-- The bytes of the open word, and a backslash or a dollar sign that may become one. -/
def held : Mode → Nat
  | .blank | .comment | .failed => 0
  | .word acc | .single acc | .double acc | .brace _ acc _ => RawWord.countP P acc
  | .escape acc => RawWord.countP P (acc.getD []) + [0x5C].countP P
  | .doubleEscape acc => RawWord.countP P acc + [0x5C].countP P
  | .dollar _ acc => RawWord.countP P acc + [0x24].countP P

/-- An empty word has no bytes. -/
@[simp] theorem RawWord.countP_nil : RawWord.countP P [] = 0 := rfl

/-- A byte is counted once. -/
@[simp] theorem RawWord.countP_byte (b : UInt8) (q : Bool) (w : RawWord) :
    RawWord.countP P (.byte b q :: w) = [b].countP P + RawWord.countP P w := rfl

@[simp] private theorem RawWord.countP_var (name : GoString) (q : Bool) (w : RawWord) :
    RawWord.countP P (.var name q :: w) = RawWord.countP P w := Nat.zero_add _

/-- Bytes of words that follow each other. -/
@[simp] theorem RawWord.countP_append (w w' : RawWord) :
    RawWord.countP P (w ++ w') = RawWord.countP P w + RawWord.countP P w' := by
  simp [RawWord.countP]

/-- Order does not matter for counting. -/
@[simp] theorem RawWord.countP_reverse (w : RawWord) :
    RawWord.countP P w.reverse = RawWord.countP P w := by
  simp [RawWord.countP]

/-- Quoted bytes are counted. -/
@[simp] theorem RawWord.countP_quotedText (s : GoString) :
    RawWord.countP P (quotedText s) = s.countP P := by
  rw [RawWord.countP, quotedText, List.map_map, ← sum_countP_singleton]
  rfl

private theorem held_unquoted (acc : RawWord) (b : UInt8) :
    held P (unquoted acc b) ≤ RawWord.countP P acc + [b].countP P := by
  unfold unquoted
  split_ifs with _ _ hdollar
  · exact Nat.le_add_right _ _
  · exact Nat.le_add_right _ _
  · rw [hdollar]
    rfl
  · exact Nat.zero_le _
  · exact (Nat.add_comm _ _).le

private theorem held_stepWord (acc : RawWord) (b : UInt8) :
    held P (stepWord acc b).1 + ((stepWord acc b).2.map (Token.countP P)).sum ≤
      RawWord.countP P acc + [b].countP P := by
  have hopen := held_unquoted P acc b
  unfold stepWord
  split_ifs with _ _ _ hslash
  · simp [held, Token.countP]
  · simp [held, Token.countP]
  · simp [held, Token.countP]
  · simp [held, hslash]
  · simpa using hopen

private theorem held_stepDouble (acc : RawWord) (b : UInt8) :
    held P (stepDouble acc b) ≤ RawWord.countP P acc + [b].countP P := by
  unfold stepDouble
  split_ifs with _ hslash hdollar
  · exact Nat.le_add_right _ _
  · rw [hslash]
    rfl
  · rw [hdollar]
    rfl
  · exact Nat.zero_le _
  · exact (Nat.add_comm _ _).le

private theorem held_step (m : Mode) (b : UInt8) :
    held P (step m b).1 + ((step m b).2.map (Token.countP P)).sum ≤ held P m + [b].countP P := by
  cases m with
  | blank =>
    have hopen := held_unquoted P [] b
    simp only [step]
    split_ifs with _ _ _ _ hslash <;> simp_all [held, Token.countP]
  | word acc => exact held_stepWord P acc b
  | escape acc =>
    simp only [step, map_nil, sum_nil, Nat.add_zero]
    cases acc <;> split_ifs <;> simp [held] <;> omega
  | single acc =>
    simp only [step, map_nil, sum_nil, Nat.add_zero]
    split_ifs
    · exact Nat.le_add_right _ _
    · exact (Nat.add_comm _ _).le
  | double acc => exact held_stepDouble P acc b
  | doubleEscape acc =>
    simp only [step, map_nil, sum_nil, Nat.add_zero]
    split_ifs <;> simp [held] <;> omega
  | dollar quoted acc =>
    have hword := held_stepWord P (.byte 0x24 false :: acc) b
    have hdouble := held_stepDouble P (.byte 0x24 true :: acc) b
    simp only [step]
    split_ifs <;> simp_all [held] <;> omega
  | brace quoted acc name =>
    simp only [step, map_nil, sum_nil, Nat.add_zero]
    split_ifs <;> simp [held]
  | comment =>
    simp only [step]
    split_ifs <;> simp [held, Token.countP]
  | failed => simp [step, held]

/-- The bytes of words are bytes of the script. -/
theorem held_transduce (m : Mode) (s : GoString) :
    held P (transduce step m s).1 + ((transduce step m s).2.map (Token.countP P)).sum ≤
      held P m + s.countP P := by
  rw [← sum_countP_singleton]
  exact transduce_weight_le (held_step P) m s

end Bytes

/-! ### Where the bytes of variables come from -/

section Values

variable (P : UInt8 → Bool) {vars vars' : Vars} {w : RawWord} {ws : List RawWord}

/-- The most bytes that a value has. -/
def Vars.most (vars : Vars) : Nat := (vars.map (·.2.countP P)).foldr max 0

/-- The piece is a variable. -/
def Piece.isVar : Piece → Bool
  | .var _ _ => true
  | .byte _ _ => false

/-- The value of a variable has no more bytes than that. -/
theorem lookup_le_most (vars : Vars) (name : GoString) :
    ((vars.lookup name).getD []).countP P ≤ Vars.most P vars := by
  induction vars with
  | nil => exact Nat.zero_le _
  | cons v vars ih =>
    rw [Vars.most, map_cons, foldr_cons, ← Vars.most, lookup_cons]
    split
    · exact Nat.le_max_left _ _
    · exact ih.trans (Nat.le_max_right _ _)

/-- Expansion puts the values of the variables in. -/
theorem countP_marked {x : Word} (h : RawWord.marked vars w = some x) :
    x.text.countP P ≤ RawWord.countP P w + List.countP Piece.isVar w * Vars.most P vars := by
  induction w generalizing x with
  | nil =>
    obtain rfl := some.inj h
    exact Nat.zero_le _
  | cons p w ih =>
    cases p with
    | byte b q =>
      obtain ⟨y, hy, rfl⟩ := map_eq_some_iff.1 h
      have hvars : List.countP Piece.isVar (.byte b q :: w) = List.countP Piece.isVar w :=
        countP_cons_of_neg (by simp [Piece.isVar])
      rw [Word.text_cons, ← singleton_append, List.countP_append, RawWord.countP_byte, hvars,
        Nat.add_assoc]
      exact Nat.add_le_add_left (ih hy) _
    | var name q =>
      obtain ⟨value, hvalue, hrest⟩ := bind_eq_some_iff.1 h
      obtain ⟨y, hy, hx⟩ := bind_eq_some_iff.1 hrest
      obtain rfl := some.inj hx
      have hle := ih hy
      have hmost := lookup_le_most P vars name
      rw [hvalue, getD_some] at hmost
      rw [Word.text_append, text_quoted, List.countP_append, RawWord.countP_var,
        countP_cons_of_pos (p := Piece.isVar) rfl, Nat.succ_mul]
      omega

private theorem splitName_suffix (w : RawWord) : w.splitName.2 <:+ w := by
  induction w with
  | nil => exact suffix_rfl
  | cons p w ih =>
    rw [RawWord.splitName]
    split
    · exact ih.trans (suffix_cons p w)
    · exact suffix_rfl

private theorem assignment_suffix {name : GoString} {value : RawWord}
    (h : w.assignment = some (name, value)) : value <:+ w := by
  unfold RawWord.assignment at h
  split at h
  · next hsplit =>
    split_ifs at h
    obtain ⟨rfl, rfl⟩ := Prod.mk.inj (some.inj h)
    have hsuffix := splitName_suffix w
    rw [hsplit] at hsuffix
    exact (suffix_cons _ _).trans hsuffix
  · cases h

/-- Words with at most one variable each. -/
abbrev SingleVars (ws : List RawWord) : Prop := ∀ w ∈ ws, List.countP Piece.isVar w ≤ 1

variable {out : List (List GoString)} {s s' : State}

private theorem most_simple {start : Vars} (hstart : Vars.most P start ≤ Vars.most P vars)
    (hws : SingleVars ws) (h : simple start vars ws = some (vars', out)) :
    Vars.most P vars' ≤ Vars.most P vars + (ws.map (RawWord.countP P)).sum := by
  induction ws generalizing vars with
  | nil =>
    obtain ⟨rfl, -⟩ := Prod.mk.inj (some.inj h)
    exact Nat.le_refl _
  | cons w ws ih =>
    obtain ⟨hw, hws⟩ := forall_mem_cons.1 hws
    rw [simple] at h
    split at h
    · next name value hassign =>
      obtain ⟨v, hv, hrest⟩ := bind_eq_some_iff.1 h
      obtain ⟨x, hx, hfixed⟩ := bind_eq_some_iff.1 hv
      have hvalue : v.countP P ≤ RawWord.countP P w + 1 * Vars.most P vars := by
        obtain ⟨front, rfl⟩ := assignment_suffix hassign
        rw [← text_of_fixedValue hfixed]
        refine (countP_marked P hx).trans (Nat.add_le_add (by simp) (Nat.mul_le_mul_right _ ?_))
        exact (suffix_append front value).countP_le.trans hw
      have hcons : Vars.most P ((name, v) :: vars) = max (v.countP P) (Vars.most P vars) := rfl
      have hle := ih (by omega) hws hrest
      rw [map_cons, sum_cons]
      omega
    · split at h
      · cases h
      · obtain ⟨parts, -, hparts⟩ := bind_eq_some_iff.1 h
        split_ifs at hparts
        obtain ⟨rfl, -⟩ := Prod.mk.inj (some.inj hparts)
        exact hstart.trans (Nat.le_add_right _ _)

private theorem most_command (hws : SingleVars ws) (h : command s ws = some (s', out)) :
    Vars.most P s'.vars ≤ Vars.most P s.vars + (ws.map (RawWord.countP P)).sum := by
  induction ws generalizing s with
  | nil =>
    obtain ⟨rfl, -⟩ := Prod.mk.inj (some.inj h)
    exact Nat.le_refl _
  | cons w ws ih =>
    have htail : SingleVars ws := (forall_mem_cons.1 hws).2
    have hmore : Vars.most P s.vars + (ws.map (RawWord.countP P)).sum ≤
        Vars.most P s.vars + ((w :: ws).map (RawWord.countP P)).sum := by
      rw [map_cons, sum_cons]
      omega
    rw [command] at h
    split_ifs at h with hif hthen hfi hlast hread
    · exact (ih htail h).trans hmore
    · obtain ⟨frames, -, hbody⟩ := bind_eq_some_iff.1 h
      exact (ih htail hbody).trans hmore
    · obtain ⟨frames, -, heq⟩ := map_eq_some_iff.1 h
      obtain ⟨rfl, -⟩ := Prod.mk.inj heq
      exact Nat.le_add_right _ _
    · obtain ⟨r, hr, heq⟩ := map_eq_some_iff.1 h
      obtain ⟨rfl, -⟩ := Prod.mk.inj heq
      exact most_simple P (Nat.le_refl _) hws hr

/-- The variables in a token. -/
def Token.countVars : Token → Nat
  | .word w => List.countP Piece.isVar w
  | .newline | .semicolon => 0

/-- The most bytes of a value once the open command has run. -/
def reach : Option State → Nat
  | some s => Vars.most P s.vars + (s.words.map (RawWord.countP P)).sum
  | none => 0

private theorem reach_conclude (hs : SingleVars s.words) :
    (∀ st ∈ (exec.conclude (command { s with words := [] } s.words)).1, SingleVars st.words) ∧
      reach P (exec.conclude (command { s with words := [] } s.words)).1 ≤ reach P (some s) := by
  cases hc : command { s with words := [] } s.words with
  | none => exact ⟨nofun, Nat.zero_le _⟩
  | some r =>
    have hle := most_command P hs hc
    have hwords : r.1.words = [] := command_words hc
    simpa [exec.conclude, reach, hwords, SingleVars] using hle

private theorem reach_exec {s : Option State} (hs : ∀ st ∈ s, SingleVars st.words) {t : Token}
    (ht : t.countVars ≤ 1) :
    (∀ st ∈ (exec s t).1, SingleVars st.words) ∧
      reach P (exec s t).1 ≤ reach P s + Token.countP P t := by
  cases s with
  | none => exact ⟨nofun, Nat.zero_le _⟩
  | some st =>
    have hst := hs st rfl
    cases t with
    | word w =>
      have hws : SingleVars (st.words ++ [w]) :=
        forall_mem_append.2 ⟨hst, forall_mem_singleton.2 ht⟩
      refine ⟨fun st' hst' => some.inj hst' ▸ hws, ?_⟩
      simp [exec, reach, Token.countP, Nat.add_assoc]
    | newline => exact reach_conclude P hst
    | semicolon =>
      rw [exec]
      split
      · exact ⟨nofun, Nat.zero_le _⟩
      · exact reach_conclude P hst

/-- The values that a text assigns, if no value had such bytes before. -/
theorem most_vars_le {frames : List Frame} {ts : List Token} (hvars : Vars.most P vars = 0)
    (hts : ∀ t ∈ ts, t.countVars ≤ 1)
    (h : transduce exec (some ⟨vars, frames, []⟩) ts = (some s', out)) :
    Vars.most P s'.vars ≤ (ts.map (Token.countP P)).sum := by
  have hle : reach P (transduce exec (some ⟨vars, frames, []⟩) ts).1 +
      (List.map (fun _ => 0) _).sum ≤
        reach P (some ⟨vars, frames, []⟩) + (ts.map (Token.countP P)).sum :=
    transduce_weight_le_of_invariant (I := fun s => ∀ st ∈ s, SingleVars st.words)
      (fun s hs t ht => by simpa using reach_exec P hs (hts t ht)) (by simp [SingleVars])
  rw [h] at hle
  simp only [reach, hvars, map_nil, sum_nil, Nat.zero_add] at hle
  omega

end Values

end Athos.Shell.Script
