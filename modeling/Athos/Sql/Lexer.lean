import Athos.Base.GoString
import Athos.Base.Transducer

/-!
# PostgreSQL lexical rules

The scanner of PostgreSQL with `standard_conforming_strings` on, as a transducer over bytes:
unquoted words (compared without ASCII case), quoted identifiers, string literals, dollar-quoted
strings, unsigned integers, single symbol characters, and both comment forms. A literal goes on
after its closing quote if white space with a newline in it, and perhaps comments, lead to another
quote. A quoted identifier of length zero is an error, and one over 63 bytes is cut, at a character
of UTF-8. A word carries its whole text, from which a keyword is recognised before an identifier is
cut. The text is a C string on its way to the server, so that a NUL byte in it is an error
everywhere. Literals with a prefix letter, parameters and numbers with a fraction or exponent are
outside these rules.
-/

namespace Athos.Sql

open Base List

/-- One lexical token. A word carries its ASCII upper-case form, a quoted identifier or
literal the value it denotes, a dollar-quoted string its uninterpreted body. -/
inductive Token where
  | word (text : GoString)
  | ident (value : GoString)
  | literal (value : GoString)
  | dollar (body : GoString)
  | number (digits : GoString)
  | symbol (byte : UInt8)
  deriving DecidableEq

/-- Where the scanner is between the quote that closes a literal and one that may continue
it: in white space, with or without a newline before, after a dash, or in a comment. -/
inductive Gap where
  | blank (newline : Bool)
  | dash
  | comment
  deriving DecidableEq

/-- Scanner states. Accumulators hold the bytes read so far, last byte first. -/
inductive Mode where
  | start
  | word (acc : GoString)
  | number (acc : GoString)
  | ident (acc : GoString)
  | identQuote (acc : GoString)
  | literal (acc : GoString)
  | literalQuote (acc : GoString)
  | literalGap (acc : GoString) (gap : Gap)
  | dollarTag (tag : GoString)
  | dollarBody (tag acc : GoString)
  | dash
  | slash
  | lineComment
  | blockComment (depth : Nat) (last : UInt8)
  | failed
  deriving DecidableEq

/-- White space between tokens. -/
def isSpace (b : UInt8) : Bool := b == 0x20 || (0x09 ≤ b && b ≤ 0x0D)

/-- The bytes that end a line. -/
def isNewline (b : UInt8) : Bool := b == 0x0A || b == 0x0D

/-- First byte of an unquoted word: a letter, underscore or any byte above ASCII. -/
def isIdentStart (b : UInt8) : Bool :=
  (0x41 ≤ b && b ≤ 0x5A) || (0x61 ≤ b && b ≤ 0x7A) || b == 0x5F || 0x80 ≤ b

/-- Later bytes of an unquoted word add digits and the dollar sign. -/
def isIdentCont (b : UInt8) : Bool := isIdentStart b || isDigitByte b || b == 0x24

/-- Bytes that are tokens, or part of an operator, by themselves. -/
def isSymbol (b : UInt8) : Bool :=
  (lit "()[],;:.+*%<>=~!@#^&|?").contains b || b == 0x60

/-- The reversed closing delimiter of a dollar-quoted string. -/
def dollarClose (tag : GoString) : GoString := 0x24 :: tag ++ [0x24]

/-- Dispatch on the first byte of a token. -/
def openToken (b : UInt8) : Mode × List Token :=
  if isSpace b then (.start, [])
  else if isIdentStart b then (.word [b], [])
  else if isDigitByte b then (.number [b], [])
  else if b = 0x22 then (.ident [], [])
  else if b = 0x27 then (.literal [], [])
  else if b = 0x24 then (.dollarTag [], [])
  else if b = 0x2D then (.dash, [])
  else if b = 0x2F then (.slash, [])
  else if isSymbol b then (.start, [.symbol b])
  else (.failed, [])

/-- A token that ends where another begins. -/
def thenOpen (t : Token) (b : UInt8) : Mode × List Token :=
  ((openToken b).1, t :: (openToken b).2)

/-- A byte other than a quote after a literal, or in the white space after it. -/
def afterLiteral (acc : GoString) (newline : Bool) (b : UInt8) : Mode × List Token :=
  if isNewline b then (.literalGap acc (.blank true), [])
  else if isSpace b then (.literalGap acc (.blank newline), [])
  else if b = 0x2D then (.literalGap acc .dash, [])
  else thenOpen (.literal acc.reverse) b

/-- The word token of a reversed accumulator. -/
def wordToken (acc : GoString) : Token := .word (acc.reverse.map asciiUpper)

/-- The length of the character of UTF-8 that starts with a byte. -/
def charLength (b : UInt8) : Nat :=
  if b < 0x80 then 1
  else if b &&& 0xE0 = 0xC0 then 2
  else if b &&& 0xF0 = 0xE0 then 3
  else if b &&& 0xF8 = 0xF0 then 4
  else 1

/-- The characters at the start of a text for which there is room; `pending` bytes of the one
being read are still to come. -/
def clipFrom (room : Nat) : Nat → GoString → GoString
  | _, [] => []
  | pending + 1, b :: s => b :: clipFrom room pending s
  | 0, b :: s =>
    if charLength b ≤ room then b :: clipFrom (room - charLength b) (charLength b - 1) s else []

/-- An identifier as the scanner returns it: `NAMEDATALEN` is 64. -/
def truncateIdentifier (s : GoString) : GoString := if s.length < 64 then s else clipFrom 63 0 s

/-- One byte of input. -/
def step : Mode → UInt8 → Mode × List Token
  | .start, b => openToken b
  | .word acc, b =>
    if isIdentCont b then (.word (b :: acc), []) else thenOpen (wordToken acc) b
  | .number acc, b =>
    if isDigitByte b then (.number (b :: acc), [])
    else if isIdentStart b then (.failed, [])
    else thenOpen (.number acc.reverse) b
  | .ident acc, b =>
    if b = 0x22 then (.identQuote acc, [])
    else if b = 0x00 then (.failed, [])
    else (.ident (b :: acc), [])
  | .identQuote acc, b =>
    if b = 0x22 then (.ident (b :: acc), [])
    -- A delimited identifier of length zero is an error.
    else if acc = [] then (.failed, [])
    else thenOpen (.ident (truncateIdentifier acc.reverse)) b
  | .literal acc, b =>
    if b = 0x27 then (.literalQuote acc, [])
    else if b = 0x00 then (.failed, [])
    else (.literal (b :: acc), [])
  | .literalQuote acc, b =>
    if b = 0x27 then (.literal (b :: acc), []) else afterLiteral acc false b
  | .literalGap acc (.blank newline), b =>
    if newline && b == 0x27 then (.literal acc, []) else afterLiteral acc newline b
  | .literalGap acc .dash, b =>
    if b = 0x2D then (.literalGap acc .comment, [])
    else ((openToken b).1, .literal acc.reverse :: .symbol 0x2D :: (openToken b).2)
  | .literalGap acc .comment, b =>
    if b = 0x00 then (.failed, [])
    else (.literalGap acc (if isNewline b then .blank true else .comment), [])
  | .dollarTag tag, b =>
    if b = 0x24 then (.dollarBody tag [], [])
    else if isIdentStart b || (isDigitByte b && tag != []) then (.dollarTag (b :: tag), [])
    else (.failed, [])
  | .dollarBody tag acc, b =>
    if (dollarClose tag).isPrefixOf (b :: acc) then
      (.start, [.dollar ((b :: acc).drop (dollarClose tag).length).reverse])
    else if b = 0x00 then (.failed, [])
    else (.dollarBody tag (b :: acc), [])
  | .dash, b => if b = 0x2D then (.lineComment, []) else thenOpen (.symbol 0x2D) b
  | .slash, b => if b = 0x2A then (.blockComment 0 0, []) else thenOpen (.symbol 0x2F) b
  | .lineComment, b =>
    if isNewline b then (.start, [])
    else if b = 0x00 then (.failed, [])
    else (.lineComment, [])
  | .blockComment depth last, b =>
    if last = 0x2F && b = 0x2A then (.blockComment (depth + 1) 0, [])
    else if last = 0x2A && b = 0x2F then
      (if depth = 0 then .start else .blockComment (depth - 1) 0, [])
    else if b = 0x00 then (.failed, [])
    else (.blockComment depth b, [])
  | .failed, _ => (.failed, [])

/-- The end of the input closes a pending word, number or quoted token; an open
quotation, dollar quote or block comment is an error. -/
def finish : Mode → Option (List Token)
  | .start => some []
  | .word acc => some [wordToken acc]
  | .number acc => some [.number acc.reverse]
  | .identQuote acc => if acc = [] then none else some [.ident (truncateIdentifier acc.reverse)]
  | .literalQuote acc | .literalGap acc (.blank _) | .literalGap acc .comment =>
    some [.literal acc.reverse]
  | .literalGap acc .dash => some [.literal acc.reverse, .symbol 0x2D]
  | .dash => some [.symbol 0x2D]
  | .slash => some [.symbol 0x2F]
  | .lineComment => some []
  | _ => none

/-- The tokens of the rest of a text, from a state of the scanner. -/
def lexFrom (m : Mode) (s : GoString) : Option (List Token) :=
  (finish (transduce step m s).1).map ((transduce step m s).2 ++ ·)

/-- All tokens of a text, or `none` where PostgreSQL reports a lexical error. -/
def lex (s : GoString) : Option (List Token) := lexFrom .start s

/-- A token of a script, with the code block of a dollar-quoted string lexed again. -/
inductive ScriptToken where
  | plain (t : Token)
  | block (ts : List Token)
  deriving DecidableEq

/-- Lex the body of a dollar-quoted string; keep every other token. -/
def expand : Token → Option ScriptToken
  | .dollar body => (lex body).map .block
  | t => some (.plain t)

/-- The tokens of a script together with those of its code blocks. -/
def lexScript (s : GoString) : Option (List ScriptToken) :=
  (lex s).bind fun ts => ts.mapM expand

variable {m : Mode} {s : GoString} {ts : List Token}

/-- An identifier of at most 63 bytes is not cut. -/
theorem truncateIdentifier_of_length_lt (h : s.length < 64) : truncateIdentifier s = s := if_pos h

private theorem length_clipFrom_le (room pending : Nat) (s : GoString) :
    (clipFrom room pending s).length ≤ room + pending := by
  have hpos : ∀ b, 0 < charLength b := by
    intro b
    unfold charLength
    split_ifs <;> decide
  induction s generalizing room pending with
  | nil => exact Nat.zero_le _
  | cons b s ih =>
    cases pending with
    | succ pending =>
      have hs := ih room pending
      simp only [clipFrom, length_cons]
      omega
    | zero =>
      rw [clipFrom]
      split
      · have hs := ih (room - charLength b) (charLength b - 1)
        have hb := hpos b
        rw [length_cons]
        omega
      · exact Nat.zero_le _

/-- No identifier has more than 63 bytes, so a longer one is cut. -/
theorem truncateIdentifier_eq_self_iff : truncateIdentifier s = s ↔ s.length < 64 := by
  refine ⟨fun h => ?_, truncateIdentifier_of_length_lt⟩
  by_contra hlong
  have hclip := length_clipFrom_le 63 0 s
  rw [truncateIdentifier, if_neg hlong] at h
  rw [h] at hclip
  omega

/-- What a run emits comes before the tokens of the rest. -/
theorem lexFrom_append {n : Mode} {t : GoString} (h : Transduces step m s n ts) :
    lexFrom m (s ++ t) = (lexFrom n t).map (ts ++ ·) := by
  unfold Transduces at h
  rw [lexFrom, lexFrom, transduce_append, h, Option.map_map]
  exact congrArg (Option.map · _) (funext fun us => append_assoc _ _ _)

/-- Lexing goes byte by byte. -/
theorem lexFrom_cons (m : Mode) (b : UInt8) (s : GoString) :
    lexFrom m (b :: s) = (lexFrom (step m b).1 s).map ((step m b).2 ++ ·) := by
  have h : Transduces step m [b] (step m b).1 (step m b).2 := by simp [Transduces, transduce]
  exact lexFrom_append h

/-- Before this rest, the text is read as these tokens. -/
def Lexes (x : GoString) (ts : List Token) (rest : GoString) : Prop :=
  lexFrom .start (x ++ rest) = (lexFrom .start rest).map (ts ++ ·)

instance (x : GoString) (ts : List Token) (rest : GoString) : Decidable (Lexes x ts rest) :=
  inferInstanceAs (Decidable (_ = _))

variable {x y rest : GoString} {us : List Token}

/-- A text after which no token is open. -/
theorem lexes_of_transduces (h : Transduces step .start x .start ts) : Lexes x ts rest :=
  lexFrom_append h

/-- Texts are read one after the other. -/
theorem Lexes.append (hx : Lexes x ts (y ++ rest)) (hy : Lexes y us rest) :
    Lexes (x ++ y) (ts ++ us) rest := by
  unfold Lexes at *
  rw [append_assoc, hx, hy, Option.map_map]
  simp only [Function.comp_def, append_assoc]

/-- All of a text. -/
theorem Lexes.lex_eq (h : Lexes x ts []) : lex x = some ts := by
  have hnil : lexFrom .start [] = some [] := rfl
  rw [Lexes, append_nil, hnil, Option.map_some, append_nil] at h
  exact h

/-- Nothing is read before a text that is not. -/
theorem Lexes.lex_eq_none (h : Lexes x ts rest) (hrest : lexFrom .start rest = none) :
    lex (x ++ rest) = none := by
  rw [lex, h, hrest]
  rfl

/-- Tokens outside code blocks. -/
def Token.isPlain : Token → Bool
  | .dollar _ => false
  | _ => true

/-- Tokens without a code block are the tokens of the script. -/
theorem mapM_expand_of_all (h : ts.all Token.isPlain = true) :
    ts.mapM expand = some (ts.map .plain) := by
  induction ts with
  | nil => rfl
  | cons t ts ih =>
    rw [all_cons, Bool.and_eq_true] at h
    have ht : expand t = some (.plain t) := by
      cases t with
      | dollar b => cases h.1
      | _ => rfl
    rw [mapM_cons, ht, ih h.2]
    rfl

private theorem mapM_expand_eq_none {t : Token} (ht : expand t = none) (us vs : List Token) :
    (us ++ t :: vs).mapM expand = none := by
  induction us with
  | nil => simp [ht]
  | cons u us ih =>
    rw [cons_append, mapM_cons, ih]
    cases expand u <;> rfl

/-- A code block that does not lex makes the script fail, whatever follows it. -/
theorem lexScript_eq_none {body : GoString} (h : Lexes x (ts ++ [.dollar body]) rest)
    (hb : lex body = none) : lexScript (x ++ rest) = none := by
  have he : expand (.dollar body) = none := by rw [expand, hb]; rfl
  rw [lexScript, lex, h]
  cases lexFrom .start rest with
  | none => rfl
  | some us =>
    rw [Option.map_some, Option.bind_some, append_assoc]
    exact mapM_expand_eq_none he ts us

end Athos.Sql
