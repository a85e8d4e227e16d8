import Athos.Sql.Quoting

/-!
# SQL escaping

`src/internal/sqlescape/sqlescape.go`: quoting of identifiers and literals, and the checks callers
make before they quote.
-/

namespace Athos.User

open Base Sql List

/-- `Identifier`; `sqlescape.go:36-44`. A NUL byte yields a fixed identifier. -/
def identifier (name : GoString) : GoString :=
  if name.contains 0 then lit "\"\\x00\""
  else [0x22] ++ replaceByte 0x22 [0x22, 0x22] name ++ [0x22]

/-- `StringLiteral`; `sqlescape.go:47-49`. -/
def stringLiteral (s : GoString) : GoString := [0x27] ++ replaceByte 0x27 [0x27, 0x27] s ++ [0x27]

/-- The runes `IsValidIdentifier` lets pass; `sqlescape.go:84-100`. -/
def isIdentifierRune (T : RuneTables) (r : Nat) : Bool :=
  if r = 0 then false
  else if r < 0x20 ∧ r ≠ 0x20 then false
  else if r = 0x22 then false
  else if T.isLetter r || T.isDigit r then true
  else r = 0x5F || r = 0x24 || r = 0x2D || r = 0x2E

/-- `IsValidIdentifier`; `sqlescape.go:79-103`. -/
def isValidIdentifier (T : RuneTables) (name : GoString) : Bool :=
  if name = [] ∨ 63 < name.length then false else (runes name).all (isIdentifierRune T)

/-- `AssertSafePassword`; `sqlescape.go:120-125`. -/
def assertSafePassword (pw : GoString) : Bool := !pw.contains 0

variable {T : RuneTables} {name : GoString}

/-- A string literal is quoted with single quotes. -/
theorem stringLiteral_eq (s : GoString) : stringLiteral s = quoted 0x27 s := by
  rw [stringLiteral, quoted, append_assoc, singleton_append]

/-- A valid identifier has at least one byte. -/
theorem ne_nil_of_isValidIdentifier (h : isValidIdentifier T name = true) : name ≠ [] := by
  rintro rfl
  exact absurd h (by simp [isValidIdentifier])

/-- A valid identifier has at most 63 bytes. -/
theorem length_of_isValidIdentifier (h : isValidIdentifier T name = true) : name.length < 64 := by
  by_contra hlong
  rw [isValidIdentifier, if_pos (.inr (by omega))] at h
  cases h

private theorem isIdentifierRune_ascii {r : Nat} (hr : r < 0x80)
    (h : isIdentifierRune T r = true) :
    isAsciiLetter r = true ∨ (0x30 ≤ r ∧ r ≤ 0x39) ∨ r = 0x5F ∨ r = 0x24 ∨ r = 0x2D ∨ r = 0x2E := by
  unfold isIdentifierRune at h
  split at h
  · cases h
  split at h
  · cases h
  split at h
  · cases h
  split at h
  · next hl =>
    rw [T.isLetter_ascii r hr, T.isDigit_ascii r hr, Bool.or_eq_true, decide_eq_true_eq] at hl
    rcases hl with hl | hl
    · exact .inl hl
    · exact .inr (.inl hl)
  · simp only [Bool.or_eq_true, decide_eq_true_eq] at h
    omega

/-- No byte outside letters, digits, `_`, `$`, `-` and `.` occurs below 0x80. -/
theorem mem_of_isValidIdentifier (h : isValidIdentifier T name = true) {b : UInt8}
    (hm : b ∈ name) (hb : b < 0x80) :
    isAsciiLetter b.toNat = true ∨ (0x30 ≤ b.toNat ∧ b.toNat ≤ 0x39) ∨
      b = 0x5F ∨ b = 0x24 ∨ b = 0x2D ∨ b = 0x2E := by
  unfold isValidIdentifier at h
  split at h
  · cases h
  · have hr := all_eq_true.1 h _ (ascii_mem_runes hm hb)
    have hd := isIdentifierRune_ascii (UInt8.lt_iff_toNat_lt.1 hb) hr
    simpa only [← UInt8.toNat_inj, UInt8.reduceToNat] using hd

/-- A valid identifier contains neither quote nor NUL. -/
theorem not_mem_of_isValidIdentifier (h : isValidIdentifier T name = true) :
    0x00 ∉ name ∧ 0x22 ∉ name ∧ 0x27 ∉ name := by
  refine ⟨fun hm => ?_, fun hm => ?_, fun hm => ?_⟩ <;>
  · have hd := mem_of_isValidIdentifier h hm (by decide)
    revert hd
    decide

/-- A password that passes the check has no NUL. -/
theorem assertSafePassword_iff {pw : GoString} : assertSafePassword pw = true ↔ 0x00 ∉ pw := by
  simp [assertSafePassword]

/-- A name without NUL is quoted. -/
theorem identifier_of_not_mem (h : 0 ∉ name) : identifier name = quoted 0x22 name := by
  have h0 : name.contains 0 = false := by simpa using h
  rw [identifier, h0, quoted, append_assoc, singleton_append]
  rfl

/-- A valid identifier is quoted. -/
theorem identifier_eq (h : isValidIdentifier T name = true) :
    identifier name = quoted 0x22 name :=
  identifier_of_not_mem (not_mem_of_isValidIdentifier h).1

/-- A valid identifier is one token before any text that does not begin with its quote. -/
theorem lexes_identifier (h : isValidIdentifier T name = true) {s : GoString}
    (hs : s.head?.all (· != 0x22) = true) : Lexes (identifier name) [.ident name] s := by
  have hread := lexes_ident (ne_nil_of_isValidIdentifier h) (not_mem_of_isValidIdentifier h).1
    (s := s) fun he => by simp [he] at hs
  rwa [truncateIdentifier_of_length_lt (length_of_isValidIdentifier h), ← identifier_eq h] at hread

/-- A literal is one token before any text that neither begins with its quote nor continues it
after a newline. -/
theorem lexes_stringLiteral {v s : GoString} (h0 : 0x00 ∉ v)
    (hs : s.head?.all (· != 0x27) = true) (h : resumes (.blank false) s = false) :
    Lexes (stringLiteral v) [.literal v] s := by
  rw [stringLiteral_eq]
  exact lexes_literal h0 (fun he => by simp [he] at hs) h

end Athos.User
