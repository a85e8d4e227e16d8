import Athos.Base.GoString

/-!
# Percent encoding

Percent-encoding of bytes after RFC 3986 and its inverse, for texts in which the byte 0 cannot
stand, and the escaping of the Go package `net/url`.
-/

namespace Athos.Base

open List Option

/-- The upper-case hexadecimal digit of a value below 16. -/
def upperHex (n : Nat) : UInt8 := UInt8.ofNat (if n < 10 then 0x30 + n else 0x37 + n)

/-- The value of a hexadecimal digit. -/
def hexValue (b : UInt8) : Option Nat :=
  if 0x30 ≤ b ∧ b ≤ 0x39 then some (b.toNat - 0x30)
  else if 0x41 ≤ b ∧ b ≤ 0x46 then some (b.toNat - 0x37)
  else if 0x61 ≤ b ∧ b ≤ 0x66 then some (b.toNat - 0x57)
  else none

/-- `%` and two digits. -/
def escapeByte (b : UInt8) : GoString := [0x25, upperHex (b.toNat / 16), upperHex (b.toNat % 16)]

/-- The byte that two digits stand for; `%00` is none. -/
def escapeValue (hi lo : UInt8) : Option UInt8 :=
  (hexValue hi).bind fun h => (hexValue lo).bind fun l =>
    if 16 * h + l = 0 then none else some (UInt8.ofNat (16 * h + l))

/-- Percent-decoding; `none` is a malformed escape. -/
def unescape : GoString → Option GoString
  | [] => some []
  | b :: s =>
    if b ≠ 0x25 then (unescape s).map (b :: ·)
    else
      match s with
      | hi :: lo :: t => (escapeValue hi lo).bind fun c => (unescape t).map (c :: ·)
      | _ => none

section Unescape

variable {b : UInt8} {s t : GoString}

/-- Bytes other than a percent sign stand for themselves. -/
theorem unescape_cons (hb : b ≠ 0x25) (s : GoString) :
    unescape (b :: s) = (unescape s).map (b :: ·) := by
  rw [unescape.eq_def]
  exact if_pos hb

private theorem escapeValue_upperHex (hb : b ≠ 0) :
    escapeValue (upperHex (b.toNat / 16)) (upperHex (b.toNat % 16)) = some b := by
  have hdigit : ∀ n < 16, hexValue (upperHex n) = some n := by decide
  have hlt := b.toNat_lt
  have hne : b.toNat ≠ 0 := by
    intro h
    exact hb (UInt8.toNat_inj.1 h)
  have hsum : 16 * (b.toNat / 16) + b.toNat % 16 = b.toNat := Nat.div_add_mod _ _
  rw [escapeValue, hdigit _ (by omega), hdigit _ (by omega), bind_some, bind_some,
    hsum, if_neg hne, UInt8.ofNat_toNat]

private theorem unescape_escapeByte (hb : b ≠ 0) (s : GoString) :
    unescape (escapeByte b ++ s) = (unescape s).map (b :: ·) := by
  rw [escapeByte, cons_append, cons_append, cons_append, nil_append, unescape,
    if_neg (by decide), escapeValue_upperHex hb, bind_some]

/-- So does a text without a percent sign. -/
theorem unescape_append_of_not_mem (h : 0x25 ∉ s) (t : GoString) :
    unescape (s ++ t) = (unescape t).map (s ++ ·) := by
  induction s with
  | nil => simp
  | cons b s ih =>
    rw [mem_cons, not_or] at h
    rw [cons_append, unescape_cons (Ne.symm h.1), ih h.2, Option.map_map]
    rfl

/-- Decoding makes no text longer, and one with an escape shorter. -/
theorem length_unescape (h : unescape s = some t) :
    t.length ≤ s.length ∧ (0x25 ∈ s → t.length < s.length) := by
  fun_induction unescape s generalizing t with
  | case1 =>
    obtain rfl := some.inj h
    simp
  | case2 b s hb ih =>
    obtain ⟨t', ht', rfl⟩ := map_eq_some_iff.1 h
    obtain ⟨hle, hlt⟩ := ih ht'
    simp only [length_cons, mem_cons, Ne.symm hb, false_or]
    exact ⟨Nat.succ_le_succ hle, fun hmem => Nat.succ_lt_succ (hlt hmem)⟩
  | case3 b hb hi lo s ih =>
    obtain ⟨c, -, hmap⟩ := bind_eq_some_iff.1 h
    obtain ⟨t', ht', rfl⟩ := map_eq_some_iff.1 hmap
    have hlen := (ih ht').1
    simp only [length_cons]
    omega
  | case4 => cases h

/-- A text without a percent sign is its own meaning. -/
theorem unescape_of_not_mem (h : 0x25 ∉ s) : unescape s = some s := by
  have happend := unescape_append_of_not_mem h []
  rwa [append_nil, unescape, map_some, append_nil] at happend

/-- Exactly the texts without `%` stand for themselves. -/
theorem unescape_eq_self_iff : unescape s = some s ↔ 0x25 ∉ s := by
  refine ⟨fun h hmem => ?_, unescape_of_not_mem⟩
  exact Nat.lt_irrefl _ ((length_unescape h).2 hmem)

private theorem unescape_flatMap {enc : UInt8 → GoString} {dec : UInt8 → UInt8}
    (h : ∀ b ∈ s, ∀ t, unescape (enc b ++ t) = (unescape t).map (dec b :: ·)) :
    unescape (s.flatMap enc) = some (s.map dec) := by
  induction s with
  | nil => rfl
  | cons b s ih =>
    rw [forall_mem_cons] at h
    rw [flatMap_cons, h.1, ih h.2]
    rfl

end Unescape

/-- Escape all bytes that are not kept. -/
def escape (keep : UInt8 → Bool) (s : GoString) : GoString :=
  s.flatMap fun b => if keep b then [b] else escapeByte b

section Escape

variable {keep : UInt8 → Bool} {b : UInt8} {s : GoString}

/-- Escaped text is decoded. -/
theorem unescape_escape (hkeep : keep 0x25 = false) (hs : 0 ∉ s) :
    unescape (escape keep s) = some s := by
  conv_rhs => rw [← List.map_id s]
  apply unescape_flatMap
  intro b hb t
  split_ifs with hk
  · apply unescape_cons
    rintro rfl
    rw [hkeep] at hk
    cases hk
  · apply unescape_escapeByte
    rintro rfl
    exact hs hb

private theorem not_mem_escapeByte (hb : b ≠ 0x25) (hhex : hexValue b = none) (c : UInt8) :
    b ∉ escapeByte c := by
  have hdigit : ∀ n < 16, hexValue (upperHex n) ≠ none := by decide
  have hlt := c.toNat_lt
  simp only [escapeByte, mem_cons, not_mem_nil, or_false]
  rintro (rfl | rfl | rfl)
  · exact hb rfl
  · exact hdigit _ (by omega) hhex
  · exact hdigit _ (by omega) hhex

/-- Escaped text contains no other bytes than those kept, `%` and digits. -/
theorem not_mem_escape (hkeep : keep b = false) (hb : b ≠ 0x25) (hhex : hexValue b = none)
    (s : GoString) : b ∉ escape keep s := by
  intro h
  obtain ⟨c, -, hc⟩ := mem_flatMap.1 h
  split_ifs at hc with hk
  · obtain rfl := mem_singleton.1 hc
    rw [hkeep] at hk
    cases hk
  · exact not_mem_escapeByte hb hhex c hc

/-- Escaping goes byte by byte. -/
theorem escape_cons (b : UInt8) (s : GoString) :
    escape keep (b :: s) = (if keep b then [b] else escapeByte b) ++ escape keep s :=
  flatMap_cons

private theorem length_le_escape (s : GoString) : s.length ≤ (escape keep s).length := by
  induction s with
  | nil => exact Nat.le_refl _
  | cons b s ih =>
    rw [escape_cons, length_append, length_cons]
    split_ifs
    · rw [length_singleton]
      omega
    · rw [escapeByte, length_cons]
      omega

/-- Exactly text of kept bytes is left as it is. -/
theorem escape_eq_self_iff : escape keep s = s ↔ ∀ b ∈ s, keep b = true := by
  induction s with
  | nil => simp [escape]
  | cons b s ih =>
    rw [forall_mem_cons, ← ih, escape_cons]
    split_ifs with hk
    · simp [hk]
    · -- an escape is longer than what it stands for
      have hlong : (escape keep s).length + 3 ≠ s.length + 1 := by
        have hle : s.length ≤ (escape keep s).length := length_le_escape s
        omega
      refine iff_of_false (fun heq => hlong ?_) (fun h => hk h.1)
      have hlen := congrArg List.length heq
      rw [length_append, length_cons] at hlen
      simp only [escapeByte, length_cons, length_nil] at hlen
      omega

end Escape

/-- ASCII letters and digits. -/
def isAlphanumeric (b : UInt8) : Bool :=
  (0x61 ≤ b && b ≤ 0x7A) || (0x41 ≤ b && b ≤ 0x5A) || (0x30 ≤ b && b ≤ 0x39)

/-- The unreserved characters of RFC 3986: letters, digits and `-_.~`. -/
def isUnreserved (b : UInt8) : Bool := isAlphanumeric b || (lit "-_.~").contains b

/-- What is left as it is in a host: `shouldEscape` with `encodeHost`. -/
def inHost (b : UInt8) : Bool := isUnreserved b || (lit "!$&'()*+,;=:[]<>\"").contains b

/-- What is left as it is in a path: `shouldEscape` with `encodePath`. -/
def inPath (b : UInt8) : Bool := isUnreserved b || (lit "$&+,/:;=@").contains b

/-- What is left as it is in a segment of a path: `shouldEscape` with `encodePathSegment`. -/
def inPathSegment (b : UInt8) : Bool := isUnreserved b || (lit "$&+:=@").contains b

/-- What is left as it is in user information: `shouldEscape` with `encodeUserPassword`. -/
def inUserinfo (b : UInt8) : Bool := isUnreserved b || (lit "$&+,;=").contains b

/-- `url.PathEscape`. -/
def pathEscape (s : GoString) : GoString := escape inPathSegment s

/-- `url.QueryEscape`: all but unreserved characters are escaped, and a blank becomes `+`. -/
def queryEscape (s : GoString) : GoString :=
  s.flatMap fun b => if b = 0x20 then [0x2B] else if isUnreserved b then [b] else escapeByte b

/-- `url.Userinfo`. -/
structure Userinfo where
  username : GoString
  password : Option GoString

/-- `Userinfo.String`. -/
def Userinfo.string (u : Userinfo) : GoString :=
  if u.username ≠ [] ∨ u.password.getD [] ≠ [] then
    escape inUserinfo u.username ++
      match u.password with
      | some password => 0x3A :: escape inUserinfo password
      | none => []
  else []

/-- A `url.URL` with a scheme and user information whose path begins with a slash. -/
structure Url where
  scheme : GoString
  user : Userinfo
  host : GoString
  path : GoString
  rawQuery : GoString

/-- `URL.String`. -/
def Url.string (u : Url) : GoString :=
  u.scheme ++ lit "://" ++ u.user.string ++ lit "@" ++ escape inHost u.host ++
    escape inPath u.path ++ if u.rawQuery ≠ [] then 0x3F :: u.rawQuery else []

/-- `url.Values.Encode` for values set once, by sorted key. -/
def encodeValues (values : List (GoString × GoString)) : GoString :=
  List.intercalate [0x26] (values.map fun p => queryEscape p.1 ++ 0x3D :: queryEscape p.2)

/-- Text with `+` for each blank. -/
def plusForBlank (s : GoString) : GoString := s.map fun b => if b = 0x20 then 0x2B else b

/-- No blank is left. -/
theorem not_mem_plusForBlank (s : GoString) : 0x20 ∉ plusForBlank s := by
  intro h
  obtain ⟨b, -, hb⟩ := List.mem_map.1 h
  split_ifs at hb with hblank
  · exact absurd hb (by decide)
  · exact hblank hb

/-- Without blanks there is nothing to replace. -/
theorem plusForBlank_of_not_mem {s : GoString} (h : 0x20 ∉ s) : plusForBlank s = s := by
  conv_rhs => rw [← List.map_id s]
  apply map_congr_left
  intro b hb
  apply if_neg
  rintro rfl
  exact h hb

/-- Percent-decoding gives `+` for a blank. -/
theorem unescape_queryEscape {s : GoString} (hs : 0 ∉ s) :
    unescape (queryEscape s) = some (plusForBlank s) := by
  apply unescape_flatMap
  intro b hb t
  have hne : b ≠ 0 := by
    rintro rfl
    exact hs hb
  by_cases hblank : b = 0x20
  · subst hblank
    exact unescape_cons (by decide) t
  · rw [if_neg hblank, if_neg hblank]
    split_ifs with hk
    · apply unescape_cons
      rintro rfl
      exact absurd hk (by decide)
    · exact unescape_escapeByte hne t

/-- A byte that is neither kept nor needed to write escapes is not in an escaped text. -/
theorem not_mem_queryEscape {b : UInt8} (hkeep : isUnreserved b = false) (hplus : b ≠ 0x2B)
    (hb : b ≠ 0x25) (hhex : hexValue b = none) (s : GoString) : b ∉ queryEscape s := by
  intro h
  obtain ⟨c, -, hc⟩ := mem_flatMap.1 h
  split_ifs at hc with hblank hk
  · exact hplus (mem_singleton.1 hc)
  · obtain rfl := mem_singleton.1 hc
    rw [hkeep] at hk
    cases hk
  · exact not_mem_escapeByte hb hhex c hc

end Athos.Base
