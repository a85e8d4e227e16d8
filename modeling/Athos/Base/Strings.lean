import Athos.Base.GoString
import Mathlib.Algebra.Group.Int.Defs
import Mathlib.Algebra.Group.Nat.Defs
import Mathlib.Data.List.DropRight

/-!
# Cutting strings

The functions of the Go packages `strings` and `strconv` that the operator takes text apart with.
-/

namespace Athos.Base

open List

/-- `unicode.IsSpace`. -/
def isSpace (r : Nat) : Bool :=
  (0x09 ≤ r && r ≤ 0x0D) || r == 0x20 || r == 0x85 || r == 0xA0 || r == 0x1680 ||
    (0x2000 ≤ r && r ≤ 0x200A) || r == 0x2028 || r == 0x2029 || r == 0x202F || r == 0x205F ||
    r == 0x3000

/-- `strings.TrimSpace`. -/
def trimSpace (s : GoString) : GoString :=
  (((decode s).dropWhile fun p => isSpace p.1).rdropWhile fun p => isSpace p.1).flatMap Prod.snd

/-- `strings.Fields`. -/
def fields (s : GoString) : List GoString :=
  (((decode s).splitOnP fun p => isSpace p.1).filter (· ≠ [])).map fun f => f.flatMap Prod.snd

/-- The text before the first occurrence of a byte and the text after it. -/
def cutByte (b : UInt8) (s : GoString) : GoString × GoString :=
  (s.takeWhile (· != b), (s.dropWhile (· != b)).tail)

/-- The text before the first occurrence of a byte does not contain it. -/
theorem not_mem_cutByte_fst (b : UInt8) (s : GoString) : b ∉ (cutByte b s).1 := by
  intro h
  have := mem_takeWhile_imp h
  simp at this

variable {b sep : UInt8} {s : GoString} {n : Int}

/-- A string that contains the byte is the text before it, the byte, and the text after it. -/
theorem cutByte_append (h : b ∈ s) : s = (cutByte b s).1 ++ b :: (cutByte b s).2 := by
  induction s with
  | nil => cases h
  | cons a s ih =>
    by_cases ha : a = b
    · subst ha
      simp [cutByte]
    · have hs : b ∈ s := by simpa [Ne.symm ha] using h
      have hrest := ih hs
      simp only [cutByte, bne_iff_ne, ne_eq, ha, not_false_eq_true, takeWhile_cons_of_pos,
        dropWhile_cons_of_pos, cons_append] at hrest ⊢
      rw [← hrest]

/-- Cutting takes at least one byte off. -/
theorem length_cutByte_snd (b : UInt8) (s : GoString) :
    (cutByte b s).2.length ≤ s.length - 1 := by
  rw [cutByte, length_tail]
  exact Nat.sub_le_sub_right (dropWhile_sublist _).length_le 1

private theorem bne_of_not_mem (h : b ∉ s) : ∀ a ∈ s, (a != b) = true :=
  fun _ ha => bne_iff_ne.2 (ne_of_mem_of_not_mem ha h)

/-- A string is cut at the byte that ends a text without it. -/
theorem cutByte_append_cons (h : b ∉ s) (t : GoString) : cutByte b (s ++ b :: t) = (s, t) := by
  have hs := bne_of_not_mem h
  rw [cutByte, takeWhile_append_of_pos hs, dropWhile_append_of_pos hs]
  simp

/-- A string without the byte is not cut. -/
theorem cutByte_of_not_mem (h : b ∉ s) : cutByte b s = (s, []) := by
  have hs := bne_of_not_mem h
  rw [cutByte, takeWhile_eq_self_iff.2 hs, dropWhile_eq_nil_iff.2 hs, tail_nil]

/-- The text before the last occurrence of a byte and the text after it, in a string that has
the byte. -/
def cutLastByte (b : UInt8) (s : GoString) : GoString × GoString :=
  ((s.rdropWhile (· != b)).dropLast, s.rtakeWhile (· != b))

/-- Dropping from the end stops at a letter that is kept. -/
theorem rdropWhile_append_cons {α : Type} {p : α → Bool} {c : α} (hc : p c = false)
    (x z : List α) : (x ++ c :: z).rdropWhile p = x ++ c :: z.rdropWhile p := by
  have hrest : (c :: x.reverse).dropWhile p = c :: x.reverse :=
    dropWhile_cons_of_neg (by rw [hc]; exact Bool.false_ne_true)
  rw [List.rdropWhile, List.rdropWhile, reverse_append, reverse_cons, append_assoc,
    singleton_append, dropWhile_append]
  split
  · next h =>
    rw [List.isEmpty_iff.1 h, hrest]
    simp
  · simp

/-- A list is cut in one way where its longest end of elements with a property begins. -/
theorem append_cons_inj_of_forall {α : Type} {p : α → Bool} {a b : α} {x y s t : List α}
    (ha : p a = false) (hb : p b = false) (hs : ∀ c ∈ s, p c = true) (ht : ∀ c ∈ t, p c = true)
    (h : x ++ a :: s = y ++ b :: t) : x = y ∧ a = b ∧ s = t := by
  have hfront : x ++ [a] = y ++ [b] := by
    have hdrop := congrArg (List.rdropWhile p) h
    rwa [rdropWhile_append_cons ha, rdropWhile_append_cons hb, rdropWhile_eq_nil_iff.2 hs,
      rdropWhile_eq_nil_iff.2 ht] at hdrop
  rw [append_cons, append_cons y, hfront] at h
  obtain ⟨hxy, hab⟩ := append_inj' hfront rfl
  exact ⟨hxy, head_eq_of_cons_eq hab, append_cancel_left h⟩

/-- A string is cut at the byte that begins the longest text without it. -/
theorem cutLastByte_append_cons {t : GoString} (h : b ∉ t) (s : GoString) :
    cutLastByte b (s ++ b :: t) = (s, t) := by
  have ht : t.rdropWhile (· != b) = [] := by
    rw [rdropWhile_eq_nil_iff]
    exact bne_of_not_mem h
  have hdrop : (s ++ b :: t).rdropWhile (· != b) = s ++ [b] := by
    rw [rdropWhile_append_cons (by simp), ht]
  have htake : (s ++ [b]) ++ (s ++ b :: t).rtakeWhile (· != b) = (s ++ [b]) ++ t := by
    rw [← hdrop, rdropWhile_append_rtakeWhile, hdrop, append_assoc, singleton_append]
  rw [cutLastByte, hdrop, dropLast_concat, append_cancel_left htake]

/-- A string that has a byte has a last one. -/
theorem exists_append_cons_of_mem (h : b ∈ s) : ∃ x t, s = x ++ b :: t ∧ b ∉ t := by
  obtain ⟨t, x, hs, ht⟩ := eq_append_cons_of_mem (mem_reverse.2 h)
  refine ⟨x.reverse, t.reverse, ?_, by simpa using ht⟩
  rw [← reverse_reverse s, hs]
  simp

/-- The parts that a list is split into are in it and have no separator. -/
theorem of_mem_splitOnP {α : Type} {p : α → Bool} {s part : List α} (h : part ∈ s.splitOnP p) :
    (∀ a ∈ part, p a = false) ∧ part.Sublist s := by
  induction s generalizing part with
  | nil =>
    obtain rfl : part = [] := by simpa using h
    exact ⟨forall_mem_nil _, .slnil⟩
  | cons a s ih =>
    rw [splitOnP_cons_eq_if_modifyHead] at h
    obtain ⟨first, parts, hparts⟩ := exists_cons_of_ne_nil (splitOnP_ne_nil p s)
    split at h
    · rcases mem_cons.1 h with rfl | hmem
      · exact ⟨forall_mem_nil _, nil_sublist _⟩
      · exact ⟨(ih hmem).1, (ih hmem).2.cons a⟩
    · next ha =>
      rw [hparts, modifyHead_cons] at h
      rw [hparts] at ih
      rcases mem_cons.1 h with rfl | hmem
      · obtain ⟨hfirst, hsub⟩ := ih mem_cons_self
        exact ⟨forall_mem_cons.2 ⟨by simpa using ha, hfirst⟩, hsub.cons_cons a⟩
      · obtain ⟨hpart, hsub⟩ := ih (mem_cons_of_mem _ hmem)
        exact ⟨hpart, hsub.cons a⟩

/-- The parts of a string do not have the separator. -/
theorem not_mem_of_mem_splitOn {part : GoString} (h : part ∈ s.splitOn sep) : sep ∉ part := by
  intro hmem
  have hsep := (of_mem_splitOnP h).1 sep hmem
  simp at hsep

/-- What holds of a separator holds of all bytes exactly if it holds of those of the parts. -/
theorem forall_mem_splitOn {P : UInt8 → Prop} (hsep : P sep) (s : GoString) :
    (∀ part ∈ s.splitOn sep, ∀ b ∈ part, P b) ↔ ∀ b ∈ s, P b := by
  induction s with
  | nil => simp
  | cons a s ih =>
    rw [splitOn_cons_eq_if_modifyHead, forall_mem_cons, ← ih]
    split
    · rename_i ha
      rw [beq_iff_eq] at ha
      simp [ha, hsep]
    · obtain ⟨part, parts, hparts⟩ :=
        exists_cons_of_ne_nil (splitOn_ne_nil sep s)
      simp [hparts, and_assoc]

/-- Visible ASCII characters. -/
def IsGraphic (b : UInt8) : Prop := 0x21 ≤ b ∧ b ≤ 0x7E

instance (b : UInt8) : Decidable (IsGraphic b) := inferInstanceAs (Decidable (_ ∧ _))

private theorem not_isSpace_of_isGraphic (h : IsGraphic b) : isSpace b.toNat = false := by
  obtain ⟨h₁, h₂⟩ := h
  simp only [UInt8.le_iff_toNat_le, UInt8.reduceToNat] at h₁ h₂
  simp only [isSpace, Bool.or_eq_false_iff, Bool.and_eq_false_iff, decide_eq_false_iff_not,
    beq_eq_false_iff_ne]
  omega

/-- A string without the space at its end. -/
def trimTrailing (s : GoString) : GoString :=
  ((decode s).rdropWhile fun p => isSpace p.1).flatMap Prod.snd

/-- Without space there is nothing to trim at the end. -/
theorem trimTrailing_of_not_isSpace (h : ∀ r ∈ runes s, isSpace r = false) :
    trimTrailing s = s := by
  have hright : (decode s).rdropWhile (fun p => isSpace p.1) = decode s := by
    apply rdropWhile_eq_self_iff.2
    intro hne
    have hlast := h _ (mem_map_of_mem (getLast_mem hne))
    simp only [hlast, Bool.false_eq_true, not_false_eq_true]
  rw [trimTrailing, hright, flatMap_decode]

/-- Nothing is trimmed from a string without space. -/
theorem trimSpace_of_not_isSpace (h : ∀ r ∈ runes s, isSpace r = false) : trimSpace s = s := by
  have hspace : ∀ p ∈ decode s, isSpace p.1 = false := fun p hp => h p.1 (mem_map_of_mem hp)
  have hleft : (decode s).dropWhile (fun p => isSpace p.1) = decode s := by
    apply dropWhile_eq_self_iff.2
    intro hlen
    simp only [hspace _ (getElem_mem hlen), Bool.false_eq_true, not_false_eq_true]
  rw [trimSpace, hleft]
  exact trimTrailing_of_not_isSpace h

/-- Graphic bytes are no space. -/
theorem not_isSpace_runes_of_isGraphic (h : ∀ b ∈ s, IsGraphic b) :
    ∀ r ∈ runes s, isSpace r = false := by
  have hascii : ∀ b ∈ s, b < 0x80 := by
    intro b hb
    have := (h b hb).2
    rw [UInt8.le_iff_toNat_le] at this
    rw [UInt8.lt_iff_toNat_lt]
    exact Nat.lt_of_le_of_lt this (by decide)
  intro r hr
  rw [runes_ascii hascii] at hr
  obtain ⟨b, hb, rfl⟩ := mem_map.1 hr
  exact not_isSpace_of_isGraphic (h b hb)

/-- Nothing is trimmed from visible characters. -/
theorem trimSpace_of_isGraphic (h : ∀ b ∈ s, IsGraphic b) : trimSpace s = s :=
  trimSpace_of_not_isSpace (not_isSpace_runes_of_isGraphic h)

/-- Space before a string is trimmed. -/
theorem trimSpace_cons (hb : b < 0x80) (hspace : isSpace b.toNat = true) (s : GoString) :
    trimSpace (b :: s) = trimSpace s := by
  rw [trimSpace, decode_cons_ascii hb, dropWhile_cons_of_pos (by exact hspace)]
  rfl

/-- The space after a visible byte is trimmed, and none before it if the string does not begin
with space. -/
theorem trimSpace_append_cons (hb : b < 0x80) (hspace : isSpace b.toNat = false) {front : GoString}
    (hfront : ∀ p, (decode front).head? = some p → isSpace p.1 = false) (s : GoString) :
    trimSpace (front ++ b :: s) = front ++ b :: trimTrailing s := by
  have hdecode : decode (front ++ b :: s) = decode front ++ (b.toNat, [b]) :: decode s := by
    rw [decode_append_cons hb, decode_cons_ascii hb]
  have hleft : (decode front ++ (b.toNat, [b]) :: decode s).dropWhile (fun p => isSpace p.1) =
      decode front ++ (b.toNat, [b]) :: decode s := by
    cases hd : decode front with
    | nil => exact dropWhile_cons_of_neg (by simpa using hspace)
    | cons p rest =>
      have hp := hfront p (by rw [hd]; rfl)
      exact dropWhile_cons_of_neg (by simpa using hp)
  rw [trimSpace, hdecode, hleft, rdropWhile_append_cons (by simpa using hspace),
    flatMap_append, flatMap_decode, flatMap_cons]
  rfl

/-- Space after a string is trimmed. -/
theorem trimSpace_concat (hb : b < 0x80) (hspace : isSpace b.toNat = true) (s : GoString) :
    trimSpace (s ++ [b]) = trimSpace s := by
  have hdecode : decode (s ++ [b]) = decode s ++ [(b.toNat, [b])] := by
    rw [decode_append_cons hb, decode_cons_ascii hb]
    rfl
  have hlast : [(b.toNat, [b])].dropWhile (fun p => isSpace p.1) = [] :=
    dropWhile_cons_of_pos (by exact hspace)
  rw [trimSpace, trimSpace, hdecode, dropWhile_append]
  split
  · next h => rw [hlast, List.isEmpty_iff.1 h]
  · rw [rdropWhile_concat_pos _ _ _ (by exact hspace)]

/-- Nothing is left of a string exactly if it is all space. -/
theorem trimSpace_eq_nil_iff : trimSpace s = [] ↔ ∀ r ∈ runes s, isSpace r = true := by
  have hpieces : ∀ l : List (Nat × GoString), l ⊆ decode s →
      (l.flatMap Prod.snd = [] ↔ l = []) := by
    intro l hl
    constructor
    · intro h
      cases l with
      | nil => rfl
      | cons p l =>
        have hp := ne_nil_of_mem_decode (hl mem_cons_self)
        exact absurd (append_eq_nil_iff.1 h).1 hp
    · rintro rfl
      rfl
  have hsub : ((decode s).dropWhile fun p => isSpace p.1).rdropWhile (fun p => isSpace p.1) ⊆
      decode s :=
    (( rdropWhile_prefix _ _).sublist.trans (dropWhile_sublist _)).subset
  rw [trimSpace, hpieces _ hsub, rdropWhile_eq_nil_iff]
  constructor
  · -- What the first trimming leaves begins with a rune that is no space.
    intro h
    have hleft : (decode s).dropWhile (fun p => isSpace p.1) = [] := by
      by_contra hne
      have hhead := head_dropWhile_not (fun p : Nat × GoString => isSpace p.1) hne
      rw [h _ (head_mem hne)] at hhead
      cases hhead
    intro r hr
    obtain ⟨p, hp, rfl⟩ := mem_map.1 hr
    exact dropWhile_eq_nil_iff.1 hleft p hp
  · intro h p hp
    exact h p.1 (mem_map_of_mem ((dropWhile_sublist _).subset hp))

/-- Trimming keeps the beginning. -/
theorem trimTrailing_append (s : GoString) : ∃ t, s = trimTrailing s ++ t := by
  refine ⟨((decode s).rtakeWhile fun p => isSpace p.1).flatMap Prod.snd, ?_⟩
  rw [trimTrailing, ← flatMap_append, rdropWhile_append_rtakeWhile, flatMap_decode]

/-- The value of a string of digits. -/
def digitsValue (s : GoString) : Nat := s.foldl (fun v b => 10 * v + (b.toNat - 0x30)) 0

private theorem digitsValue_eq (s : GoString) :
    digitsValue s = Nat.ofDigitChars 10 (s.map fun b => Char.ofNat b.toNat) 0 := by
  have hchar : ∀ b : UInt8, (Char.ofNat b.toNat).toNat = b.toNat := by
    intro b
    have hvalid : b.toNat.isValidChar := .inl (Nat.lt_of_lt_of_le b.toNat_lt (by decide))
    rw [Char.ofNat, dif_pos hvalid]
    rfl
  rw [digitsValue, Nat.ofDigitChars, foldl_map]
  simp only [hchar]
  rfl

/-- Decimal renderings have the value they render. -/
theorem digitsValue_decimalNat (n : Nat) : digitsValue (decimalNat n) = n := by
  rw [digitsValue_eq, digitChar_recover, Nat.ofDigitChars_ten_toDigits]

/-- `strconv.Atoi`: an optional sign and digits, in the range of a 64-bit integer; `none`
is any error. -/
def atoi (s : GoString) : Option Int :=
  let negative := s.head? = some 0x2D
  let digits := if s.head? = some 0x2D ∨ s.head? = some 0x2B then s.tail else s
  if digits = [] ∨ ¬ digits.all isDigitByte then none
  else
    let v : Int := if negative then -(digitsValue digits : Int) else digitsValue digits
    if -(2 ^ 63) ≤ v ∧ v < 2 ^ 63 then some v else none

/-- What is read fits into 64 bits. -/
theorem atoi_range (h : atoi s = some n) : -(2 ^ 63) ≤ n ∧ n < 2 ^ 63 := by
  unfold atoi at h
  extract_lets negative digits at h
  split_ifs at h with hbad hrange
  obtain rfl := Option.some.inj h
  exact hrange

/-- Decimal renderings of 64-bit integers are read back. -/
theorem atoi_decimal (hlow : -(2 ^ 63) ≤ n) (hhigh : n < 2 ^ 63) : atoi (decimal n) = some n := by
  have hall : ∀ m, (decimalNat m).all isDigitByte = true := fun m =>
    all_eq_true.2 fun b hb => isDigitByte_of_mem_decimalNat hb
  have hdigits : ∀ m, ¬ (decimalNat m = [] ∨ ¬ (decimalNat m).all isDigitByte = true) := by
    intro m
    rw [hall m]
    simp [decimalNat_ne_nil m]
  cases n with
  | ofNat m =>
    have hminus := head_decimalNat_ne (b := 0x2D) rfl m
    have hplus := head_decimalNat_ne (b := 0x2B) rfl m
    simp only [atoi, decimal, hminus, hplus, or_self, if_false, if_neg (hdigits m),
      digitsValue_decimalNat]
    exact if_pos ⟨hlow, hhigh⟩
  | negSucc m =>
    simp only [atoi, decimal, head?_cons, tail_cons, true_or, if_true,
      if_neg (hdigits (m + 1)), digitsValue_decimalNat]
    exact if_pos ⟨hlow, hhigh⟩

/-- The error of `strconv.Atoi`. The range error is found as soon as the digits read exceed 64
bits, before what follows them is looked at. -/
def atoiError (T : RuneTables) (s : GoString) : GoString :=
  let body := if s.head? = some 0x2D ∨ s.head? = some 0x2B then s.tail else s
  lit "strconv.Atoi: parsing " ++ goQuote T s ++ lit ": " ++
    if 2 ^ 64 ≤ digitsValue (body.takeWhile isDigitByte) ∨ (body ≠ [] ∧ body.all isDigitByte) then
      lit "value out of range"
    else lit "invalid syntax"

/-- What a number looks like: an optional sign and digits. -/
theorem atoi_shape (h : atoi s = some n) :
    ∃ sign digits, s = sign ++ digits ∧ (sign = [] ∨ sign = [0x2D] ∨ sign = [0x2B]) ∧
      digits ≠ [] ∧ ∀ b ∈ digits, isDigitByte b = true := by
  by_cases hsign : s.head? = some 0x2D ∨ s.head? = some 0x2B
  · by_cases hbad : s.tail = [] ∨ ¬ s.tail.all isDigitByte = true
    · simp only [atoi, if_pos hsign, if_pos hbad] at h
      cases h
    · obtain ⟨hne, hall⟩ := not_or.1 hbad
      cases s with
      | nil => exact absurd rfl hne
      | cons a s =>
        refine ⟨[a], s, rfl, ?_, hne, all_eq_true.1 (not_not.1 hall)⟩
        simpa using hsign
  · by_cases hbad : s = [] ∨ ¬ s.all isDigitByte = true
    · simp only [atoi, if_neg hsign, if_pos hbad] at h
      cases h
    · obtain ⟨hne, hall⟩ := not_or.1 hbad
      exact ⟨[], s, rfl, .inl rfl, hne, all_eq_true.1 (not_not.1 hall)⟩

end Athos.Base
