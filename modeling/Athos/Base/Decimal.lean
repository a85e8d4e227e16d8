import Athos.Base.Strings
import Mathlib.Tactic.Ring

/-!
# Strings of digits

What a string of digits stands for, what `strconv.Atoi` makes of it with and without a sign, what a
loop over the digits makes of it in 64 bits, and the form with leading zeros in which the Go package
`time` writes numbers. Strings of the same length are in the order of their numbers.
-/

namespace Athos.Base

open List

/-- A string of digits, at least one. -/
structure IsDigits (s : GoString) : Prop where
  ne_nil : s ≠ []
  digit : ∀ b ∈ s, isDigitByte b = true

section Signs

variable {s : GoString} (h : IsDigits s)

include h

private theorem IsDigits.not_bad : ¬ (s = [] ∨ ¬ s.all isDigitByte = true) := by
  rw [not_or, not_not]
  exact ⟨h.ne_nil, all_eq_true.2 h.digit⟩

/-- Digits begin with a digit. -/
theorem IsDigits.head_ne {b : UInt8} (hb : isDigitByte b = false) : s.head? ≠ some b := by
  intro hhead
  have hdigit := h.digit b (mem_of_head? hhead)
  rw [hb] at hdigit
  cases hdigit

/-- `strconv.Atoi` reads digits whose value fits. -/
theorem IsDigits.atoi : atoi s = if digitsValue s < 2 ^ 63 then some (digitsValue s : Int)
    else none := by
  have hminus := h.head_ne (b := 0x2D) rfl
  have hplus := h.head_ne (b := 0x2B) rfl
  simp only [Base.atoi, hminus, hplus, or_self, if_false, if_neg h.not_bad]
  split_ifs <;> first | rfl | omega

/-- It reads them after a plus sign as well. -/
theorem IsDigits.atoi_plus : Base.atoi (0x2B :: s) =
    if digitsValue s < 2 ^ 63 then some (digitsValue s : Int) else none := by
  simp only [Base.atoi, head?_cons, or_true, if_true, tail_cons, if_neg h.not_bad,
    Option.some.injEq, show ¬ (0x2B : UInt8) = 0x2D by decide, if_false]
  split_ifs <;> first | rfl | omega

/-- After a minus sign they may be one larger. -/
theorem IsDigits.atoi_minus : Base.atoi (0x2D :: s) =
    if digitsValue s ≤ 2 ^ 63 then some (-(digitsValue s : Int)) else none := by
  simp only [Base.atoi, head?_cons, true_or, if_true, tail_cons, if_neg h.not_bad]
  split_ifs <;> first | rfl | omega

end Signs

private theorem foldl_digits (s : GoString) (v : Nat) :
    s.foldl (fun v b => 10 * v + (b.toNat - 0x30)) v = v * 10 ^ s.length + digitsValue s := by
  unfold digitsValue
  induction s generalizing v with
  | nil => simp
  | cons b s ih =>
    rw [foldl_cons, foldl_cons, ih, ih (10 * 0 + (b.toNat - 0x30)), length_cons,
      Nat.pow_succ, Nat.add_mul, Nat.add_mul]
    ring

/-- The value of digits that follow each other. -/
theorem digitsValue_append (s t : GoString) :
    digitsValue (s ++ t) = digitsValue s * 10 ^ t.length + digitsValue t := by
  rw [digitsValue, foldl_append, foldl_digits]
  rfl

/-- The first digit counts as often as its place says. -/
theorem digitsValue_cons (b : UInt8) (s : GoString) :
    digitsValue (b :: s) = (b.toNat - 0x30) * 10 ^ s.length + digitsValue s := by
  rw [digitsValue, foldl_cons, foldl_digits]
  simp

variable {b : UInt8} {n width : Nat}

/-- The digits are a range of bytes. -/
theorem toNat_of_isDigitByte (h : isDigitByte b = true) : 0x30 ≤ b.toNat ∧ b.toNat ≤ 0x39 := by
  simpa [isDigitByte, UInt8.le_iff_toNat_le] using h

private theorem digitsValue_lt {s : GoString} (h : ∀ b ∈ s, isDigitByte b = true) :
    digitsValue s < 10 ^ s.length := by
  induction s with
  | nil => exact Nat.one_pos
  | cons b s ih =>
    have hb := toNat_of_isDigitByte (h b mem_cons_self)
    have hlt := ih fun c hc => h c (mem_cons_of_mem b hc)
    rw [digitsValue_cons, length_cons, Nat.pow_succ]
    have hle : (b.toNat - 0x30) * 10 ^ s.length ≤ 9 * 10 ^ s.length :=
      Nat.mul_le_mul_right _ (by omega)
    omega

/-- A last digit moves the others up. -/
theorem digitsValue_concat (s : GoString) (b : UInt8) :
    digitsValue (s ++ [b]) = 10 * digitsValue s + (b.toNat - 0x30) := by
  rw [digitsValue, foldl_append]
  rfl

/-- Every string ends in digits: all of it, or what follows its last byte that is none. -/
theorem exists_trailing_digits (s : GoString) :
    (∀ b ∈ s, isDigitByte b = true) ∨
      ∃ front b digits, s = front ++ b :: digits ∧ isDigitByte b = false ∧
        ∀ d ∈ digits, isDigitByte d = true := by
  have hsplit := rdropWhile_append_rtakeWhile (p := isDigitByte) (l := s)
  have hdigits : ∀ d ∈ s.rtakeWhile isDigitByte, isDigitByte d = true := fun d hd =>
    mem_rtakeWhile_imp hd
  by_cases hnil : s.rdropWhile isDigitByte = []
  · rw [hnil, nil_append] at hsplit
    rw [hsplit] at hdigits
    exact .inl hdigits
  · have hlast := rdropWhile_last_not isDigitByte s hnil
    refine .inr ⟨(s.rdropWhile isDigitByte).dropLast, (s.rdropWhile isDigitByte).getLast hnil,
      s.rtakeWhile isDigitByte, ?_, by simpa using hlast, hdigits⟩
    rw [append_cons, dropLast_append_getLast hnil, hsplit]

/-- A loop over runes that stops at the first one that is no digit. -/
theorem foldlM_digits {α : Type} (f : α → Nat → α) (s : GoString) (a : α) :
    (runes s).foldlM (fun a c => if c < 0x30 ∨ 0x39 < c then none else some (f a (c - 0x30))) a =
      if s.all isDigitByte then some (s.foldl (fun a b => f a (b.toNat - 0x30)) a) else none := by
  have hloop : ∀ (rs : List Nat) (a : α),
      rs.foldlM (fun a c => if c < 0x30 ∨ 0x39 < c then none else some (f a (c - 0x30))) a =
        if rs.all fun c => decide (0x30 ≤ c ∧ c ≤ 0x39) then
          some (rs.foldl (fun a c => f a (c - 0x30)) a)
        else none := by
    intro rs
    induction rs with
    | nil => exact fun _ => rfl
    | cons c rs ih =>
      intro a
      rw [foldlM_cons, all_cons, foldl_cons]
      by_cases hc : c < 0x30 ∨ 0x39 < c
      · rw [if_pos hc, decide_eq_false (by omega), Bool.false_and]
        rfl
      · rw [if_neg hc, decide_eq_true (by omega), Bool.true_and, ← ih]
        rfl
  have hdigits : ((runes s).all fun c => decide (0x30 ≤ c ∧ c ≤ 0x39)) = true ↔
      s.all isDigitByte = true := by
    simp only [all_eq_true, decide_eq_true_eq]
    rw [forall_mem_runes_iff fun r hr => by omega]
    simp [isDigitByte, UInt8.le_iff_toNat_le]
  rw [hloop]
  by_cases hall : s.all isDigitByte = true
  · have hascii : ∀ b ∈ s, b < 0x80 := by
      intro b hb
      have hle := (toNat_of_isDigitByte (all_eq_true.1 hall b hb)).2
      exact UInt8.lt_iff_toNat_lt.2 (Nat.lt_of_le_of_lt hle (by decide))
    rw [if_pos (hdigits.2 hall), if_pos hall, runes_ascii hascii, foldl_map]
  · rw [if_neg (mt hdigits.1 hall), if_neg hall]

/-- A digit is added with its weight, and the digits before it with ten times that weight. -/
theorem int64_digit_add (n mul : Int64) (v d : Nat) :
    n + Int64.ofNat d * mul + mul * 10 * Int64.ofNat v = n + mul * Int64.ofNat (10 * v + d) := by
  have hten : Int64.ofNat 10 = 10 := rfl
  rw [Int64.ofNat_add, Int64.ofNat_mul, hten]
  grind

private theorem ofNat_eq_neg_one_iff (v : Nat) : Int64.ofNat v = -1 ↔ v % 2 ^ 64 = 2 ^ 64 - 1 := by
  have hneg : (-1 : Int64).toInt = -1 := by decide
  have hsize : Int64.size = 2 ^ 64 := rfl
  rw [← Int64.toInt_inj, Int64.toInt_ofNat', hneg, hsize, Int.bmod_def]
  split_ifs <;> omega

/-- The result is the number that has the property, and minus one if there is none. -/
def Recognises (r : Int64) (P : Nat → Prop) : Prop :=
  (∀ n : Nat, r.toInt = n ↔ P n) ∧ ((∀ n, ¬ P n) → r = -1)

section Recognises

variable {r : Int64} {P : Nat → Prop}

/-- Where no number is right, only minus one is. -/
theorem recognises_iff_of_forall_not (h : ∀ n, ¬ P n) : Recognises r P ↔ r = -1 := by
  constructor
  · exact fun hrec => hrec.2 h
  · intro hminus
    have hneg : (-1 : Int64).toInt = -1 := by decide
    refine ⟨fun n => iff_of_false ?_ (h n), fun _ => hminus⟩
    rw [hminus, hneg]
    omega

/-- A number that was read in 64 bits is the right one if it fits, and where there is none to read,
if it wraps to minus one. -/
theorem recognises_ofNat_iff {v : Nat} {Q : Prop} (hP : ∀ n, P n ↔ Q ∧ v = n ∧ n < 2 ^ 63) :
    Recognises (Int64.ofNat v) P ↔ Q ∧ v < 2 ^ 63 ∨ v % 2 ^ 64 = 2 ^ 64 - 1 := by
  by_cases hfits : Q ∧ v < 2 ^ 63
  · obtain ⟨hQ, hlt⟩ := hfits
    refine iff_of_true ⟨fun n => ?_, fun hnone => ?_⟩ (.inl ⟨hQ, hlt⟩)
    · rw [hP, and_iff_right hQ, Int64.toInt_ofNat_of_lt hlt]
      omega
    · exact absurd ((hP v).2 ⟨hQ, rfl, hlt⟩) (hnone v)
  · have hnone : ∀ n, ¬ P n := by
      intro n hn
      obtain ⟨hQ, rfl, hlt⟩ := (hP n).1 hn
      exact hfits ⟨hQ, hlt⟩
    rw [recognises_iff_of_forall_not hnone, ofNat_eq_neg_one_iff, or_iff_right hfits]

end Recognises

/-- Go's `<` on strings: bytewise, and a proper beginning first. -/
def less : GoString → GoString → Bool
  | _, [] => false
  | [], _ :: _ => true
  | b :: s, c :: t => b < c || b == c && less s t

/-- Text that two strings begin with does not matter for their order. -/
@[simp]
theorem less_append_left (p s t : GoString) : less (p ++ s) (p ++ t) = less s t := by
  induction p with
  | nil => rfl
  | cons b p ih => simp [less, ih]

/-- Strings of which neither is less are equal. -/
theorem eq_of_not_less {s t : GoString} (hst : less s t = false) (hts : less t s = false) :
    s = t := by
  induction s generalizing t with
  | nil =>
    cases t with
    | nil => rfl
    | cons c t => cases hst
  | cons b s ih =>
    cases t with
    | nil => cases hts
    | cons c t =>
      simp only [less, Bool.or_eq_false_iff, decide_eq_false_iff_not, UInt8.not_lt] at hst hts
      obtain rfl := UInt8.le_antisymm hts.1 hst.1
      rw [ih (by simpa using hst.2) (by simpa using hts.2)]

/-- Strings that begin with parts of the same length. -/
theorem less_append {p q : GoString} (h : p.length = q.length) (s t : GoString) :
    less (p ++ s) (q ++ t) = (less p q || p == q && less s t) := by
  induction p generalizing q with
  | nil =>
    obtain rfl := length_eq_zero_iff.1 h.symm
    simp [less]
  | cons b p ih =>
    obtain ⟨c, q, rfl⟩ := exists_cons_of_length_pos (l := q) (by simp [← h])
    have hlength : p.length = q.length := by simpa using h
    simp only [cons_append, less, ih hlength, cons_beq_cons]
    cases b == c <;> simp [Bool.or_assoc]

private theorem mul_add_lt_iff {a b v w : Nat} (hv : v < n) (hw : w < n) :
    a * n + v < b * n + w ↔ a < b ∨ a = b ∧ v < w := by
  have hlt : ∀ {a b v w : Nat}, v < n → a < b → a * n + v < b * n + w := by
    intro a b v w hv hab
    have hle : (a + 1) * n ≤ b * n := Nat.mul_le_mul_right n hab
    rw [Nat.succ_mul] at hle
    omega
  rcases Nat.lt_trichotomy a b with hab | rfl | hab
  · have := hlt (w := w) hv hab
    omega
  · omega
  · have := hlt (w := v) hw hab
    omega

section Order

variable {s t : GoString} (hs : ∀ b ∈ s, isDigitByte b = true)
  (ht : ∀ b ∈ t, isDigitByte b = true) (hlength : s.length = t.length)

include hs ht hlength

/-- Digits of the same length are in the order of their values. -/
theorem less_iff_digitsValue_lt : less s t = true ↔ digitsValue s < digitsValue t := by
  induction s generalizing t with
  | nil =>
    obtain rfl := length_eq_zero_iff.1 hlength.symm
    simp [less]
  | cons b s ih =>
    obtain ⟨c, t, rfl⟩ := exists_cons_of_length_pos (l := t) (by simp [← hlength])
    have hlength : s.length = t.length := by simpa using hlength
    obtain ⟨hb, hs⟩ := forall_mem_cons.1 hs
    obtain ⟨hc, ht⟩ := forall_mem_cons.1 ht
    have hw := digitsValue_lt ht
    rw [← hlength] at hw
    rw [digitsValue_cons, digitsValue_cons, ← hlength, mul_add_lt_iff (digitsValue_lt hs) hw,
      ← ih hs ht hlength]
    have hb := toNat_of_isDigitByte hb
    have hc := toNat_of_isDigitByte hc
    have hlt : b < c ↔ b.toNat - 0x30 < c.toNat - 0x30 := by
      rw [UInt8.lt_iff_toNat_lt]
      omega
    have heq : b = c ↔ b.toNat - 0x30 = c.toNat - 0x30 := by
      rw [← UInt8.toNat_inj]
      omega
    simp [less, hlt, heq]

/-- Digits of the same length are determined by their value. -/
theorem eq_iff_digitsValue_eq : s = t ↔ digitsValue s = digitsValue t := by
  refine ⟨congrArg _, fun h => ?_⟩
  apply eq_of_not_less
  · rw [Bool.eq_false_iff, Ne, less_iff_digitsValue_lt hs ht hlength]
    omega
  · rw [Bool.eq_false_iff, Ne, less_iff_digitsValue_lt ht hs hlength.symm]
    omega

end Order

/-- Digits after as many zeros as the width takes. -/
def padded (width n : Nat) : GoString :=
  List.replicate (width - (decimalNat n).length) 0x30 ++ decimalNat n

/-- `appendInt` of package `time`; the width does not count the sign. -/
def appendInt (width : Nat) (n : Int) : GoString :=
  if n < 0 then 0x2D :: padded width n.natAbs else padded width n.natAbs

/-- A number that is not negative is padded without a sign. -/
theorem appendInt_natCast (width n : Nat) : appendInt width n = padded width n := by
  rw [appendInt, if_neg (by omega), Int.natAbs_natCast]

/-- Padded numbers consist of digits. -/
theorem isDigitByte_of_mem_padded (h : b ∈ padded width n) : isDigitByte b = true := by
  rcases mem_append.1 h with hzero | hdigit
  · rw [eq_of_mem_replicate hzero]
    rfl
  · exact isDigitByte_of_mem_decimalNat hdigit

/-- Text that starts with a padded number starts with a digit. -/
theorem head?_padded_append_ne (width n : Nat) (s : GoString) (hb : isDigitByte b = false) :
    (padded width n ++ s).head? ≠ some b := by
  have hne : padded width n ≠ [] := by simp [padded, decimalNat_ne_nil]
  obtain ⟨d, rest, hpadded⟩ := exists_cons_of_ne_nil hne
  have hd : isDigitByte d = true :=
    isDigitByte_of_mem_padded (hpadded ▸ mem_cons_self : d ∈ padded width n)
  rw [hpadded, cons_append, head?_cons]
  rintro ⟨⟩
  rw [hb] at hd
  cases hd

/-- Padding keeps the value. -/
theorem digitsValue_padded (width n : Nat) : digitsValue (padded width n) = n := by
  have hzeros : ∀ k, digitsValue (List.replicate k 0x30) = 0 := by
    intro k
    induction k with
    | zero => rfl
    | succ k ih =>
      rw [replicate_succ, digitsValue_cons, ih]
      simp
  rw [padded, digitsValue_append, hzeros, digitsValue_decimalNat, Nat.zero_mul, Nat.zero_add]

/-- A number that fits is as long as its field. -/
theorem length_padded (hwidth : 0 < width) (h : n < 10 ^ width) :
    (padded width n).length = width := by
  have hle : (decimalNat n).length ≤ width := by
    rw [decimalNat, length_map]
    exact (Nat.length_toDigits_le_iff (by decide) hwidth).2 h
  rw [padded, length_append, length_replicate]
  omega

/-- A number that does not fit is longer. -/
theorem lt_length_padded (hwidth : 0 < width) (h : 10 ^ width ≤ n) :
    width < (padded width n).length := by
  have hlt : width < (decimalNat n).length := by
    rw [decimalNat, length_map, ← Nat.not_le, Nat.length_toDigits_le_iff (by decide) hwidth]
    omega
  rw [padded, length_append]
  omega

end Athos.Base
