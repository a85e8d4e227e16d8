import Mathlib.Data.List.Forall2
import Mathlib.Data.List.Infix

/-!
# Go strings

A Go string is an immutable byte sequence that need not be valid UTF-8. Ranging over one decodes
runes, with U+FFFD of width one for every invalid byte. Category tests and case mappings depend on
the Unicode version of the Go toolchain, so they are a parameter that only fixes what every version
guarantees.
-/

namespace Athos.Base

open List

/-- A Go `string` or `[]byte`: arbitrary bytes, not necessarily UTF-8. -/
abbrev GoString := List UInt8

/-- The UTF-8 bytes of a source literal. -/
def lit (s : String) : GoString := s.toByteArray.data.toList

/-- For literals: the quantifier is evaluated over the list, whatever else is known of the type. -/
theorem forall_mem_of_all {α : Type} {p : α → Prop} [DecidablePred p] {l : List α}
    (h : (l.all fun a => decide (p a)) = true) : ∀ a ∈ l, p a := by
  intro a ha
  exact of_decide_eq_true (all_eq_true.1 h a ha)

/-- A sequence of steps succeeds if all of them do. -/
theorem bind_eq_ok {ε α β : Type} {x : Except ε α} {f : α → Except ε β} {b : β} :
    x >>= f = .ok b ↔ ∃ a, x = .ok a ∧ f a = .ok b := by
  cases x with
  | error e => simp [bind, Except.bind]
  | ok a => simp [bind, Except.bind]

/-- A result of a step that succeeds is made from that of the step. -/
theorem map_eq_ok {ε α β : Type} {x : Except ε α} {f : α → β} {b : β} :
    x.map f = .ok b ↔ ∃ a, x = .ok a ∧ f a = b := by
  cases x with
  | error e => simp [Except.map]
  | ok a => simp [Except.map]

section Forall₂

variable {α β : Type} {l : List α} {bs : List β}

/-- All results are there if every step gives one. -/
theorem mapM_eq_some_iff {f : α → Option β} :
    l.mapM f = some bs ↔ Forall₂ (fun a b => f a = some b) l bs := by
  induction l generalizing bs with
  | nil => simp [eq_comm]
  | cons a l ih =>
    rw [mapM_cons, forall₂_cons_left_iff]
    simp [Option.bind_eq_some_iff, ih, eq_comm (a := bs)]

variable {R : α → β → Prop} (h : Forall₂ R l bs)

include h

/-- Every member on the left has a counterpart. -/
theorem exists_of_forall₂_left {a : α} (ha : a ∈ l) : ∃ b ∈ bs, R a b := by
  induction h with
  | nil => cases ha
  | cons hab _ ih =>
    rcases mem_cons.1 ha with rfl | ha
    · exact ⟨_, mem_cons_self, hab⟩
    · obtain ⟨b, hb, hr⟩ := ih ha
      exact ⟨b, mem_cons_of_mem _ hb, hr⟩

/-- Every member on the right is one. -/
theorem exists_of_forall₂_right {b : β} (hb : b ∈ bs) : ∃ a ∈ l, R a b :=
  exists_of_forall₂_left (R := flip R) h.flip hb

end Forall₂

/-- Pieces of which each is as long as its counterpart or longer: none is longer if all of them
together are not. -/
theorem length_flatMap_le {α β γ : Type} {f : α → List β} {g : α → List γ} {P : α → Prop}
    {l : List α} (h : ∀ a ∈ l, (P a ∧ (f a).length = (g a).length) ∨ (g a).length < (f a).length) :
    (l.flatMap g).length ≤ (l.flatMap f).length ∧
      ((l.flatMap f).length ≤ (l.flatMap g).length → ∀ a ∈ l, P a) := by
  induction l with
  | nil => simp
  | cons a l ih =>
    obtain ⟨ha, hl⟩ := forall_mem_cons.1 h
    obtain ⟨hle, hall⟩ := ih hl
    simp only [flatMap_cons, length_append, forall_mem_cons]
    rcases ha with ⟨hp, heq⟩ | hlt
    · exact ⟨by omega, fun h => ⟨hp, hall (by omega)⟩⟩
    · exact ⟨by omega, fun h => absurd h (by omega)⟩

/-! ### Decimal formatting -/

/-- The `%d` verb on a nonnegative value. -/
def decimalNat (n : Nat) : GoString := (Nat.toDigits 10 n).map fun c => UInt8.ofNat c.toNat

/-- The `%d` verb: digits after an optional minus sign. -/
def decimal : Int → GoString
  | .ofNat n => decimalNat n
  | .negSucc n => 0x2D :: decimalNat (n + 1)

/-- ASCII decimal digit bytes. -/
def isDigitByte (b : UInt8) : Bool := 0x30 ≤ b && b ≤ 0x39

/-- `isspace` of C. -/
def isCSpace (b : UInt8) : Bool := b == 0x20 || (0x09 ≤ b && b ≤ 0x0D)

variable {n : Nat}

private theorem digitChar_range {c : Char} (h : c ∈ Nat.toDigits 10 n) :
    48 ≤ c.toNat ∧ c.toNat ≤ 57 := by
  have hd := Nat.isDigit_of_mem_toDigits (by decide) (by decide) h
  simp only [Char.isDigit, Bool.and_eq_true, decide_eq_true_eq, ge_iff_le] at hd
  exact ⟨UInt32.le_iff_toNat_le.1 hd.1, UInt32.le_iff_toNat_le.1 hd.2⟩

/-- Decimal digits are digit bytes. -/
theorem isDigitByte_of_mem_decimalNat {b : UInt8} (h : b ∈ decimalNat n) :
    isDigitByte b = true := by
  obtain ⟨c, hc, rfl⟩ := mem_map.1 h
  have hr := digitChar_range hc
  simp only [isDigitByte, Bool.and_eq_true, decide_eq_true_eq, UInt8.le_iff_toNat_le,
    UInt8.toNat_ofNat', UInt8.reduceToNat]
  omega

/-- A decimal rendering has at least one digit. -/
theorem decimalNat_ne_nil (n : Nat) : decimalNat n ≠ [] := by
  intro h
  exact Nat.toDigits_ne_nil (map_eq_nil_iff.1 h)

/-- Decimal renderings consist of digits and a minus sign. -/
theorem not_mem_decimal {b : UInt8} (hd : isDigitByte b = false) (hm : b ≠ 0x2D) (i : Int) :
    b ∉ decimal i := by
  have hn : ∀ n, b ∉ decimalNat n := fun n h => by
    rw [isDigitByte_of_mem_decimalNat h] at hd
    cases hd
  cases i with
  | ofNat n => exact hn n
  | negSucc n => exact fun h => (mem_cons.1 h).elim hm (hn _)

/-- The digits of a decimal rendering, as characters. -/
theorem digitChar_recover :
    (decimalNat n).map (fun b => Char.ofNat b.toNat) = Nat.toDigits 10 n := by
  rw [decimalNat, map_map]
  conv_rhs => rw [← map_id (Nat.toDigits 10 n)]
  apply map_congr_left
  intro c hc
  have hr := digitChar_range hc
  have hm : (UInt8.ofNat c.toNat).toNat = c.toNat := by
    rw [UInt8.toNat_ofNat']
    omega
  simp only [Function.comp_apply, id_eq, hm, Char.ofNat_toNat]

private theorem decimalNat_injective {m : Nat} (h : decimalNat m = decimalNat n) : m = n := by
  have ht : Nat.toDigits 10 m = Nat.toDigits 10 n := by
    rw [← digitChar_recover, ← digitChar_recover, h]
  rw [← Nat.ofDigitChars_ten_toDigits (n := m), ht, Nat.ofDigitChars_ten_toDigits]

/-- A decimal rendering begins with a digit. -/
theorem head_decimalNat_ne {b : UInt8} (hb : isDigitByte b = false) (n : Nat) :
    (decimalNat n).head? ≠ some b := by
  intro h
  have hd := isDigitByte_of_mem_decimalNat (mem_of_head? h)
  rw [hb] at hd
  cases hd

private theorem decimalNat_head_ne_minus (n : Nat) (t : GoString) : decimalNat n ≠ 0x2D :: t := by
  intro h
  apply head_decimalNat_ne (b := 0x2D) (by decide) n
  rw [h, head?_cons]

/-- Different integers have different decimal renderings. -/
theorem decimal_injective {m n : Int} (h : decimal m = decimal n) : m = n := by
  cases m with
  | ofNat a =>
    cases n with
    | ofNat b => rw [decimalNat_injective h]
    | negSucc b => exact absurd h (decimalNat_head_ne_minus a _)
  | negSucc a =>
    cases n with
    | ofNat b => exact absurd h.symm (decimalNat_head_ne_minus b _)
    | negSucc b =>
      have hs := decimalNat_injective (List.cons.inj h).2
      rw [Nat.succ_injective hs]

/-! ### Replacement -/

/-- `strings.ReplaceAll` for a pattern of one byte. -/
def replaceByte (old : UInt8) (new s : GoString) : GoString :=
  s.flatMap fun b => if b = old then new else [b]

/-- A string without the pattern is unchanged. -/
theorem replaceByte_of_not_mem {old : UInt8} {new s : GoString} (h : old ∉ s) :
    replaceByte old new s = s := by
  induction s with
  | nil => rfl
  | cons b s ih =>
    have hb : b ≠ old := fun he => h (he ▸ mem_cons_self)
    have hs := ih fun hm => h (mem_cons_of_mem b hm)
    rw [replaceByte, flatMap_cons, if_neg hb]
    exact congrArg (b :: ·) hs

/-- Replacement works on the parts of a concatenation. -/
theorem replaceByte_append (old : UInt8) (new s t : GoString) :
    replaceByte old new (s ++ t) = replaceByte old new s ++ replaceByte old new t := by
  rw [replaceByte, flatMap_append]
  rfl

/-- A byte that one byte stands in for is replaced in its place. -/
theorem replaceByte_singleton (old new : UInt8) (s : GoString) :
    replaceByte old [new] s = s.map fun b => if b = old then new else b := by
  rw [replaceByte, map_eq_flatMap]
  congr 1
  funext b
  split_ifs <;> rfl

/-- Doubling a byte keeps the bytes of a text. -/
theorem mem_replaceByte_double {q b : UInt8} {s : GoString} :
    b ∈ replaceByte q [q, q] s ↔ b ∈ s := by
  have hbyte : ∀ c, b ∈ (if c = q then [q, q] else [c]) ↔ b = c := by
    intro c
    split
    · next h => simp [h]
    · simp
  simp only [replaceByte, mem_flatMap, hbyte, exists_eq_right']

/-! ### Doubled bytes -/

section Doubled

variable {α : Type} {a d : α} {s t : List α}

/-- A doubled letter starts at the head or lies in the tail. -/
theorem pair_infix_cons : [d, d] <:+: a :: s ↔ (a = d ∧ s.head? = some d) ∨ [d, d] <:+: s := by
  have hhead : [d, d] <+: a :: s ↔ a = d ∧ s.head? = some d := by
    cases s <;> simp [cons_prefix_cons, eq_comm]
  rw [infix_cons_iff, hhead]

/-- A letter other than `d` separates occurrences of a doubled `d`. -/
theorem pair_infix_append_cons (ha : a ≠ d) :
    [d, d] <:+: s ++ a :: t ↔ [d, d] <:+: s ∨ [d, d] <:+: t := by
  induction s with
  | nil => simp [pair_infix_cons, ha]
  | cons b s ih =>
    rw [cons_append, pair_infix_cons, pair_infix_cons, ih, or_assoc]
    have hh : (s ++ a :: t).head? = some d ↔ s.head? = some d := by
      cases s with
      | nil => simp [ha]
      | cons c s => rfl
    rw [hh]

/-- A part without `d` has no share in a doubled `d`. -/
theorem pair_infix_append_of_not_mem (h : d ∉ s) : [d, d] <:+: s ++ t ↔ [d, d] <:+: t := by
  induction s with
  | nil => rfl
  | cons b s ih =>
    have hb : b ≠ d := fun he => h (he ▸ mem_cons_self)
    rw [cons_append, pair_infix_cons, ih fun hm => h (mem_cons_of_mem b hm)]
    exact or_iff_right fun hc => hb hc.1

/-- A doubled letter has a first occurrence. -/
theorem exists_first_pair (h : [d, d] <:+: s) :
    ∃ u v, s = u ++ d :: d :: v ∧ ¬ [d, d] <:+: u ++ [d] := by
  induction s with
  | nil => simp at h
  | cons b s ih =>
    by_cases hb : b = d ∧ s.head? = some d
    · obtain ⟨rfl, hs⟩ := hb
      cases s with
      | nil => cases hs
      | cons c s =>
        rw [head?_cons, Option.some.injEq] at hs
        subst hs
        exact ⟨[], s, rfl, by simp [pair_infix_cons]⟩
    · obtain ⟨u, v, rfl, hn⟩ := ih ((pair_infix_cons.1 h).resolve_left hb)
      refine ⟨b :: u, v, rfl, ?_⟩
      rw [cons_append, pair_infix_cons]
      rintro (⟨rfl, hu⟩ | hu)
      · apply hb
        cases u with
        | nil => exact ⟨rfl, rfl⟩
        | cons c u => exact ⟨rfl, hu⟩
      · exact hn hu

end Doubled

/-- Doubling another byte neither makes nor breaks a doubled byte. -/
theorem pair_infix_replaceByte {q d : UInt8} (hq : q ≠ d) (s : GoString) :
    [d, d] <:+: replaceByte q [q, q] s ↔ [d, d] <:+: s := by
  induction s with
  | nil => rfl
  | cons b s ih =>
    have hr : replaceByte q [q, q] (b :: s) =
        (if b = q then [q, q] else [b]) ++ replaceByte q [q, q] s := rfl
    rw [hr, pair_infix_cons (a := b)]
    split
    · next h =>
      subst h
      simp [pair_infix_cons, hq, ih]
    · have hh : (replaceByte q [q, q] s).head? = some d ↔ s.head? = some d := by
        cases s with
        | nil => rfl
        | cons c s =>
          have hc : replaceByte q [q, q] (c :: s) =
              (if c = q then [q, q] else [c]) ++ replaceByte q [q, q] s := rfl
          rw [hc]
          split
          · next h => simp [h]
          · rfl
      rw [singleton_append, pair_infix_cons, ih, hh]

/-! ### UTF-8 -/

/-- `utf8.RuneError`, the rune read for every invalid byte. -/
def runeError : Nat := 0xFFFD

private def isCont (b : UInt8) : Bool := 0x80 ≤ b && b ≤ 0xBF

-- The four tables of `unicode/utf8`: accepted second bytes exclude overlong forms,
-- surrogates and code points above U+10FFFF.
private def isPair (b₀ b₁ : UInt8) : Bool := 0xC2 ≤ b₀ && b₀ ≤ 0xDF && isCont b₁

private def isTriple (b₀ b₁ b₂ : UInt8) : Bool :=
  0xE0 ≤ b₀ && b₀ ≤ 0xEF && isCont b₁ && isCont b₂ &&
    (b₀ != 0xE0 || 0xA0 ≤ b₁) && (b₀ != 0xED || b₁ ≤ 0x9F)

private def isQuad (b₀ b₁ b₂ b₃ : UInt8) : Bool :=
  0xF0 ≤ b₀ && b₀ ≤ 0xF4 && isCont b₁ && isCont b₂ && isCont b₃ &&
    (b₀ != 0xF0 || 0x90 ≤ b₁) && (b₀ != 0xF4 || b₁ ≤ 0x8F)

private def low6 (b : UInt8) : Nat := b.toNat % 64

/-- `utf8.DecodeRuneInString`: the first rune and its width, `(U+FFFD, 1)` where the
encoding is invalid and `(U+FFFD, 0)` on the empty string. -/
def decodeRune : GoString → Nat × Nat
  | [] => (runeError, 0)
  | b₀ :: r₀ =>
    if b₀ < 0x80 then (b₀.toNat, 1)
    else match r₀ with
      | [] => (runeError, 1)
      | b₁ :: r₁ =>
        if isPair b₀ b₁ then (b₀.toNat % 32 * 64 + low6 b₁, 2)
        else match r₁ with
          | [] => (runeError, 1)
          | b₂ :: r₂ =>
            if isTriple b₀ b₁ b₂ then (b₀.toNat % 16 * 4096 + low6 b₁ * 64 + low6 b₂, 3)
            else match r₂ with
              | [] => (runeError, 1)
              | b₃ :: _ =>
                if isQuad b₀ b₁ b₂ b₃ then
                  (b₀.toNat % 8 * 262144 + low6 b₁ * 4096 + low6 b₂ * 64 + low6 b₃, 4)
                else (runeError, 1)

-- The counter is the number of bytes that belong to the rune already delivered.
private def decodeFrom : Nat → GoString → List (Nat × GoString)
  | _, [] => []
  | n + 1, _ :: s => decodeFrom n s
  | 0, b :: s =>
    ((decodeRune (b :: s)).1, (b :: s).take (decodeRune (b :: s)).2) ::
      decodeFrom ((decodeRune (b :: s)).2 - 1) s

/-- Ranging over a Go string: each rune with the bytes it was read from. -/
def decode (s : GoString) : List (Nat × GoString) := decodeFrom 0 s

/-- The runes of a string in order. -/
def runes (s : GoString) : List Nat := (decode s).map Prod.fst

/-- `utf8.AppendRune`: the bytes of one rune, with U+FFFD for an invalid one. -/
def encodeRune (r : Nat) : GoString :=
  if r < 0x80 then [UInt8.ofNat r]
  else if r < 0x800 then [UInt8.ofNat (0xC0 + r / 64), UInt8.ofNat (0x80 + r % 64)]
  else if 0x10FFFF < r ∨ (0xD800 ≤ r ∧ r ≤ 0xDFFF) then [0xEF, 0xBF, 0xBD]
  else if r < 0x10000 then
    [UInt8.ofNat (0xE0 + r / 4096), UInt8.ofNat (0x80 + r / 64 % 64), UInt8.ofNat (0x80 + r % 64)]
  else
    [UInt8.ofNat (0xF0 + r / 262144), UInt8.ofNat (0x80 + r / 4096 % 64),
      UInt8.ofNat (0x80 + r / 64 % 64), UInt8.ofNat (0x80 + r % 64)]

section Decoding

variable {s : GoString} {b : UInt8} {p : Nat × GoString}

private theorem decodeRune_ascii (hb : b < 0x80) (s : GoString) :
    decodeRune (b :: s) = (b.toNat, 1) := by
  simp only [decodeRune, hb, ↓reduceIte]

private theorem high_of_isCont (h : isCont b = true) : ¬ b < 0x80 := by
  simp only [isCont, Bool.and_eq_true, decide_eq_true_eq] at h
  exact UInt8.not_lt.2 h.1

variable {b₀ b₁ b₂ c b₃ : UInt8}

private theorem high_of_isTriple (h : isTriple b₀ b₁ b₂ = true) : ∀ c ∈ [b₁, b₂], ¬ c < 0x80 := by
  simp only [isTriple, Bool.and_eq_true] at h
  exact forall_mem_cons.2 ⟨high_of_isCont h.1.1.1.2,
    forall_mem_singleton.2 (high_of_isCont h.1.1.2)⟩

private theorem high_of_isQuad (h : isQuad b₀ b₁ b₂ b₃ = true) :
    ∀ c ∈ [b₁, b₂, b₃], ¬ c < 0x80 := by
  simp only [isQuad, Bool.and_eq_true] at h
  exact forall_mem_cons.2 ⟨high_of_isCont h.1.1.1.1.2, forall_mem_cons.2
    ⟨high_of_isCont h.1.1.1.2, forall_mem_singleton.2 (high_of_isCont h.1.1.2)⟩⟩

-- The tables leave out the long forms of ASCII characters.
private theorem high_pair (h : isPair b₀ b₁ = true) : 0x80 ≤ b₀.toNat % 32 * 64 + low6 b₁ := by
  simp only [isPair, Bool.and_eq_true, decide_eq_true_eq, UInt8.le_iff_toNat_le,
    UInt8.reduceToNat] at h
  omega

private theorem high_triple (h : isTriple b₀ b₁ b₂ = true) :
    0x80 ≤ b₀.toNat % 16 * 4096 + low6 b₁ * 64 + low6 b₂ := by
  simp only [isTriple, isCont, Bool.and_eq_true, Bool.or_eq_true, decide_eq_true_eq, bne_iff_ne,
    ne_eq, UInt8.le_iff_toNat_le, ← UInt8.toNat_inj, UInt8.reduceToNat] at h
  unfold low6
  omega

private theorem high_quad (h : isQuad b₀ b₁ b₂ b₃ = true) :
    0x80 ≤ b₀.toNat % 8 * 262144 + low6 b₁ * 4096 + low6 b₂ * 64 + low6 b₃ := by
  simp only [isQuad, isCont, Bool.and_eq_true, Bool.or_eq_true, decide_eq_true_eq, bne_iff_ne,
    ne_eq, UInt8.le_iff_toNat_le, ← UInt8.toNat_inj, UInt8.reduceToNat] at h
  unfold low6
  omega

private theorem decodeRune_cases (b : UInt8) (s : GoString) :
    (b < 0x80 ∧ decodeRune (b :: s) = (b.toNat, 1)) ∨
    (¬ b < 0x80 ∧ ∃ rest t r, s = rest ++ t ∧ rest.length ≤ 3 ∧ (∀ c ∈ rest, ¬ c < 0x80) ∧
      0x80 ≤ r ∧ decodeRune (b :: s) = (r, rest.length + 1)) := by
  by_cases h₀ : b < 0x80
  · exact .inl ⟨h₀, decodeRune_ascii h₀ s⟩
  refine .inr ⟨h₀, ?_⟩
  have hinvalid : ∀ s, decodeRune (b :: s) = (runeError, 1) →
      ∃ rest t r, s = rest ++ t ∧ rest.length ≤ 3 ∧ (∀ c ∈ rest, ¬ c < 0x80) ∧ 0x80 ≤ r ∧
        decodeRune (b :: s) = (r, rest.length + 1) :=
    fun s h => ⟨[], s, runeError, rfl, by decide, forall_mem_nil _, by decide, h⟩
  rcases s with _ | ⟨b₁, s⟩
  · exact hinvalid _ (by simp [decodeRune, h₀])
  by_cases h₁ : isPair b b₁ = true
  · refine ⟨[b₁], s, _, rfl, by simp, ?_, high_pair h₁, by simp [decodeRune, h₀, h₁]⟩
    exact forall_mem_singleton.2 (high_of_isCont (Bool.and_eq_true_iff.1 h₁).2)
  rcases s with _ | ⟨b₂, s⟩
  · exact hinvalid _ (by simp [decodeRune, h₀, h₁])
  by_cases h₂ : isTriple b b₁ b₂ = true
  · exact ⟨[b₁, b₂], s, _, rfl, by simp, high_of_isTriple h₂, high_triple h₂,
      by simp [decodeRune, h₀, h₁, h₂]⟩
  rcases s with _ | ⟨b₃, s⟩
  · exact hinvalid _ (by simp [decodeRune, h₀, h₁, h₂])
  by_cases h₃ : isQuad b b₁ b₂ b₃ = true
  · exact ⟨[b₁, b₂, b₃], s, _, rfl, by simp, high_of_isQuad h₃, high_quad h₃,
      by simp [decodeRune, h₀, h₁, h₂, h₃]⟩
  · exact hinvalid _ (by simp [decodeRune, h₀, h₁, h₂, h₃])

-- Every byte a rune takes after its first one is above ASCII.
private theorem high_of_mem_width {b : UInt8} (hc : c ∈ s.take ((decodeRune (b :: s)).2 - 1)) :
    ¬ c < 0x80 := by
  rcases decodeRune_cases b s with ⟨-, h⟩ | ⟨-, rest, t, r, rfl, -, hrest, -, h⟩
  · rw [h] at hc
    cases hc
  · rw [h, Nat.add_sub_cancel, take_left] at hc
    exact hrest c hc

private theorem ascii_mem_decodeFrom (n : Nat) (s : GoString)
    (hskip : ∀ c ∈ s.take n, ¬ c < 0x80) (hm : b ∈ s) (hb : b < 0x80) :
    b.toNat ∈ (decodeFrom n s).map Prod.fst := by
  induction s generalizing n with
  | nil => cases hm
  | cons a s ih =>
    cases n with
    | succ n =>
      rcases mem_cons.1 hm with rfl | hm
      · exact absurd hb (hskip b (by simp))
      · exact ih n (fun c hc => hskip c (by simp [hc])) hm
    | zero =>
      rw [decodeFrom, map_cons]
      rcases mem_cons.1 hm with rfl | hm
      · rw [decodeRune_ascii hb]
        exact mem_cons_self
      · exact mem_cons_of_mem _ (ih _ (fun c hc => high_of_mem_width hc) hm)

/-- Every ASCII byte of a string is one of its runes, also in invalid UTF-8. -/
theorem ascii_mem_runes (hm : b ∈ s) (hb : b < 0x80) : b.toNat ∈ runes s :=
  ascii_mem_decodeFrom 0 s (by simp) hm hb

/-- An ASCII string is decoded byte by byte. -/
theorem decode_ascii (h : ∀ b ∈ s, b < 0x80) : decode s = s.map fun b => (b.toNat, [b]) := by
  induction s with
  | nil => rfl
  | cons b s ih =>
    have hb := h b mem_cons_self
    have hs := ih fun c hc => h c (mem_cons_of_mem b hc)
    simp only [decode, decodeFrom, decodeRune_ascii hb, map_cons] at hs ⊢
    rw [hs]
    rfl

-- A byte below 0x80 continues no rune, so what is before it is decoded without it.
private theorem decodeRune_append {x : GoString} (hx : x ≠ []) (hb : b < 0x80)
    (t : GoString) : decodeRune (x ++ b :: t) = decodeRune x := by
  have hcont : isCont b = false := Bool.eq_false_iff.2 fun h => high_of_isCont h hb
  rcases x with _ | ⟨b₀, _ | ⟨b₁, _ | ⟨b₂, _ | ⟨b₃, r⟩⟩⟩⟩
  · exact absurd rfl hx
  · rcases t with _ | ⟨t₀, _ | ⟨t₁, t⟩⟩ <;>
      simp [decodeRune, isPair, isTriple, isQuad, hcont]
  · rcases t with _ | ⟨t₀, t⟩ <;> simp [decodeRune, isTriple, isQuad, hcont]
  · simp [decodeRune, isQuad, hcont]
  · rfl

private theorem decodeRune_width (b : UInt8) (s : GoString) :
    1 ≤ (decodeRune (b :: s)).2 ∧ (decodeRune (b :: s)).2 ≤ s.length + 1 := by
  rcases decodeRune_cases b s with ⟨-, h⟩ | ⟨-, rest, t, r, rfl, -, -, -, h⟩
  · simp [h]
  · simp [h]

private theorem decodeFrom_append (hb : b < 0x80) (t : GoString) {n : Nat} (hn : n ≤ s.length) :
    decodeFrom n (s ++ b :: t) = decodeFrom n s ++ decodeFrom 0 (b :: t) := by
  induction s generalizing n with
  | nil =>
    obtain rfl := Nat.le_zero.1 hn
    rfl
  | cons a s ih =>
    cases n with
    | succ n => exact ih (Nat.le_of_succ_le_succ hn)
    | zero =>
      have hrune : decodeRune (a :: (s ++ b :: t)) = decodeRune (a :: s) :=
        decodeRune_append (cons_ne_nil a s) hb t
      have hwidth := (decodeRune_width a s).2
      have htake : (a :: (s ++ b :: t)).take (decodeRune (a :: s)).2 =
          (a :: s).take (decodeRune (a :: s)).2 := by
        rw [← cons_append, take_append_of_le_length hwidth]
      rw [cons_append, decodeFrom, decodeFrom, hrune, htake, ih (by omega), cons_append]

/-- Decoding goes on anew at every ASCII byte. -/
theorem decode_append_cons (hb : b < 0x80) (s t : GoString) :
    decode (s ++ b :: t) = decode s ++ decode (b :: t) := decodeFrom_append hb t (Nat.zero_le _)

/-- An ASCII byte is a rune of its own. -/
theorem decode_cons_ascii (hb : b < 0x80) (s : GoString) :
    decode (b :: s) = (b.toNat, [b]) :: decode s := by
  rw [decode, decodeFrom, decodeRune_ascii hb]
  rfl

private theorem flatMap_decodeFrom (n : Nat) (s : GoString) :
    (decodeFrom n s).flatMap Prod.snd = s.drop n := by
  induction s generalizing n with
  | nil => simp [decodeFrom]
  | cons b s ih =>
    cases n with
    | succ n => exact ih n
    | zero =>
      have hwidth := (decodeRune_width b s).1
      rw [decodeFrom, flatMap_cons, ih, drop_zero]
      obtain ⟨w, hw⟩ := Nat.exists_eq_add_of_le' hwidth
      rw [hw, take_succ_cons, Nat.add_sub_cancel, cons_append, take_append_drop]

/-- The bytes of the runes are the string. -/
theorem flatMap_decode (s : GoString) : (decode s).flatMap Prod.snd = s := flatMap_decodeFrom 0 s

/-- A string that is not empty has a rune. -/
theorem decode_ne_nil (h : s ≠ []) : decode s ≠ [] := by
  intro hnil
  have hbytes := flatMap_decode s
  rw [hnil] at hbytes
  exact h hbytes.symm

/-- The runes of an ASCII string are its bytes. -/
theorem runes_ascii (h : ∀ b ∈ s, b < 0x80) : runes s = s.map UInt8.toNat := by
  rw [runes, decode_ascii h, map_map]
  rfl

private theorem decodeRune_high (hb : ¬ b < 0x80) (s : GoString) :
    0x80 ≤ (decodeRune (b :: s)).1 := by
  rcases decodeRune_cases b s with ⟨h, -⟩ | ⟨-, rest, t, r, -, -, -, hr, h⟩
  · exact absurd h hb
  · rw [h]
    exact hr

/-- A string is ASCII if its runes are. -/
theorem ascii_of_runes_lt (h : ∀ r ∈ runes s, r < 0x80) : ∀ b ∈ s, b < 0x80 := by
  induction s with
  | nil => simp
  | cons b s ih =>
    have hb : b < 0x80 := by
      by_contra hhigh
      have hfirst := h (decodeRune (b :: s)).1 (by rw [runes, decode, decodeFrom]; simp)
      exact absurd hfirst (Nat.not_lt.2 (decodeRune_high hhigh s))
    rw [runes, decode_cons_ascii hb, map_cons] at h
    exact forall_mem_cons.2 ⟨hb, ih fun r hr => h r (mem_cons_of_mem _ hr)⟩

/-- A loop over the runes that only ASCII characters pass is one over the bytes. -/
theorem forall_mem_runes_iff {P : Nat → Prop} (hP : ∀ r, P r → r < 0x80) :
    (∀ r ∈ runes s, P r) ↔ ∀ b ∈ s, P b.toNat := by
  constructor
  · intro h
    have hascii := ascii_of_runes_lt fun r hr => hP r (h r hr)
    rw [runes_ascii hascii] at h
    exact fun b hb => h b.toNat (mem_map_of_mem hb)
  · intro h
    have hascii : ∀ b ∈ s, b < 0x80 := fun b hb => UInt8.lt_iff_toNat_lt.2 (hP _ (h b hb))
    rw [runes_ascii hascii]
    intro r hr
    obtain ⟨b, hb, rfl⟩ := mem_map.1 hr
    exact h b hb

/-! ### Unicode tables -/

/-- ASCII letters as code points. -/
def isAsciiLetter (r : Nat) : Bool := (0x41 ≤ r && r ≤ 0x5A) || (0x61 ≤ r && r ≤ 0x7A)

/-- ASCII upper-casing of a code point. -/
def asciiUpperRune (r : Nat) : Nat := if 0x61 ≤ r ∧ r ≤ 0x7A then r - 0x20 else r

/-- The tables of packages `unicode` and `strconv`. Beyond ASCII they vary with the Unicode
version; the two letters outside ASCII whose upper case is ASCII are the same in every
version, and U+FFFD is neither a letter nor a digit. -/
structure RuneTables where
  isLetter : Nat → Bool
  isDigit : Nat → Bool
  isPrint : Nat → Bool
  toUpper : Nat → Nat
  isLetter_ascii : ∀ r, r < 0x80 → isLetter r = isAsciiLetter r
  isDigit_ascii : ∀ r, r < 0x80 → isDigit r = decide (0x30 ≤ r ∧ r ≤ 0x39)
  isPrint_ascii : ∀ r, r < 0x80 → isPrint r = decide (0x20 ≤ r ∧ r ≤ 0x7E)
  toUpper_ascii : ∀ r, r < 0x80 → toUpper r = asciiUpperRune r
  isLetter_runeError : isLetter runeError = false
  isDigit_runeError : isDigit runeError = false
  toUpper_longS : toUpper 0x17F = 0x53
  toUpper_dotlessI : toUpper 0x131 = 0x49

/-- The tables restricted to ASCII and the two letters that case-map into it. -/
def RuneTables.basic : RuneTables where
  isLetter r := isAsciiLetter r || r == 0x17F || r == 0x131
  isDigit r := decide (0x30 ≤ r ∧ r ≤ 0x39)
  isPrint r := decide (0x20 ≤ r ∧ r ≤ 0x7E)
  toUpper r := if r = 0x17F then 0x53 else if r = 0x131 then 0x49 else asciiUpperRune r
  isLetter_ascii r h := by
    have h₁ : (r == 0x17F) = false := beq_eq_false_iff_ne.2 (by omega)
    have h₂ : (r == 0x131) = false := beq_eq_false_iff_ne.2 (by omega)
    rw [h₁, h₂, Bool.or_false, Bool.or_false]
  isDigit_ascii _ _ := rfl
  isPrint_ascii _ _ := rfl
  toUpper_ascii r h := by
    rw [if_neg (by omega), if_neg (by omega)]
  isLetter_runeError := rfl
  isDigit_runeError := rfl
  toUpper_longS := rfl
  toUpper_dotlessI := rfl

/-- `strings.ToUpper`: every rune mapped and re-encoded. -/
def toUpper (T : RuneTables) (s : GoString) : GoString :=
  (runes s).flatMap fun r => encodeRune (T.toUpper r)

/-- ASCII upper-casing of a byte. -/
def asciiUpper (b : UInt8) : UInt8 := if 0x61 ≤ b ∧ b ≤ 0x7A then b - 0x20 else b

/-- ASCII lower-casing of a byte. -/
def asciiLower (b : UInt8) : UInt8 := if 0x41 ≤ b ∧ b ≤ 0x5A then b + 0x20 else b

private theorem encodeRune_of_ascii {f : Nat → Nat} {g : UInt8 → UInt8}
    (h : ∀ n : Fin 128, encodeRune (f n.val) = [g (UInt8.ofNat n.val)])
    (hb : b < 0x80) : encodeRune (f b.toNat) = [g b] := by
  have hn : b.toNat < 128 := UInt8.lt_iff_toNat_lt.1 hb
  simpa using h ⟨b.toNat, hn⟩

private theorem encodeRune_asciiUpperRune (hb : b < 0x80) :
    encodeRune (asciiUpperRune b.toNat) = [asciiUpper b] := encodeRune_of_ascii (by decide) hb

/-- Upper-casing keeps a trace of every ASCII byte. -/
theorem asciiUpper_mem_toUpper (T : RuneTables) (hm : b ∈ s)
    (hb : b < 0x80) : asciiUpper b ∈ toUpper T s := by
  apply mem_flatMap.2
  refine ⟨b.toNat, ascii_mem_runes hm hb, ?_⟩
  rw [T.toUpper_ascii _ (UInt8.lt_iff_toNat_lt.1 hb), encodeRune_asciiUpperRune hb]
  exact mem_singleton_self _

private theorem flatMap_runes_of_ascii {f : Nat → GoString} {g : UInt8 → UInt8}
    (hf : ∀ b : UInt8, b < 0x80 → f b.toNat = [g b]) (h : ∀ b ∈ s, b < 0x80) :
    (runes s).flatMap f = s.map g := by
  rw [runes_ascii h, flatMap_map]
  induction s with
  | nil => rfl
  | cons b s ih =>
    rw [flatMap_cons, map_cons, hf b (h b mem_cons_self), ih fun c hc => h c (mem_cons_of_mem b hc)]
    rfl

/-- On ASCII strings every table gives bytewise upper-casing. -/
theorem toUpper_of_ascii (T : RuneTables) (h : ∀ b ∈ s, b < 0x80) :
    toUpper T s = s.map asciiUpper := by
  refine flatMap_runes_of_ascii (fun b hb => ?_) h
  rw [T.toUpper_ascii _ (UInt8.lt_iff_toNat_lt.1 hb), encodeRune_asciiUpperRune hb]

/-! ### Lower case -/

/-- ASCII lower-casing of a code point. -/
def asciiLowerRune (r : Nat) : Nat := if 0x41 ≤ r ∧ r ≤ 0x5A then r + 0x20 else r

/-- The lower case of package `unicode`. Beyond ASCII it varies with the Unicode version. -/
structure LowerTable where
  toLower : Nat → Nat
  toLower_ascii : ∀ r, r < 0x80 → toLower r = asciiLowerRune r

/-- The table restricted to ASCII and the two letters outside it that lower-case into it. -/
def LowerTable.basic : LowerTable where
  toLower r := if r = 0x130 then 0x69 else if r = 0x212A then 0x6B else asciiLowerRune r
  toLower_ascii r h := by
    rw [if_neg (by omega), if_neg (by omega)]

/-- `strings.ToLower`: every rune mapped and re-encoded. -/
def toLower (L : LowerTable) (s : GoString) : GoString :=
  (runes s).flatMap fun r => encodeRune (L.toLower r)

private theorem encodeRune_asciiLowerRune (hb : b < 0x80) :
    encodeRune (asciiLowerRune b.toNat) = [asciiLower b] := encodeRune_of_ascii (by decide) hb

/-- On ASCII strings every table gives bytewise lower-casing. -/
theorem toLower_of_ascii (L : LowerTable) (h : ∀ b ∈ s, b < 0x80) :
    toLower L s = s.map asciiLower := by
  refine flatMap_runes_of_ascii (fun b hb => ?_) h
  rw [L.toLower_ascii _ (UInt8.lt_iff_toNat_lt.1 hb), encodeRune_asciiLowerRune hb]

/-- `unicode.IsLower`. Beyond ASCII it varies with the Unicode version. -/
structure LowerCategory where
  isLower : Nat → Bool
  isLower_ascii : ∀ r, r < 0x80 → isLower r = decide (0x61 ≤ r ∧ r ≤ 0x7A)

/-- The category restricted to ASCII. -/
def LowerCategory.basic : LowerCategory where
  isLower r := decide (0x61 ≤ r ∧ r ≤ 0x7A)
  isLower_ascii _ _ := rfl

/-! ### Quoted strings -/

private def hexDigit (n : Nat) : UInt8 := UInt8.ofNat (if n < 10 then 0x30 + n else 0x57 + n)

private def hexDigits : Nat → Nat → GoString
  | 0, _ => []
  | width + 1, n => hexDigits width (n / 16) ++ [hexDigit (n % 16)]

/-- `strconv.appendEscapedRune` for a double-quoted string. -/
def escapeRune (T : RuneTables) (r : Nat) (bytes : GoString) : GoString :=
  if r = 0x22 ∨ r = 0x5C then 0x5C :: bytes
  else if T.isPrint r then bytes
  else if r = 0x07 then lit "\\a"
  else if r = 0x08 then lit "\\b"
  else if r = 0x0C then lit "\\f"
  else if r = 0x0A then lit "\\n"
  else if r = 0x0D then lit "\\r"
  else if r = 0x09 then lit "\\t"
  else if r = 0x0B then lit "\\v"
  else if r < 0x20 ∨ r = 0x7F then lit "\\x" ++ hexDigits 2 r
  else if r < 0x10000 then lit "\\u" ++ hexDigits 4 r
  else lit "\\U" ++ hexDigits 8 r

/-- The `%q` verb on a string, `strconv.Quote`; an invalid byte is written in hexadecimal. -/
def goQuote (T : RuneTables) (s : GoString) : GoString :=
  0x22 :: ((decode s).flatMap fun p =>
    if p.1 = runeError ∧ p.2.length = 1 then
      lit "\\x" ++ hexDigits 2 ((p.2.headD 0).toNat)
    else escapeRune T p.1 p.2) ++ [0x22]

/-- `%q` writes the string as it is: no quote, no backslash, nothing that does not print, and
no invalid byte. -/
def Verbatim (T : RuneTables) (s : GoString) : Prop :=
  ∀ p ∈ decode s, p.1 ≠ 0x22 ∧ p.1 ≠ 0x5C ∧ T.isPrint p.1 = true ∧
    ¬ (p.1 = runeError ∧ p.2.length = 1)

instance (T : RuneTables) (s : GoString) : Decidable (Verbatim T s) :=
  inferInstanceAs (Decidable (∀ p ∈ _, _))

private theorem length_hexDigits (width n : Nat) : (hexDigits width n).length = width := by
  induction width generalizing n with
  | zero => rfl
  | succ width ih => rw [hexDigits, length_append, ih]; rfl

-- Each rune is read from the first bytes of what is left.
private theorem exists_of_mem_decodeFrom {n : Nat} (h : p ∈ decodeFrom n s) :
    ∃ b t, p = ((decodeRune (b :: t)).1, (b :: t).take (decodeRune (b :: t)).2) := by
  induction s generalizing n with
  | nil => cases n <;> cases h
  | cons b s ih =>
    cases n with
    | succ n => exact ih h
    | zero =>
      rw [decodeFrom] at h
      rcases mem_cons.1 h with rfl | h
      · exact ⟨b, s, rfl⟩
      · exact ih h

private theorem length_of_mem_decode (h : p ∈ decode s) :
    p.2.length ≤ 4 ∧ (p.1 < 0x80 → p.2.length ≤ 1) := by
  obtain ⟨b, t, rfl⟩ := exists_of_mem_decodeFrom h
  rcases decodeRune_cases b t with ⟨-, h⟩ | ⟨-, rest, u, r, rfl, hrest, -, hr, h⟩
  · simp [h]
  · rw [h, take_succ_cons, take_left, length_cons]
    exact ⟨by omega, fun hlow => absurd hr (Nat.not_le.2 hlow)⟩

/-- A rune takes at least one byte. -/
theorem ne_nil_of_mem_decode (h : p ∈ decode s) : p.2 ≠ [] := by
  obtain ⟨b, t, rfl⟩ := exists_of_mem_decodeFrom h
  obtain ⟨w, hw⟩ := Nat.exists_eq_add_of_le' (decodeRune_width b t).1
  simp [hw]

private theorem eq_of_mem_decode (h : p ∈ decode s)
    (hb : b ∈ p.2) (hlow : b < 0x80) : p = (b.toNat, [b]) := by
  obtain ⟨b₀, t, rfl⟩ := exists_of_mem_decodeFrom h
  rcases decodeRune_cases b₀ t with ⟨-, h₀⟩ | ⟨h₀, rest, u, r, rfl, -, hrest, -, hr⟩
  · rw [h₀] at hb ⊢
    rw [mem_singleton.1 hb]
    rfl
  · rw [hr, take_succ_cons, take_left] at hb
    rcases mem_cons.1 hb with rfl | hb
    · exact absurd hlow h₀
    · exact absurd hlow (hrest b hb)

private theorem eq_of_mem_decode_of_lt (h : p ∈ decode s)
    (hlow : p.1 < 0x80) : ∃ b : UInt8, p = (b.toNat, [b]) := by
  obtain ⟨b, t, rfl⟩ := exists_of_mem_decodeFrom h
  rcases decodeRune_cases b t with ⟨-, h⟩ | ⟨-, rest, u, r, -, -, -, hr, h⟩
  · refine ⟨b, ?_⟩
    rw [h]
    rfl
  · rw [h] at hlow
    exact absurd hr (Nat.not_le.2 hlow)

private theorem escapeRune_cases (T : RuneTables) (r : Nat) (bytes : GoString) :
    ((r = 0x22 ∨ r = 0x5C) ∧ escapeRune T r bytes = 0x5C :: bytes) ∨
    (r ≠ 0x22 ∧ r ≠ 0x5C ∧ T.isPrint r = true ∧ escapeRune T r bytes = bytes) ∨
    (T.isPrint r ≠ true ∧ ∃ c width, isAsciiLetter c.toNat = true ∧ (r < 0x80 ∨ 4 ≤ width) ∧
      escapeRune T r bytes = 0x5C :: c :: hexDigits width r) := by
  rw [escapeRune]
  by_cases hq : r = 0x22 ∨ r = 0x5C
  · exact .inl ⟨hq, if_pos hq⟩
  rw [if_neg hq]
  by_cases hp : T.isPrint r = true
  · exact .inr (.inl ⟨fun h => hq (.inl h), fun h => hq (.inr h), hp, if_pos hp⟩)
  rw [if_neg hp]
  refine .inr (.inr ⟨hp, ?_⟩)
  split
  · exact ⟨0x61, 0, by decide, .inl (by omega), rfl⟩
  split
  · exact ⟨0x62, 0, by decide, .inl (by omega), rfl⟩
  split
  · exact ⟨0x66, 0, by decide, .inl (by omega), rfl⟩
  split
  · exact ⟨0x6E, 0, by decide, .inl (by omega), rfl⟩
  split
  · exact ⟨0x72, 0, by decide, .inl (by omega), rfl⟩
  split
  · exact ⟨0x74, 0, by decide, .inl (by omega), rfl⟩
  split
  · exact ⟨0x76, 0, by decide, .inl (by omega), rfl⟩
  split
  · exact ⟨0x78, 2, by decide, .inl (by omega), rfl⟩
  split
  · exact ⟨0x75, 4, by decide, .inr (by decide), rfl⟩
  · exact ⟨0x55, 8, by decide, .inr (by decide), rfl⟩

/-- What `%q` writes for one rune. -/
private def quotePiece (T : RuneTables) (p : Nat × GoString) : GoString :=
  if p.1 = runeError ∧ p.2.length = 1 then lit "\\x" ++ hexDigits 2 ((p.2.headD 0).toNat)
  else escapeRune T p.1 p.2

/-- What `%q` writes between the quotes. -/
def quoteBody (T : RuneTables) (s : GoString) : GoString := (decode s).flatMap (quotePiece T)

/-- A quoted string is its body between double quotes. -/
theorem goQuote_eq (T : RuneTables) (s : GoString) :
    goQuote T s = 0x22 :: (quoteBody T s ++ [0x22]) := rfl

/-- ASCII characters that print, other than the two that quoting escapes. -/
theorem verbatim_of_ascii {T : RuneTables}
    (h : ∀ b ∈ s, 0x20 ≤ b ∧ b ≤ 0x7E ∧ b ≠ 0x22 ∧ b ≠ 0x5C) : Verbatim T s := by
  have hascii : ∀ b ∈ s, b < 0x80 := fun b hb =>
    UInt8.lt_of_le_of_lt (h b hb).2.1 (by decide)
  intro p hp
  rw [decode_ascii hascii] at hp
  obtain ⟨b, hb, rfl⟩ := mem_map.1 hp
  obtain ⟨hlow, hhigh, hquote, hslash⟩ := h b hb
  have hlt : b.toNat < 0x80 := UInt8.lt_iff_toNat_lt.1 (hascii b hb)
  refine ⟨fun heq => hquote (UInt8.toNat_inj.1 heq), fun heq => hslash (UInt8.toNat_inj.1 heq),
    ?_, fun herror => ?_⟩
  · rw [T.isPrint_ascii _ hlt, decide_eq_true_eq]
    exact ⟨UInt8.le_iff_toNat_le.1 hlow, UInt8.le_iff_toNat_le.1 hhigh⟩
  · have hrune : b.toNat = runeError := herror.1
    rw [hrune] at hlt
    exact absurd hlt (by decide)

/-- A string without anything to escape is its own body. -/
theorem quoteBody_of_verbatim {T : RuneTables} (h : Verbatim T s) : quoteBody T s = s := by
  have hpieces : quoteBody T s = (decode s).flatMap Prod.snd := by
    apply flatMap_congr
    intro p hp
    obtain ⟨hq, hb, hprint, he⟩ := h p hp
    rw [quotePiece, if_neg he, escapeRune, if_neg (by simp [hq, hb]), if_pos hprint]
  rw [hpieces, flatMap_decode]

private theorem hexDigits_alphanumeric (width n : Nat) :
    ∀ d ∈ hexDigits width n, (isAsciiLetter d.toNat || isDigitByte d) = true := by
  have hdigit : ∀ n < 16,
      (isAsciiLetter (hexDigit n).toNat || isDigitByte (hexDigit n)) = true := by
    decide
  induction width generalizing n with
  | zero => exact forall_mem_nil _
  | succ width ih =>
    rw [hexDigits, forall_mem_append, forall_mem_singleton]
    exact ⟨ih _, hdigit _ (Nat.mod_lt n (by decide))⟩

/-- A rune that `%q` writes as it is, but for a backslash before a quote or a backslash. -/
def Prints (T : RuneTables) (p : Nat × GoString) : Prop :=
  T.isPrint p.1 = true ∧ ¬ (p.1 = runeError ∧ p.2.length = 1)

instance (T : RuneTables) (p : Nat × GoString) : Decidable (Prints T p) :=
  inferInstanceAs (Decidable (_ ∧ _))

/-- What `%q` writes for a rune: its bytes, a backslash before them, or a backslash with letters
and digits that take more bytes. -/
inductive QuotedRune (T : RuneTables) (p : Nat × GoString) : GoString → Prop
  | verbatim (h : Prints T p) (hquote : 0x22 ∉ p.2) (hslash : 0x5C ∉ p.2) : QuotedRune T p p.2
  | escaped (b : UInt8) (hb : b = 0x22 ∨ b = 0x5C) (hp : p = (b.toNat, [b])) :
    QuotedRune T p [0x5C, b]
  | coded (c : UInt8) (digits : GoString) (h : ¬ Prints T p)
    (hdigits : ∀ d ∈ c :: digits, (isAsciiLetter d.toNat || isDigitByte d) = true)
    (hlength : p.2.length < digits.length + 2) : QuotedRune T p (0x5C :: c :: digits)

private theorem quotedRune_quotePiece (T : RuneTables)
    (h : p ∈ decode s) : QuotedRune T p (quotePiece T p) := by
  obtain ⟨hfour, hone⟩ := length_of_mem_decode h
  have hbyte : ∀ b : UInt8, b < 0x80 → b ∈ p.2 → p.1 = b.toNat := fun b hlow hb =>
    congrArg Prod.fst (eq_of_mem_decode h hb hlow)
  rw [quotePiece]
  split
  · next hinvalid =>
    refine .coded 0x78 _ (fun hprints => hprints.2 hinvalid) ?_ ?_
    · exact forall_mem_cons.2 ⟨by decide, hexDigits_alphanumeric 2 _⟩
    · rw [hinvalid.2]
      exact Nat.le_add_left 2 _
  · next hvalid =>
    rcases escapeRune_cases T p.1 p.2 with ⟨hr, heq⟩ | ⟨hq, hs, hprint, heq⟩ |
      ⟨hprint, c, width, hc, hwidth, heq⟩
    · obtain ⟨b, rfl⟩ := eq_of_mem_decode_of_lt h (by omega)
      rw [heq]
      refine .escaped b ?_ rfl
      exact hr.imp UInt8.toNat_inj.1 UInt8.toNat_inj.1
    · rw [heq]
      exact .verbatim ⟨hprint, hvalid⟩ (fun hm => hq (hbyte _ (by decide) hm))
        (fun hm => hs (hbyte _ (by decide) hm))
    · rw [heq]
      refine .coded c _ (fun hprints => hprint hprints.1) ?_ ?_
      · exact forall_mem_cons.2 ⟨Bool.or_eq_true_iff.2 (.inl hc),
          hexDigits_alphanumeric width _⟩
      · rw [length_hexDigits]
        rcases hwidth with hlow | hwidth
        · have hlength := hone hlow
          omega
        · omega

/-- What `%q` writes between the quotes, rune by rune. -/
theorem exists_quoteBody (T : RuneTables) (s : GoString) :
    ∃ f, quoteBody T s = (decode s).flatMap f ∧ ∀ p ∈ decode s, QuotedRune T p (f p) :=
  ⟨quotePiece T, rfl, fun _ => quotedRune_quotePiece T⟩

private theorem length_quotePiece (T : RuneTables) (h : p ∈ decode s) :
    ((p.1 ≠ 0x22 ∧ p.1 ≠ 0x5C ∧ T.isPrint p.1 = true ∧ ¬ (p.1 = runeError ∧ p.2.length = 1)) ∧
        (quotePiece T p).length = p.2.length) ∨
      p.2.length < (quotePiece T p).length := by
  have hpiece := quotedRune_quotePiece T h
  generalize quotePiece T p = piece at hpiece
  cases hpiece with
  | verbatim hprints hquote hslash =>
    have hrune : ∀ b : UInt8, b < 0x80 → b ∉ p.2 → p.1 ≠ b.toNat := by
      intro b hb hmem heq
      obtain ⟨c, rfl⟩ := eq_of_mem_decode_of_lt h (by rw [heq]; exact UInt8.lt_iff_toNat_lt.1 hb)
      exact hmem (mem_singleton.2 (UInt8.toNat_inj.1 heq.symm))
    exact .inl ⟨⟨hrune 0x22 (by decide) hquote, hrune 0x5C (by decide) hslash, hprints⟩, rfl⟩
  | escaped b hb hp =>
    rw [hp]
    exact .inr (Nat.lt_succ_self 1)
  | coded c digits _ _ hlength => exact .inr hlength

/-- Quoting does not shorten a string, and keeps its length only if it writes it as it is. -/
theorem length_quoteBody (T : RuneTables) (s : GoString) :
    s.length ≤ (quoteBody T s).length ∧ ((quoteBody T s).length ≤ s.length → Verbatim T s) := by
  have h := length_flatMap_le fun p hp => length_quotePiece T (s := s) (p := p) hp
  rw [flatMap_decode] at h
  exact h

-- Only the quote itself is written with a quote.
private theorem count_quotePiece (T : RuneTables)
    (h : p ∈ decode s) : (quotePiece T p).count 0x22 = p.2.count 0x22 := by
  by_cases hmem : 0x22 ∈ p.2
  · rw [eq_of_mem_decode h hmem (by decide)]
    rfl
  · rw [count_eq_zero_of_not_mem hmem]
    apply count_eq_zero_of_not_mem
    have hpiece := quotedRune_quotePiece T h
    generalize quotePiece T p = piece at hpiece
    cases hpiece with
    | verbatim => exact hmem
    | escaped b hb hp =>
      rw [hp] at hmem
      simpa using hmem
    | coded c digits _ hdigits _ =>
      intro hquote
      rcases mem_cons.1 hquote with hslash | hdigit
      · cases hslash
      · exact absurd (hdigits _ hdigit) (by decide)

/-- Quoting neither adds nor drops a quote. -/
theorem count_quoteBody (T : RuneTables) (s : GoString) :
    (quoteBody T s).count 0x22 = s.count 0x22 := by
  have hpieces : (decode s).map (List.count 0x22 ∘ quotePiece T) =
      (decode s).map (List.count 0x22 ∘ Prod.snd) :=
    map_congr_left fun p hp => count_quotePiece T hp
  rw [quoteBody, count_flatMap, hpieces, ← count_flatMap, flatMap_decode]

end Decoding

end Athos.Base
