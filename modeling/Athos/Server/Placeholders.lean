import Athos.Base.GoString

/-!
# Placeholders of server commands

How PostgreSQL completes `archive_command` and `restore_command` before the shell reads them: a
percent sign and a letter stand for a name, and two percent signs for one. From version 16 on any
other percent sign is an error; before, it stays as it is. The buffer of bounded size in which the
servers before version 16 put a command together, and which cuts a longer one, is not modelled.
-/

namespace Athos.Server.Placeholders

open Base List Option

/-- The names that letters stand for. -/
abbrev Names := List (UInt8 × GoString)

/-- The letters that stand for a name. -/
def letters (names : Names) : List UInt8 := names.map Prod.fst

/-- What a percent sign and a byte stand for. -/
def placeholder (strict : Bool) (names : Names) (c : UInt8) : Option GoString :=
  if c = 0x25 then some [0x25]
  else match names.lookup c with
    | some name => some name
    | none => if strict then none else some [0x25, c]

/-- Put the names in. -/
def substitute (strict : Bool) (names : Names) : GoString → Option GoString
  | [] => some []
  | [0x25] => if strict then none else some [0x25]
  | 0x25 :: c :: s =>
    (placeholder strict names c).bind fun r => (substitute strict names s).map (r ++ ·)
  | b :: s => (substitute strict names s).map (b :: ·)

/-- Nothing in the text is read as a placeholder, or refused. -/
def Untouched (strict : Bool) (ls : List UInt8) (s : GoString) : Prop :=
  if strict then 0x25 ∉ s else ∀ c ∈ 0x25 :: ls, ¬ [0x25, c] <:+: s

instance (strict : Bool) (ls : List UInt8) (s : GoString) :
    Decidable (Untouched strict ls s) :=
  inferInstanceAs (Decidable (if strict then _ else _))

section

variable {strict : Bool} {names : Names} {ls : List UInt8} {s t : GoString} {b : UInt8}

private theorem substitute_cons (hb : b ≠ 0x25) (s : GoString) :
    substitute strict names (b :: s) = (substitute strict names s).map (b :: ·) := by
  rw [substitute] <;> grind

private theorem substitute_pair (c : UInt8) (s : GoString) :
    substitute strict names (0x25 :: c :: s) =
      (placeholder strict names c).bind fun r => (substitute strict names s).map (r ++ ·) := by
  rw [substitute]

/-- A text without percent signs stays as it is. -/
theorem substitute_fixed {fixed : GoString} (h : 0x25 ∉ fixed) (s : GoString) :
    substitute strict names (fixed ++ s) = (substitute strict names s).map (fixed ++ ·) := by
  induction fixed with
  | nil => simp
  | cons b fixed ih =>
    rw [mem_cons, not_or] at h
    rw [cons_append, substitute_cons (Ne.symm h.1), ih h.2, Option.map_map]
    rfl

/-- Texts are read byte by byte, but for a percent sign and the byte after it. -/
theorem pieces_induction {P : GoString → Prop} (nil : P []) (last : P [0x25])
    (pair : ∀ c s, P s → P (0x25 :: c :: s)) (byte : ∀ b s, b ≠ 0x25 → P s → P (b :: s))
    (s : GoString) : P s := by
  induction hlen : s.length using Nat.strong_induction_on generalizing s with
  | _ n ih =>
    match s with
    | [] => exact nil
    | b :: s =>
      by_cases hb : b = 0x25
      · subst hb
        cases s with
        | nil => exact last
        | cons c s => exact pair c s (ih s.length (by simp at hlen; omega) s rfl)
      · exact byte b s hb (ih s.length (by simp at hlen; omega) s rfl)

/-- A text is completed up to a byte that is no percent sign, and from there on. -/
theorem substitute_append (hb : b ≠ 0x25) (s t : GoString) :
    substitute strict names (s ++ b :: t) =
      (substitute strict names (s ++ [b])).bind fun a =>
        (substitute strict names t).map (a ++ ·) := by
  induction s using pieces_induction with
  | nil =>
    rw [nil_append, nil_append, substitute_cons hb, substitute_cons hb]
    simp [substitute]
  | last =>
    simp only [cons_append, nil_append, substitute_pair]
    cases placeholder strict names b <;> simp [substitute]
  | pair c s ih =>
    simp only [cons_append, substitute_pair, ih]
    cases placeholder strict names c <;>
      cases substitute strict names (s ++ [b]) <;>
      cases substitute strict names t <;> simp
  | byte c s hc ih =>
    simp only [cons_append, substitute_cons hc, ih]
    cases substitute strict names (s ++ [b]) <;>
      cases substitute strict names t <;> simp

/-- Bytes other than a percent sign do not matter. -/
theorem untouched_cons (hb : b ≠ 0x25) : Untouched strict ls (b :: s) ↔ Untouched strict ls s := by
  unfold Untouched
  split_ifs
  · simp [hb.symm]
  · simp [infix_cons_iff, hb.symm]

variable {c : UInt8}

/-- A percent sign counts together with the byte after it. -/
theorem untouched_pair :
    Untouched strict ls (0x25 :: c :: s) ↔
      strict = false ∧ c ∉ 0x25 :: ls ∧ Untouched strict ls s := by
  cases strict with
  | true => simp [Untouched]
  | false =>
    simp only [Untouched, Bool.false_eq_true, ↓reduceIte, true_and]
    constructor
    · intro h
      refine ⟨fun hc => h c hc (prefix_append [0x25, c] s).isInfix, ?_⟩
      intro d hd hin
      exact h d hd ((hin.trans (suffix_cons c s).isInfix).trans
        (suffix_cons 0x25 (c :: s)).isInfix)
    · rintro ⟨hc, h⟩ d hd hin
      rw [mem_cons, not_or] at hc
      rcases infix_cons_iff.1 hin with hhead | htail
      · obtain rfl : d = c := by simpa using hhead
        exact absurd hd (by simpa using hc)
      · rcases infix_cons_iff.1 htail with hhead | htail
        · exact hc.1 (cons_prefix_cons.1 hhead).1.symm
        · exact h d hd htail

private theorem lookup_eq_none_iff : names.lookup c = none ↔ c ∉ letters names := by
  rw [letters, List.lookup_eq_none_iff]
  simp only [List.mem_map, not_exists, not_and, bne_iff_ne]
  exact forall₂_congr fun p _ => ne_comm

private theorem placeholder_of_not_mem (hc : c ∉ 0x25 :: letters names) :
    placeholder strict names c = if strict then none else some [0x25, c] := by
  rw [mem_cons, not_or] at hc
  rw [placeholder, if_neg hc.1, lookup_eq_none_iff.2 hc.2]

private theorem count_placeholder (hnames : ∀ n ∈ names, 0x25 ∉ n.2) {r : GoString}
    (hc : c ∈ 0x25 :: letters names) (h : placeholder strict names c = some r) :
    r.count 0x25 < 1 + [c].count 0x25 := by
  rw [placeholder] at h
  by_cases hpercent : c = 0x25
  · rw [if_pos hpercent] at h
    obtain rfl := some.inj h
    subst hpercent
    decide
  · rw [if_neg hpercent] at h
    have hmem : c ∈ letters names := (mem_cons.1 hc).resolve_left hpercent
    cases hname : names.lookup c with
    | none => exact absurd hmem (lookup_eq_none_iff.1 hname)
    | some name =>
      rw [hname] at h
      obtain rfl := some.inj h
      obtain ⟨before, after, rfl, -⟩ := lookup_eq_some_iff.1 hname
      have hnone := hnames (c, name) (by simp)
      rw [count_eq_zero.2 hnone]
      omega

variable {b : UInt8}

/-- A text without placeholders stays as it is. -/
theorem substitute_of_untouched (hb : b ∉ 0x25 :: letters names)
    (h : Untouched strict (letters names) s) :
    substitute strict names (s ++ [b]) = some (s ++ [b]) := by
  have hne : b ≠ 0x25 := fun he => hb (he ▸ mem_cons_self)
  induction s using pieces_induction with
  | nil =>
    rw [nil_append, substitute_cons hne]
    rfl
  | last =>
    cases strict with
    | true => exact absurd h (by simp [Untouched])
    | false =>
      simp only [cons_append, nil_append, substitute_pair, placeholder_of_not_mem hb]
      rfl
  | pair c s ih =>
    obtain ⟨rfl, hc, hs⟩ := untouched_pair.1 h
    rw [cons_append, cons_append, substitute_pair, placeholder_of_not_mem hc, ih hs]
    rfl
  | byte c s hc ih =>
    rw [cons_append, substitute_cons hc, ih ((untouched_cons hc).1 h)]
    rfl

/-- Every placeholder takes a percent sign away. -/
theorem count_substitute (hnames : ∀ n ∈ names, 0x25 ∉ n.2) (hb : b ∉ 0x25 :: letters names)
    (h : substitute strict names (s ++ [b]) = some t) :
    t.count 0x25 ≤ s.count 0x25 ∧
      (¬ Untouched strict (letters names) s → t.count 0x25 < s.count 0x25) := by
  have hne : b ≠ 0x25 := fun he => hb (he ▸ mem_cons_self)
  induction s using pieces_induction generalizing t with
  | nil =>
    rw [nil_append, substitute_cons hne] at h
    obtain rfl := some.inj h
    refine ⟨?_, fun hnot => absurd ?_ hnot⟩
    · simp [hne]
    · simp [Untouched]
  | last =>
    rw [singleton_append, substitute_pair, placeholder_of_not_mem hb] at h
    cases strict with
    | true => cases h
    | false =>
      obtain rfl := some.inj h
      refine ⟨?_, fun hnot => absurd ?_ hnot⟩
      · simp [hne]
      · simp [Untouched, infix_cons_iff]
  | pair c s ih =>
    rw [cons_append, cons_append, substitute_pair] at h
    obtain ⟨r, hr, hrest⟩ := bind_eq_some_iff.1 h
    obtain ⟨u, hu, rfl⟩ := map_eq_some_iff.1 hrest
    obtain ⟨hle, hlt⟩ := ih hu
    rw [count_append, count_cons_self]
    by_cases hc : c ∈ 0x25 :: letters names
    · -- A placeholder: its percent sign is gone.
      have hfewer := count_placeholder hnames hc hr
      have hcount : (c :: s).count 0x25 = [c].count 0x25 + s.count 0x25 := by
        rw [← singleton_append, count_append]
      omega
    · rw [placeholder_of_not_mem hc] at hr
      cases strict with
      | true => cases hr
      | false =>
        obtain rfl := some.inj hr
        have hother : c ≠ 0x25 := fun he => hc (he ▸ mem_cons_self)
        rw [untouched_pair, count_cons_self, count_cons_of_ne hother,
          count_cons_of_ne hother, count_nil]
        refine ⟨by omega, fun hnot => ?_⟩
        have := hlt fun hs => hnot ⟨rfl, hc, hs⟩
        omega
  | byte c s hc ih =>
    rw [cons_append, substitute_cons hc] at h
    obtain ⟨u, hu, rfl⟩ := map_eq_some_iff.1 h
    rw [untouched_cons hc, count_cons_of_ne hc, count_cons_of_ne hc]
    exact ih hu

end

end Athos.Server.Placeholders
