import Athos.Kube.DnsNames

/-!
# The check of DNS labels

`IsDNSLabel` and what it uses of `src/internal/validation/validation.go`. The check goes over the
runes of a string and tells the last one by its offset.
-/

namespace Athos.Validation

open Base Kube List

/-- `isLowerAlnum`; `validation.go:156-158`. -/
def isLowerAlnum (r : Nat) : Bool := (0x61 ≤ r && r ≤ 0x7A) || (0x30 ≤ r && r ≤ 0x39)

/-- The loop of `IsDNSLabel` from an offset on, over the runes that are left with their bytes;
`validation.go:140-152`. -/
def labelLoop (length : Nat) : Nat → List (Nat × GoString) → Bool
  | _, [] => true
  | i, (r, bytes) :: rest =>
    if i = 0 ∨ i = length - 1 then
      if !isLowerAlnum r then false else labelLoop length (i + bytes.length) rest
    else if !isLowerAlnum r && r != 0x2D then false
    else labelLoop length (i + bytes.length) rest

/-- `IsDNSLabel`; `validation.go:134-154`. -/
def isDNSLabel (s : GoString) : Bool :=
  if s = [] ∨ 63 < s.length then false else labelLoop s.length 0 (decode s)

section

variable {length i : Nat} {s : GoString}

private theorem isLowerAlnum_toNat (b : UInt8) : isLowerAlnum b.toNat = Kube.isLowerAlnum b := by
  simp [isLowerAlnum, Kube.isLowerAlnum, isLower, isDigitByte, UInt8.le_iff_toNat_le]

private theorem labelLoop_cons {r : Nat} {bytes : GoString} {rest : List (Nat × GoString)} :
    labelLoop length i ((r, bytes) :: rest) = true ↔
      (isLowerAlnum r = true ∨ r = 0x2D ∧ ¬ (i = 0 ∨ i = length - 1)) ∧
        labelLoop length (i + bytes.length) rest = true := by
  rw [labelLoop]
  by_cases hend : i = 0 ∨ i = length - 1
  · simp [hend]
  · by_cases hr : isLowerAlnum r = true
    · simp [hend, hr]
    · simp [hend, hr]

private theorem rune_of_labelLoop {ps : List (Nat × GoString)} (h : labelLoop length i ps = true) :
    ∀ p ∈ ps, isLowerAlnum p.1 = true ∨ p.1 = 0x2D := by
  induction ps generalizing i with
  | nil => exact forall_mem_nil _
  | cons p ps ih =>
    obtain ⟨hp, hps⟩ := labelLoop_cons.1 h
    exact forall_mem_cons.2 ⟨hp.imp_right And.left, ih hps⟩

private theorem lt_of_isLowerAlnum {r : Nat} (h : isLowerAlnum r = true) : r < 0x80 := by
  simp only [isLowerAlnum, Bool.or_eq_true, Bool.and_eq_true, decide_eq_true_eq] at h
  omega

private theorem ascii_of_labelLoop (h : labelLoop length i (decode s) = true) :
    ∀ b ∈ s, b < 0x80 := by
  apply ascii_of_runes_lt
  intro r hr
  obtain ⟨p, hp, rfl⟩ := mem_map.1 hr
  rcases rune_of_labelLoop h p hp with halnum | hdash
  · exact lt_of_isLowerAlnum halnum
  · omega

private theorem labelLoop_map (hlength : i + s.length = length) :
    labelLoop length i (s.map fun b => (b.toNat, [b])) = true ↔
      (∀ b ∈ s, Kube.isLowerAlnum b = true ∨ b = 0x2D) ∧
        (i = 0 → s.head?.all Kube.isLowerAlnum = true) ∧
        s.getLast?.all Kube.isLowerAlnum = true := by
  induction s generalizing i with
  | nil => simp [labelLoop]
  | cons b s ih =>
    rw [length_cons] at hlength
    have hdash : b.toNat = 0x2D ↔ b = 0x2D := by rw [← UInt8.toNat_inj]; rfl
    rw [map_cons, labelLoop_cons, isLowerAlnum_toNat, hdash,
      ih (by rw [length_singleton]; omega), forall_mem_cons]
    cases s with
    | nil =>
      have hend : i = 0 ∨ i = length - 1 := .inr (by rw [length_nil] at hlength; omega)
      constructor
      · rintro ⟨hb | ⟨-, hnot⟩, -⟩
        · exact ⟨⟨.inl hb, forall_mem_nil _⟩, fun _ => hb, hb⟩
        · exact absurd hend hnot
      · rintro ⟨-, -, hb⟩
        exact ⟨.inl hb, forall_mem_nil _, fun _ => rfl, rfl⟩
    | cons c s =>
      have hinner : i ≠ length - 1 := by
        rw [length_cons] at hlength
        omega
      rw [getLast?_cons_cons]
      constructor
      · rintro ⟨hb, hchars, -, hlast⟩
        refine ⟨⟨hb.imp_right And.left, hchars⟩, fun hi => ?_, hlast⟩
        exact hb.resolve_right fun h => h.2 (.inl hi)
      · rintro ⟨⟨hb, hchars⟩, hfirst, hlast⟩
        refine ⟨?_, hchars, fun hi => absurd hi (Nat.succ_ne_zero i), hlast⟩
        by_cases hi : i = 0
        · exact .inl (hfirst hi)
        · exact hb.imp_right fun hdash => ⟨hdash, not_or.2 ⟨hi, hinner⟩⟩

private theorem labelLoop_iff (hnil : s ≠ []) :
    labelLoop s.length 0 (decode s) = true ↔ IsDnsWord s := by
  have hends : ∀ o : Option UInt8, o ≠ none →
      o.all Kube.isLowerAlnum = o.any Kube.isLowerAlnum := by
    intro o ho
    obtain ⟨b, rfl⟩ := Option.ne_none_iff_exists'.1 ho
    rfl
  have hloop : (∀ b ∈ s, b < 0x80) → (labelLoop s.length 0 (decode s) = true ↔ IsDnsWord s) := by
    intro hascii
    rw [decode_ascii hascii, labelLoop_map (Nat.zero_add _), hends _ (by simpa using hnil),
      hends _ (by simpa using hnil)]
    exact ⟨fun h => ⟨h.2.1 rfl, h.2.2, h.1⟩, fun h => ⟨h.chars, fun _ => h.first, h.last⟩⟩
  constructor
  · exact fun h => (hloop (ascii_of_labelLoop h)).1 h
  · exact fun h => (hloop h.ascii).2 h

end

/-- `IsDNSLabel` accepts exactly the labels of DNS-1123: 1 to 63 lowercase letters, digits and
dashes, the first and the last of which are no dashes. -/
theorem isDNSLabel_iff (s : GoString) : isDNSLabel s = true ↔ IsDns1123Label s := by
  rw [isDNSLabel]
  by_cases hbad : s = [] ∨ 63 < s.length
  · rw [if_pos hbad]
    refine iff_of_false Bool.false_ne_true fun h => ?_
    rcases hbad with hnil | hlong
    · exact h.word.ne_nil hnil
    · exact Nat.not_lt.2 h.length hlong
  · rw [if_neg hbad]
    obtain ⟨hnil, hlength⟩ := not_or.1 hbad
    rw [labelLoop_iff hnil]
    exact ⟨fun h => ⟨h, Nat.not_lt.1 hlength⟩, IsDns1123Label.word⟩

end Athos.Validation
