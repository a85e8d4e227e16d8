import Athos.Base.Strings
import Athos.Base.Url

/-!
# Hexadecimal numbers

The verb `%0nX` of package `fmt`, and how `Sscanf` reads such a field: blanks before it are skipped,
a newline among them is an error, then at most `n` digits are read, of which there has to be one.
Input is taken as runes.
-/

namespace Athos.Base

open List

/-- The value of a hexadecimal digit. -/
def hexDigitValue (r : Nat) : Option Nat :=
  if 0x30 ≤ r ∧ r ≤ 0x39 then some (r - 0x30)
  else if 0x41 ≤ r ∧ r ≤ 0x46 then some (r - 0x37)
  else if 0x61 ≤ r ∧ r ≤ 0x66 then some (r - 0x57)
  else none

/-- Hexadecimal digits of either case. -/
def isHexDigit (r : Nat) : Bool := (hexDigitValue r).isSome

/-- The number that digits denote. -/
def hexNumber (ds : List Nat) : Nat := ds.foldl (fun v d => 16 * v + (hexDigitValue d).getD 0) 0

/-- The verb `%0nX` on a value of at most so many digits. -/
def paddedHex : Nat → Nat → GoString
  | 0, _ => []
  | width + 1, n => paddedHex width (n / 16) ++ [upperHex (n % 16)]

/-- What `Sscanf` can object to in a field. -/
inductive ScanError where
  | newline
  | endOfInput
  | noDigit
  deriving DecidableEq

/-- White space that `Sscanf` skips before a field. -/
def isBlank (r : Nat) : Bool := isSpace r && r != 0x0A

/-- `SkipSpace` of a scan that does not take newlines for space. -/
def skipSpace (rs : List Nat) : Except ScanError (List Nat) :=
  if (rs.dropWhile isBlank).head? = some 0x0A then .error .newline
  else .ok (rs.dropWhile isBlank)

/-- One field `%0nX` of `Sscanf`: its value and the input after it. -/
def scanHex (width : Nat) (rs : List Nat) : Except ScanError (Nat × List Nat) := do
  let rs ← skipSpace rs
  match rs with
  | [] => .error .endOfInput
  | r :: _ =>
    if isHexDigit r then
      let ds := (rs.take width).takeWhile isHexDigit
      .ok (hexNumber ds, rs.drop ds.length)
    else .error .noDigit

private theorem hexNumber_append_singleton (ds : List Nat) (d : Nat) :
    hexNumber (ds ++ [d]) = 16 * hexNumber ds + (hexDigitValue d).getD 0 := by
  rw [hexNumber, foldl_append]
  rfl

/-- A padded number is as long as its field. -/
theorem length_paddedHex (width n : Nat) : (paddedHex width n).length = width := by
  induction width generalizing n with
  | zero => rfl
  | succ width ih => rw [paddedHex, length_append, ih]; rfl

private theorem hexDigitValue_upperHex : ∀ n < 16,
    hexDigitValue (upperHex n).toNat = some n := by decide

variable {width n r v : Nat} {b : UInt8} {ds rs rest : List Nat}

/-- Padded numbers consist of hexadecimal digits. -/
theorem isHexDigit_of_mem_paddedHex (h : b ∈ paddedHex width n) : isHexDigit b.toNat = true := by
  induction width generalizing n with
  | zero => cases h
  | succ width ih =>
    rcases mem_append.1 h with h | h
    · exact ih h
    · rw [mem_singleton.1 h, isHexDigit, hexDigitValue_upperHex _ (Nat.mod_lt n (by decide))]
      rfl

/-- A written number is read back. -/
theorem hexNumber_paddedHex (h : n < 16 ^ width) :
    hexNumber ((paddedHex width n).map UInt8.toNat) = n := by
  induction width generalizing n with
  | zero =>
    have hn : n = 0 := by simpa using h
    rw [hn]
    rfl
  | succ width ih =>
    have hdiv : n / 16 < 16 ^ width := by
      rw [Nat.pow_succ] at h
      omega
    rw [paddedHex, map_append, map_singleton, hexNumber_append_singleton, ih hdiv,
      hexDigitValue_upperHex _ (Nat.mod_lt n (by decide))]
    exact Nat.div_add_mod n 16

private theorem hexDigitValue_lt (h : hexDigitValue r = some v) : v < 16 := by
  unfold hexDigitValue at h
  split_ifs at h <;> cases h <;> omega

private theorem upperHex_hexDigitValue (h : isHexDigit b.toNat = true) :
    upperHex ((hexDigitValue b.toNat).getD 0) = asciiUpper b := by
  have hall : ∀ n < 256, isHexDigit n = true →
      upperHex ((hexDigitValue n).getD 0) = asciiUpper (UInt8.ofNat n) := by decide +kernel
  have hb := hall b.toNat b.toNat_lt h
  rwa [UInt8.ofNat_toNat] at hb

/-- Digits bound the number they are read as. -/
theorem hexNumber_lt (h : ∀ d ∈ ds, isHexDigit d = true) : hexNumber ds < 16 ^ ds.length := by
  induction ds using List.reverseRecOn with
  | nil => decide
  | append_singleton ds d ih =>
    have hds := ih fun e he => h e (mem_append_left _ he)
    obtain ⟨v, hv⟩ := Option.isSome_iff_exists.1 (h d (by simp))
    have hlt := hexDigitValue_lt hv
    rw [hexNumber_append_singleton, hv, Option.getD_some, length_append, length_singleton,
      Nat.pow_succ]
    omega

/-- Writing a number that was read gives its digits in upper case. -/
theorem paddedHex_hexNumber {s : GoString} (h : ∀ b ∈ s, isHexDigit b.toNat = true) :
    paddedHex s.length (hexNumber (s.map UInt8.toNat)) = s.map asciiUpper := by
  induction s using List.reverseRecOn with
  | nil => rfl
  | append_singleton s b ih =>
    have hs := ih fun c hc => h c (mem_append_left _ hc)
    have hb := h b (by simp)
    obtain ⟨v, hv⟩ := Option.isSome_iff_exists.1 hb
    have hlt := hexDigitValue_lt hv
    have hupper := upperHex_hexDigitValue hb
    rw [hv, Option.getD_some] at hupper
    rw [map_append, map_singleton, hexNumber_append_singleton, hv, Option.getD_some, length_append,
      length_singleton, paddedHex, map_append, map_singleton, ← hupper]
    have hdiv : (16 * hexNumber (s.map UInt8.toNat) + v) / 16 = hexNumber (s.map UInt8.toNat) := by
      omega
    have hmod : (16 * hexNumber (s.map UInt8.toNat) + v) % 16 = v := by omega
    rw [hdiv, hmod, hs]

/-- A field at the beginning of the input: blanks, then digits that end with the width or
before something else. -/
structure HexField (width : Nat) (rs blanks ds rest : List Nat) : Prop where
  split : rs = blanks ++ (ds ++ rest)
  blanks : ∀ r ∈ blanks, isBlank r = true
  digits : ∀ d ∈ ds, isHexDigit d = true
  nonempty : ds ≠ []
  length : ds.length ≤ width
  ends : ds.length = width ∨ rest.head?.all (!isHexDigit ·) = true

/-- Hexadecimal digits are ASCII. -/
theorem le_of_isHexDigit (h : isHexDigit r = true) : r ≤ 0x66 := by
  by_contra hc
  rw [isHexDigit, hexDigitValue, if_neg (by omega), if_neg (by omega), if_neg (by omega)] at h
  cases h

/-- Digits are ASCII. -/
theorem lt_of_isHexDigit (h : isHexDigit b.toNat = true) : b < 0x80 :=
  UInt8.lt_iff_toNat_lt.2 (Nat.lt_of_le_of_lt (le_of_isHexDigit h) (by decide))

private theorem not_isBlank_of_isHexDigit (h : isHexDigit r = true) :
    isBlank r = false ∧ r ≠ 0x0A := by
  have hr := le_of_isHexDigit h
  have hall : ∀ r ≤ 0x66, isHexDigit r = true → isBlank r = false ∧ r ≠ 0x0A := by decide
  exact hall r hr h

section

variable {α : Type} {p : α → Bool}

-- A run cut at a length ends there, or before something else.
private theorem takeWhile_take_ends (n : Nat) (l : List α) :
    ((l.take n).takeWhile p).length = n ∨
      (l.drop ((l.take n).takeWhile p).length).head?.all (!p ·) = true := by
  induction l generalizing n with
  | nil => exact .inr (by simp)
  | cons a l ih =>
    cases n with
    | zero => exact .inl rfl
    | succ n =>
      cases ha : p a with
      | true => simpa [take_succ_cons, ha] using ih n
      | false => exact .inr (by simp [take_succ_cons, ha])

private theorem takeWhile_take_append {n : Nat} {l rest : List α} (h : ∀ a ∈ l, p a = true)
    (hlength : l.length ≤ n) (hends : l.length = n ∨ rest.head?.all (!p ·) = true) :
    ((l ++ rest).take n).takeWhile p = l := by
  induction l generalizing n with
  | nil =>
    rcases hends with rfl | hrest
    · rfl
    · cases n with
      | zero => rfl
      | succ n =>
        cases rest with
        | nil => rfl
        | cons a rest =>
          have ha : p a = false := by simpa using hrest
          simp [ha]
  | cons a l ih =>
    cases n with
    | zero => cases hlength
    | succ n =>
      have hl := ih (fun b hb => h b (mem_cons_of_mem a hb)) (by simpa using hlength)
        (by simpa using hends)
      simpa [take_succ_cons, h a mem_cons_self] using hl

end

private theorem HexField.skipSpace {blanks : List Nat} (h : HexField width rs blanks ds rest) :
    Base.skipSpace rs = .ok (ds ++ rest) := by
  obtain ⟨d, ds', rfl⟩ := exists_cons_of_ne_nil h.nonempty
  obtain ⟨hblank, hnewline⟩ := not_isBlank_of_isHexDigit (h.digits d mem_cons_self)
  have hdrop : rs.dropWhile isBlank = d :: ds' ++ rest := by
    rw [h.split, dropWhile_append_of_pos h.blanks, cons_append,
      dropWhile_cons_of_neg (by simp [hblank])]
  rw [Base.skipSpace, hdrop, if_neg (by simp [hnewline])]

/-- A scan succeeds exactly on a field. -/
theorem scanHex_eq_ok_iff :
    scanHex (width + 1) rs = .ok (v, rest) ↔
      ∃ blanks ds, HexField (width + 1) rs blanks ds rest ∧ v = hexNumber ds := by
  constructor
  · intro h
    have hsplit := takeWhile_append_dropWhile (p := isBlank) (l := rs)
    rw [scanHex, skipSpace] at h
    generalize rs.dropWhile isBlank = t at h hsplit
    split at h
    · cases h
    cases t with
    | nil => cases h
    | cons r t =>
      simp only [bind, Except.bind] at h
      split at h
      · next hr =>
        obtain ⟨hv, hrest⟩ := Prod.mk.inj (Except.ok.inj h)
        have hds : ((r :: t).take (width + 1)).takeWhile isHexDigit <+: r :: t :=
          ( takeWhile_prefix _).trans ( take_prefix _ _)
        refine ⟨rs.takeWhile isBlank, ((r :: t).take (width + 1)).takeWhile isHexDigit,
          ⟨?_, fun c hc => mem_takeWhile_imp hc, fun c hc => mem_takeWhile_imp hc, ?_, ?_,
            ?_⟩, hv.symm⟩
        · rw [← hrest, prefix_iff_eq_append.1 hds, hsplit]
        · simp [take_succ_cons, hr]
        · exact Nat.le_trans ( takeWhile_prefix _).length_le (length_take_le _ _)
        · rw [← hrest]
          exact takeWhile_take_ends _ _
      · cases h
  · rintro ⟨blanks, ds, hfield, rfl⟩
    obtain ⟨d, ds', hcons⟩ := exists_cons_of_ne_nil hfield.nonempty
    have hd : isHexDigit d = true := hfield.digits d (by rw [hcons]; exact mem_cons_self)
    have htake := takeWhile_take_append hfield.digits hfield.length hfield.ends
    rw [scanHex, hfield.skipSpace]
    simp only [bind, Except.bind, hcons, cons_append, hd, ↓reduceIte]
    rw [← cons_append, ← hcons, htake, drop_left]

end Athos.Base
