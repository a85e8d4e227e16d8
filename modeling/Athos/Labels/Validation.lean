import Athos.Base.GoMap
import Athos.Kube.DnsNames
import Athos.Kube.Meta

/-!
# Validating label sets and writing selectors

`Validate`, `SelectorString` and what they use of `src/internal/labels/labels.go`. The checks are
meant to be more lenient than those of the API server. They take letters of all scripts, but count
the prefix of a key to its length and bound each part of the prefix. The text of a selector says
what the set is, as no key or value that is accepted has a separator.
-/

namespace Athos.Labels

open Base Kube List

section

variable (T : RuneTables) (L : LowerCategory)

/-- `isAlnum`; `labels.go:171-173`. -/
def isAlnum (r : Nat) : Bool := T.isLetter r || T.isDigit r

/-- `isLabelName`; `labels.go:129-144`. The ends are bytes that are taken for runes. -/
def isLabelName (s : GoString) : Bool :=
  if s.length = 0 ∨ 63 < s.length then false
  else if !isAlnum T (s.headD 0).toNat || !isAlnum T (s.getLastD 0).toNat then false
  else (runes s).all fun r => isAlnum T r || r == 0x2D || r == 0x5F || r == 0x2E

/-- The runes of a DNS label other than the dash; `labels.go:155-165`. -/
def isDnsRune (r : Nat) : Bool := L.isLower r || T.isDigit r

/-- One round of the loop over labels; `labels.go:150-167`. -/
def isDnsLabel (label : GoString) : Bool :=
  if label.length = 0 ∨ 63 < label.length then false
  else if !isDnsRune T L (label.headD 0).toNat then false
  else if !isDnsRune T L (label.getLastD 0).toNat then false
  else (runes label).all fun r => isDnsRune T L r || r == 0x2D

/-- `isDNSSubdomain`; `labels.go:146-169`. -/
def isDNSSubdomain (s : GoString) : Bool :=
  if s.length = 0 ∨ 253 < s.length then false else (s.splitOn 0x2E).all (isDnsLabel T L)

/-- `IsValidKey`; `labels.go:98-116`. -/
def isValidKey (s : GoString) : Bool :=
  if s = [] ∨ 253 < s.length then false
  else if 0x2F ∈ s then
    if !isDNSSubdomain T L (cutByte 0x2F s).1 then false else isLabelName T (cutByte 0x2F s).2
  else isLabelName T s

/-- `IsValidValue`; `labels.go:118-127`. -/
def isValidValue (s : GoString) : Bool :=
  if 63 < s.length then false else if s = [] then true else isLabelName T s

/-- One round of the loop of `Validate`; `labels.go:178-183`. -/
def validatePair (k v : GoString) : Except GoString Unit :=
  if !isValidKey T L k then .error (lit "invalid label key: " ++ goQuote T k)
  else if !isValidValue T v then
    .error (lit "invalid label value for key " ++ goQuote T k ++ lit ": " ++ goQuote T v)
  else .ok ()

/-- `Validate`; `labels.go:175-186`. The keys come in an order of the map's choice. -/
def validate (s : StringMap) (keys : List GoString) : Except GoString Unit :=
  keys.forM fun k => validatePair T L k (s.getD k [])

end

/-- `SelectorString`; `labels.go:82-96`. -/
def selectorString (S : SliceSort) (s : StringMap) (keys : List GoString) : GoString :=
  List.intercalate [0x2C] ((sortStrings S keys).map fun k => k ++ lit "=" ++ s.getD k [])

/-- The pairs of a selector: its parts between commas, each cut at its first equals sign. -/
def selectorPairs (text : GoString) : List (GoString × GoString) :=
  if text = [] then [] else (text.splitOn 0x2C).map (cutByte 0x3D)

section

variable {T : RuneTables} {L : LowerCategory} {s k v : GoString}

/-- The key is short as a whole, and so are the parts of its prefix. -/
def Fits (k : GoString) : Prop :=
  k.length ≤ 253 ∧ (0x2F ∈ k → ∀ label ∈ (cutByte 0x2F k).1.splitOn 0x2E, label.length ≤ 63)

private theorem isAlnum_of_alnum {b : UInt8} (h : Kube.isAlnum b = true) :
    isAlnum T b.toNat = true := by
  have hrange : b.toNat < 0x80 ∧ (isAsciiLetter b.toNat = true ∨
      0x30 ≤ b.toNat ∧ b.toNat ≤ 0x39) := by
    simp only [Kube.isAlnum, isLowerAlnum, isLower, isDigitByte, Bool.or_eq_true, Bool.and_eq_true,
      decide_eq_true_eq, UInt8.le_iff_toNat_le, UInt8.reduceToNat] at h
    simp only [isAsciiLetter, Bool.or_eq_true, Bool.and_eq_true, decide_eq_true_eq]
    omega
  rw [isAlnum, T.isLetter_ascii _ hrange.1, T.isDigit_ascii _ hrange.1]
  rcases hrange.2 with hletter | hdigit
  · rw [hletter, Bool.true_or]
  · rw [decide_eq_true hdigit, Bool.or_true]

private theorem isDnsRune_of_lowerAlnum {b : UInt8} (h : isLowerAlnum b = true) :
    isDnsRune T L b.toNat = true := by
  have hrange : b.toNat < 0x80 ∧ (0x61 ≤ b.toNat ∧ b.toNat ≤ 0x7A ∨
      0x30 ≤ b.toNat ∧ b.toNat ≤ 0x39) := by
    simp only [isLowerAlnum, isLower, isDigitByte, Bool.or_eq_true, Bool.and_eq_true,
      decide_eq_true_eq, UInt8.le_iff_toNat_le, UInt8.reduceToNat] at h
    omega
  rw [isDnsRune, L.isLower_ascii _ hrange.1, T.isDigit_ascii _ hrange.1]
  rcases hrange.2 with hlower | hdigit
  · rw [decide_eq_true hlower, Bool.true_or]
  · rw [decide_eq_true hdigit, Bool.or_true]

private theorem runes_all {p : Nat → Bool} (hascii : ∀ b ∈ s, b < 0x80)
    (h : ∀ b ∈ s, p b.toNat = true) :
    (runes s).all p = true := by
  rw [runes_ascii hascii, all_map, all_eq_true]
  exact h

private theorem ends_of_any {p : UInt8 → Bool} (hfirst : s.head?.any p = true)
    (hlast : s.getLast?.any p = true) : p (s.headD 0) = true ∧ p (s.getLastD 0) = true := by
  cases s with
  | nil => cases hfirst
  | cons b s =>
    rw [getLast?_eq_some_getLast (cons_ne_nil b s), Option.any_some] at hlast
    exact ⟨hfirst, by simpa [getLastD_eq_getLast?, getLast?_eq_some_getLast] using hlast⟩

private theorem isLabelName_of_isLabelValue (h : IsLabelValue s) (hne : s ≠ []) :
    isLabelName T s = true := by
  obtain ⟨hfirst, hlast⟩ := h.ends.resolve_left hne
  have hends := ends_of_any hfirst hlast
  have hlength : ¬ (s.length = 0 ∨ 63 < s.length) := by
    rintro (hzero | hlong)
    · exact hne (length_eq_zero_iff.1 hzero)
    · exact Nat.not_le.2 hlong h.length
  rw [isLabelName, if_neg hlength, isAlnum_of_alnum hends.1, isAlnum_of_alnum hends.2]
  refine runes_all h.ascii fun b hb => ?_
  rcases h.chars b hb with halnum | rfl | rfl | rfl
  · rw [isAlnum_of_alnum halnum, Bool.true_or, Bool.true_or, Bool.true_or]
  · simp
  · simp
  · simp

private theorem isDnsLabel_iff (h : IsDnsWord s) : isDnsLabel T L s = true ↔ s.length ≤ 63 := by
  have hends := ends_of_any h.first h.last
  have hall : (runes s).all (fun r => isDnsRune T L r || r == 0x2D) = true := by
    refine runes_all h.ascii fun b hb => ?_
    rcases h.chars b hb with halnum | rfl
    · rw [isDnsRune_of_lowerAlnum halnum, Bool.true_or]
    · simp
  have hpos : s.length ≠ 0 := fun hzero => h.ne_nil (length_eq_zero_iff.1 hzero)
  rw [isDnsLabel, isDnsRune_of_lowerAlnum hends.1, isDnsRune_of_lowerAlnum hends.2, hall]
  simp only [hpos, false_or, Bool.not_true, Bool.false_eq_true, if_false]
  split_ifs with hlong
  · exact iff_of_false (by simp) (Nat.not_le.2 hlong)
  · exact iff_of_true rfl (Nat.not_lt.1 hlong)

private theorem isDNSSubdomain_iff (h : IsDns1123Subdomain s) :
    isDNSSubdomain T L s = true ↔ ∀ label ∈ s.splitOn 0x2E, label.length ≤ 63 := by
  have hlength : ¬ (s.length = 0 ∨ 253 < s.length) := by
    rintro (hzero | hlong)
    · exact h.ne_nil (length_eq_zero_iff.1 hzero)
    · exact Nat.not_le.2 hlong h.length
  rw [isDNSSubdomain, if_neg hlength, all_eq_true]
  exact forall₂_congr fun label hlabel => isDnsLabel_iff (h.words label hlabel)

private theorem isValidKey_iff (h : IsQualifiedName k) : isValidKey T L k = true ↔ Fits k := by
  rcases h with ⟨hne, hvalue⟩ | ⟨domain, name, rfl, hdomain, hname, hvalue⟩
  · have hslash : 0x2F ∉ k := by
      intro hmem
      rcases hvalue.chars _ hmem with halnum | hother
      · exact absurd halnum (by decide)
      · exact absurd hother (by decide)
    have hlength : k.length ≤ 253 := Nat.le_trans hvalue.length (by decide)
    refine iff_of_true ?_ ⟨hlength, fun hmem => absurd hmem hslash⟩
    rw [isValidKey, if_neg (by simpa [hne] using hlength), if_neg hslash]
    exact isLabelName_of_isLabelValue hvalue hne
  · have hslash : 0x2F ∉ domain := by
      intro hmem
      rcases hdomain.chars _ hmem with halnum | hother
      · exact absurd halnum (by decide)
      · exact absurd hother (by decide)
    have hmem : 0x2F ∈ domain ++ 0x2F :: name := by simp
    rw [isValidKey, Fits, if_pos hmem, cutByte_append_cons hslash,
      isLabelName_of_isLabelValue hvalue hname, forall_prop_of_true hmem,
      ← isDNSSubdomain_iff (T := T) (L := L) hdomain]
    by_cases hlong : 253 < (domain ++ 0x2F :: name).length
    · rw [if_pos (.inr hlong)]
      exact iff_of_false Bool.false_ne_true fun h => Nat.not_le.2 hlong h.1
    · rw [if_neg (by simpa using hlong), and_iff_right (Nat.not_lt.1 hlong)]
      cases isDNSSubdomain T L domain <;> simp

private theorem isValidValue_of_isLabelValue (h : IsLabelValue v) : isValidValue T v = true := by
  rw [isValidValue, if_neg (Nat.not_lt.2 h.length)]
  split_ifs with hnil
  · rfl
  · exact isLabelName_of_isLabelValue h hnil

private theorem validatePair_eq_ok_iff :
    validatePair T L k v = .ok () ↔ isValidKey T L k = true ∧ isValidValue T v = true := by
  rw [validatePair]
  cases isValidKey T L k <;> cases isValidValue T v <;> simp

private theorem validate_eq_ok_iff {s : StringMap} {keys : List GoString} (hkeys : Ranges s keys) :
    validate T L s keys = .ok () ↔
      ∀ (k : GoString) v, s[k]? = some v → isValidKey T L k = true ∧ isValidValue T v = true := by
  have hloop : ∀ keys : List GoString, validate T L s keys = .ok () ↔
      ∀ k ∈ keys, validatePair T L k (s.getD k []) = .ok () := by
    intro keys
    induction keys with
    | nil => exact iff_of_true rfl nofun
    | cons k keys ih =>
      rw [forall_mem_cons, ← ih, validate, forM_eq_forM, forM_cons]
      cases validatePair T L k (s.getD k []) with
      | error e => exact iff_of_false nofun fun h => nomatch h.1
      | ok u => exact (and_iff_right rfl).symm
  rw [hloop]
  constructor
  · intro hall k v hv
    have hpair := mem_listing hkeys (e := (k, v)) |>.2 hv
    obtain ⟨k', hk', heq⟩ := mem_map.1 hpair
    obtain ⟨rfl, rfl⟩ := Prod.mk.inj heq
    exact validatePair_eq_ok_iff.1 (hall k' hk')
  · intro hall k hk
    have hpair : (k, s.getD k []) ∈ listing s keys := mem_map_of_mem hk
    exact validatePair_eq_ok_iff.2 (hall _ _ ((mem_listing hkeys).1 hpair))

/-- What the API server takes is accepted as far as its keys fit. -/
theorem validation_lenient_iff (T : RuneTables) (L : LowerCategory) (k v : GoString)
    (s : StringMap) (keys : List GoString) (hk : IsQualifiedName k) (hv : IsLabelValue v)
    (hkeys : Ranges s keys)
    (hs : ∀ (k : GoString) v, s[k]? = some v → IsQualifiedName k ∧ IsLabelValue v) :
    (isValidKey T L k = true ↔ Fits k) ∧ isValidValue T v = true ∧
      (validate T L s keys = .ok () ↔ ∀ (k : GoString) v, s[k]? = some v → Fits k) := by
  refine ⟨isValidKey_iff hk, isValidValue_of_isLabelValue hv, ?_⟩
  rw [validate_eq_ok_iff hkeys]
  refine forall₃_congr fun k v hmem => ?_
  obtain ⟨hk, hv⟩ := hs k v hmem
  rw [isValidKey_iff hk, and_iff_left (isValidValue_of_isLabelValue hv)]

/-- A set of one label. -/
def sampleSet (k v : GoString) : StringMap := (∅ : StringMap).insert k v

private theorem of_getElem?_sampleSet {k' v' : GoString} (h : (sampleSet k v)[k']? = some v') :
    k' = k ∧ v' = v := by
  rw [sampleSet, Std.ExtTreeMap.getElem?_insert, Std.ExtTreeMap.getElem?_empty] at h
  split_ifs at h with heq
  · exact ⟨(Std.LawfulEqOrd.eq_of_compare heq).symm, (Option.some.inj h).symm⟩

private theorem isQualifiedName_sample (domain : GoString) (h : IsDns1123Subdomain domain) :
    IsQualifiedName (domain ++ lit "/name") :=
  .inr ⟨domain, lit "name", rfl, h, by decide, .inr (by decide),
    forall_mem_of_all (by decide), by decide⟩

private theorem isLabelValue_sample : IsLabelValue (lit "web-1") :=
  ⟨.inr (by decide), forall_mem_of_all (by decide), by decide⟩

/-- A recommended label. -/
theorem common_label_accepted :
    (IsQualifiedName (lit "app.kubernetes.io/name") ∧ IsLabelValue (lit "web-1") ∧
        Ranges (sampleSet (lit "app.kubernetes.io/name") (lit "web-1"))
          [lit "app.kubernetes.io/name"]) ∧
      validate .basic .basic (sampleSet (lit "app.kubernetes.io/name") (lit "web-1"))
        [lit "app.kubernetes.io/name"] = .ok () := by
  have hname : IsQualifiedName (lit "app.kubernetes.io/name") :=
    isQualifiedName_sample (lit "app.kubernetes.io") (by decide)
  have hranges : Ranges (sampleSet (lit "app.kubernetes.io/name") (lit "web-1"))
      [lit "app.kubernetes.io/name"] := by decide
  refine ⟨⟨hname, isLabelValue_sample, hranges⟩,
    (validation_lenient_iff .basic .basic _ _ _ _ hname isLabelValue_sample hranges ?_).2.2.2 ?_⟩
  · intro k v h
    obtain ⟨rfl, rfl⟩ := of_getElem?_sampleSet h
    exact ⟨hname, isLabelValue_sample⟩
  · intro k v h
    obtain ⟨rfl, rfl⟩ := of_getElem?_sampleSet h
    exact ⟨by decide, fun _ => forall_mem_of_all (by decide)⟩

/-- A prefix with a part of 64 letters, and one of 251 bytes. -/
theorem long_prefix_rejected :
    let letters := List.replicate 63 (0x61 : UInt8)
    let long := letters ++ 0x2E :: letters ++ 0x2E :: letters ++ 0x2E :: letters.drop 4
    (IsQualifiedName (0x61 :: letters ++ lit "/name") ∧
        isValidKey .basic .basic (0x61 :: letters ++ lit "/name") = false) ∧
      IsQualifiedName (long ++ lit "/name") ∧
        isValidKey .basic .basic (long ++ lit "/name") = false :=
  ⟨⟨isQualifiedName_sample _ (by decide +kernel), by decide +kernel⟩,
    isQualifiedName_sample _ (by decide +kernel), by decide +kernel⟩

end

section

variable {T : RuneTables} {L : LowerCategory} {b : UInt8} {s k v : GoString}

/-- Bytes that no label has: those that are no letters or digits, and none of the other marks. -/
def IsSeparator (b : UInt8) : Prop :=
  b < 0x80 ∧ Kube.isAlnum b = false ∧ b ≠ 0x2D ∧ b ≠ 0x5F ∧ b ≠ 0x2E ∧ b ≠ 0x2F

instance (b : UInt8) : Decidable (IsSeparator b) := inferInstanceAs (Decidable (_ ∧ _))

private theorem IsSeparator.toNat (h : IsSeparator b) :
    isAlnum T b.toNat = false ∧ isDnsRune T L b.toNat = false := by
  obtain ⟨hascii, halnum, -⟩ := h
  have hlt : b.toNat < 0x80 := UInt8.lt_iff_toNat_lt.1 hascii
  have hnot : isAsciiLetter b.toNat = false ∧ ¬ (0x30 ≤ b.toNat ∧ b.toNat ≤ 0x39) ∧
      ¬ (0x61 ≤ b.toNat ∧ b.toNat ≤ 0x7A) := by
    simp only [Kube.isAlnum, isLowerAlnum, isLower, isDigitByte, Bool.or_eq_false_iff,
      Bool.and_eq_false_iff, decide_eq_false_iff_not, UInt8.le_iff_toNat_le,
      UInt8.reduceToNat] at halnum
    simp only [isAsciiLetter, Bool.or_eq_false_iff, Bool.and_eq_false_iff, decide_eq_false_iff_not]
    omega
  rw [isAlnum, isDnsRune, T.isLetter_ascii _ hlt, T.isDigit_ascii _ hlt, L.isLower_ascii _ hlt,
    hnot.1, decide_eq_false hnot.2.1, decide_eq_false hnot.2.2]
  exact ⟨rfl, rfl⟩

private theorem not_mem_of_runes_all {p : Nat → Bool} (hb : b < 0x80) (hp : p b.toNat = false)
    (h : (runes s).all p = true) : b ∉ s := by
  intro hmem
  rw [all_eq_true.1 h _ (ascii_mem_runes hmem hb)] at hp
  cases hp

private theorem not_mem_of_isLabelName (hb : IsSeparator b) (h : isLabelName T s = true) :
    b ∉ s := by
  rw [isLabelName] at h
  split_ifs at h
  refine not_mem_of_runes_all hb.1 ?_ h
  have halnum := (hb.toNat (T := T) (L := .basic)).1
  obtain ⟨-, -, hdash, hunder, hdot, -⟩ := hb
  simp only [ne_eq, ← UInt8.toNat_inj, UInt8.reduceToNat] at hdash hunder hdot
  simp [halnum, hdash, hunder, hdot]

private theorem not_mem_of_isDNSSubdomain (hb : IsSeparator b) (h : isDNSSubdomain T L s = true) :
    b ∉ s := by
  rw [isDNSSubdomain] at h
  split_ifs at h
  have hparts : ∀ part ∈ s.splitOn 0x2E, ∀ c ∈ part, c ≠ b := by
    intro part hpart c hc heq
    subst heq
    have hlabel := all_eq_true.1 h part hpart
    rw [isDnsLabel] at hlabel
    split_ifs at hlabel
    refine not_mem_of_runes_all hb.1 ?_ hlabel hc
    have hdash := hb.2.2.1
    simp only [ne_eq, ← UInt8.toNat_inj, UInt8.reduceToNat] at hdash
    simp [hb.toNat (T := T) (L := L), hdash]
  rw [forall_mem_splitOn (P := (· ≠ b)) hb.2.2.2.2.1.symm] at hparts
  exact fun hmem => hparts b hmem rfl

private theorem not_mem_of_isValidKey (hb : IsSeparator b) (h : isValidKey T L k = true) :
    b ∉ k := by
  rw [isValidKey] at h
  split_ifs at h with hlength hslash hdomain
  · rw [Bool.not_eq_true', Bool.not_eq_false] at hdomain
    rw [cutByte_append hslash, mem_append, mem_cons, not_or, not_or]
    exact ⟨not_mem_of_isDNSSubdomain hb hdomain, hb.2.2.2.2.2, not_mem_of_isLabelName hb h⟩
  · exact not_mem_of_isLabelName hb h

private theorem not_mem_of_isValidValue (hb : IsSeparator b) (h : isValidValue T v = true) :
    b ∉ v := by
  rw [isValidValue] at h
  split_ifs at h with hlength hnil
  · rw [hnil]
    exact not_mem_nil
  · exact not_mem_of_isLabelName hb h

private theorem selectorPairs_selectorString {s : StringMap} {keys : List GoString} (S : SliceSort)
    (hkeys : Ranges s keys) (h : validate T L s keys = .ok ()) :
    selectorPairs (selectorString S s keys) = listing s s.keys := by
  have hcomma : IsSeparator 0x2C := by decide
  have hequals : IsSeparator 0x3D := by decide
  have hvalid := (validate_eq_ok_iff hkeys).1 h
  have hpairs : ∀ k ∈ s.keys, isValidKey T L k = true ∧ isValidValue T (s.getD k []) = true := by
    intro k hk
    have hmem : (k, s.getD k []) ∈ listing s s.keys := mem_map_of_mem hk
    exact hvalid _ _ ((mem_listing (List.Perm.refl _)).1 hmem)
  rw [selectorString, hkeys.sortStrings S]
  generalize s.keys = ks at hpairs ⊢
  cases ks with
  | nil => rfl
  | cons k ks =>
    have hparts : ∀ part ∈ (k :: ks).map fun k => k ++ lit "=" ++ s.getD k [], 0x2C ∉ part := by
      rw [forall_mem_map]
      intro k hk
      obtain ⟨hkey, hvalue⟩ := hpairs k hk
      rw [mem_append, mem_append, not_or, not_or]
      exact ⟨⟨not_mem_of_isValidKey hcomma hkey, by decide⟩,
        not_mem_of_isValidValue hcomma hvalue⟩
    have hlit : lit "=" = [0x3D] := rfl
    have hne : List.intercalate [0x2C] ((k :: ks).map fun k => k ++ lit "=" ++ s.getD k []) ≠
        [] := by
      cases ks <;> simp [hlit]
    rw [selectorPairs, if_neg hne, splitOn_intercalate 0x2C hparts (by simp), map_map, listing]
    refine map_congr_left fun k hk => ?_
    show cutByte 0x3D (k ++ [0x3D] ++ s.getD k []) = _
    rw [append_assoc, singleton_append,
      cutByte_append_cons (not_mem_of_isValidKey hequals (hpairs k hk).1)]

/-- Selectors are faithful: the pairs of a valid set can be read from its selector, each once and
by increasing keys, and sets with one selector are one set. -/
theorem selectorString_faithful (T : RuneTables) (L : LowerCategory) (S S' : SliceSort)
    (s s' : StringMap) (keys keys' : List GoString) (hkeys : Ranges s keys)
    (hkeys' : Ranges s' keys') (h : validate T L s keys = .ok ())
    (h' : validate T L s' keys' = .ok ()) :
    (∀ k v, (k, v) ∈ selectorPairs (selectorString S s keys) ↔ s[k]? = some v) ∧
      (selectorPairs (selectorString S s keys)).Pairwise (fun p q => less p.1 q.1 = true) ∧
      (selectorString S s keys = selectorString S' s' keys' ↔ s = s') := by
  rw [selectorPairs_selectorString S hkeys h]
  refine ⟨fun k v => mem_listing (List.Perm.refl _), ?_, ?_⟩
  · rw [listing, pairwise_map]
    apply Std.ExtTreeMap.ordered_keys.imp
    intro k k' hlt
    exact (less_iff_compare k k').2 hlt
  · constructor
    · intro heq
      have hpairs := congrArg selectorPairs heq
      rw [selectorPairs_selectorString S hkeys h,
        selectorPairs_selectorString S' hkeys' h'] at hpairs
      rw [← collect_listing (m := s) (List.Perm.refl _), hpairs, collect_listing (List.Perm.refl _)]
    · rintro rfl
      rw [selectorString, selectorString, hkeys.sortStrings S, hkeys'.sortStrings S']

/-- A set of two labels. -/
def sampleLabels (tier : GoString) : StringMap :=
  mapOf [(lit "tier", tier), (lit "app", lit "shop")]

/-- The selectors of two sets that differ in one value. -/
theorem selectors_of_two_sets :
    let one := selectorString .insertion (sampleLabels (lit "db")) [lit "tier", lit "app"]
    let two := selectorString .insertion (sampleLabels []) [lit "app", lit "tier"]
    one = lit "app=shop,tier=db" ∧ two = lit "app=shop,tier=" ∧
      (lit "tier", lit "db") ∈ selectorPairs one ∧
      (selectorPairs one).Pairwise (fun p q => less p.1 q.1 = true) ∧ one ≠ two := by
  intro one two
  obtain ⟨hpairs, hsorted, heq⟩ := selectorString_faithful .basic .basic .insertion .insertion
    (sampleLabels (lit "db")) (sampleLabels []) [lit "tier", lit "app"] [lit "app", lit "tier"]
    (by decide) (by decide) (by decide) (by decide)
  have hne : sampleLabels (lit "db") ≠ sampleLabels [] := by decide
  exact ⟨by decide, by decide, (hpairs _ _).2 (by decide), hsorted, fun h => hne (heq.1 h)⟩

end

end Athos.Labels
