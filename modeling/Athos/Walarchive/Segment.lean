import Athos.Base.Hex

/-!
# WAL segment names

`SegmentFileName` and `ParseSegmentName` of `src/internal/walarchive/walarchive.go`. The parser
checks the length of a name and leaves the rest to `fmt.Sscanf`, which skips blanks before a field,
takes fewer digits than the width, and does not look at what is left.
-/

namespace Athos.Walarchive

open Base List

/-- `SegmentFileName`; `walarchive.go:160-162`. -/
def segmentFileName (timeline logID segID : UInt32) : GoString :=
  paddedHex 8 timeline.toNat ++ paddedHex 8 logID.toNat ++ paddedHex 8 segID.toNat

/-- `fmt.Sscanf(name, "%08X%08X%08X", &timeline, &logID, &segID)`. -/
def scanSegment (rs : List Nat) : Except ScanError (UInt32 × UInt32 × UInt32) := do
  let (timeline, rs) ← scanHex 8 rs
  let (logID, rs) ← scanHex 8 rs
  let (segID, _) ← scanHex 8 rs
  return (.ofNat timeline, .ofNat logID, .ofNat segID)

/-- `ParseSegmentName`; `walarchive.go:167-175`. How `Sscanf` words its errors is a parameter. -/
def parseSegmentName (T : RuneTables) (wording : ScanError → GoString) (name : GoString) :
    Except GoString (UInt32 × UInt32 × UInt32) :=
  if name.length ≠ 24 then
    .error (lit "walarchive: segment name must be 24 chars, got " ++ decimalNat name.length)
  else match scanSegment (runes name) with
    | .ok r => .ok r
    | .error e =>
      .error (lit "walarchive: invalid segment name " ++ goQuote T name ++ lit ": " ++ wording e)

/-- What a segment name is: 24 hexadecimal digits. -/
def IsSegmentName (name : GoString) : Prop :=
  name.length = 24 ∧ ∀ b ∈ name, isHexDigit b.toNat = true

/-- Three fields of at most eight digits, each perhaps after blanks, at the beginning of the
input. -/
def StartsWithFields (rs : List Nat) : Prop :=
  ∃ b₁ d₁ r₁ b₂ d₂ r₂ b₃ d₃ r₃ : List Nat,
    HexField 8 rs b₁ d₁ r₁ ∧ HexField 8 r₁ b₂ d₂ r₂ ∧ HexField 8 r₂ b₃ d₃ r₃

section

variable {T : RuneTables} {wording : ScanError → GoString} {name : GoString}

private theorem scanSegment_of_fields {rs b₁ d₁ r₁ b₂ d₂ r₂ b₃ d₃ r₃ : List Nat}
    (h₁ : HexField 8 rs b₁ d₁ r₁) (h₂ : HexField 8 r₁ b₂ d₂ r₂) (h₃ : HexField 8 r₂ b₃ d₃ r₃) :
    scanSegment rs =
      .ok (.ofNat (hexNumber d₁), .ofNat (hexNumber d₂), .ofNat (hexNumber d₃)) := by
  have hs₁ := scanHex_eq_ok_iff.2 ⟨b₁, d₁, h₁, rfl⟩
  have hs₂ := scanHex_eq_ok_iff.2 ⟨b₂, d₂, h₂, rfl⟩
  have hs₃ := scanHex_eq_ok_iff.2 ⟨b₃, d₃, h₃, rfl⟩
  simp only [scanSegment, hs₁, hs₂, hs₃, bind, Except.bind, pure, Except.pure]

private theorem startsWithFields_of_scanSegment {rs : List Nat} {r : UInt32 × UInt32 × UInt32}
    (h : scanSegment rs = .ok r) : StartsWithFields rs := by
  rw [scanSegment] at h
  cases h₁ : scanHex 8 rs with
  | error e => rw [h₁] at h; cases h
  | ok x₁ =>
    rw [h₁] at h
    cases h₂ : scanHex 8 x₁.2 with
    | error e => simp only [bind, Except.bind, h₂] at h; cases h
    | ok x₂ =>
      cases h₃ : scanHex 8 x₂.2 with
      | error e => simp only [bind, Except.bind, h₂, h₃] at h; cases h
      | ok x₃ =>
        obtain ⟨b₁, d₁, hf₁, -⟩ := scanHex_eq_ok_iff.1 h₁
        obtain ⟨b₂, d₂, hf₂, -⟩ := scanHex_eq_ok_iff.1 h₂
        obtain ⟨b₃, d₃, hf₃, -⟩ := scanHex_eq_ok_iff.1 h₃
        exact ⟨b₁, d₁, x₁.2, b₂, d₂, x₂.2, b₃, d₃, x₃.2, hf₁, hf₂, hf₃⟩

private theorem parseSegmentName_isOk_iff :
    (∃ r, parseSegmentName T wording name = .ok r) ↔
      name.length = 24 ∧ StartsWithFields (runes name) := by
  constructor
  · rintro ⟨r, h⟩
    rw [parseSegmentName] at h
    split at h
    · cases h
    next hlength =>
      split at h
      · next hscan => exact ⟨not_not.1 hlength, startsWithFields_of_scanSegment hscan⟩
      · cases h
  · rintro ⟨hlength, b₁, d₁, r₁, b₂, d₂, r₂, b₃, d₃, r₃, h₁, h₂, h₃⟩
    rw [parseSegmentName, if_neg (not_not.2 hlength), scanSegment_of_fields h₁ h₂ h₃]
    exact ⟨_, rfl⟩

private theorem hexField_of_length {s t : GoString} (hs : ∀ b ∈ s, isHexDigit b.toNat = true)
    (hlength : s.length = 8) :
    HexField 8 ((s ++ t).map UInt8.toNat) [] (s.map UInt8.toNat) (t.map UInt8.toNat) where
  split := by rw [map_append, nil_append]
  blanks := by simp
  digits := by simpa using hs
  nonempty := by
    intro h
    have hnil := map_eq_nil_iff.1 h
    rw [hnil] at hlength
    cases hlength
  length := by rw [length_map, hlength]
  ends := .inl (by rw [length_map, hlength])

private theorem parseSegmentName_append {a b c : GoString}
    (ha : ∀ x ∈ a, isHexDigit x.toNat = true) (hb : ∀ x ∈ b, isHexDigit x.toNat = true)
    (hc : ∀ x ∈ c, isHexDigit x.toNat = true) (hla : a.length = 8) (hlb : b.length = 8)
    (hlc : c.length = 8) :
    parseSegmentName T wording (a ++ (b ++ c)) =
      .ok (.ofNat (hexNumber (a.map UInt8.toNat)), .ofNat (hexNumber (b.map UInt8.toNat)),
        .ofNat (hexNumber (c.map UInt8.toNat))) := by
  have hlow : ∀ x ∈ a ++ (b ++ c), x < 0x80 := by
    simp only [forall_mem_append]
    exact ⟨fun x hx => lt_of_isHexDigit (ha x hx), fun x hx => lt_of_isHexDigit (hb x hx),
      fun x hx => lt_of_isHexDigit (hc x hx)⟩
  have hlength : (a ++ (b ++ c)).length = 24 := by simp [hla, hlb, hlc]
  have hc' := hexField_of_length (t := []) hc hlc
  rw [append_nil] at hc'
  rw [parseSegmentName, if_neg (not_not.2 hlength), runes_ascii hlow,
    scanSegment_of_fields (hexField_of_length ha hla) (hexField_of_length hb hlb) hc']

private theorem paddedHex_ofNat {s : GoString} (hs : ∀ b ∈ s, isHexDigit b.toNat = true)
    (hlength : s.length = 8) :
    paddedHex 8 (UInt32.ofNat (hexNumber (s.map UInt8.toNat))).toNat = s.map asciiUpper := by
  have hlt : hexNumber (s.map UInt8.toNat) < 16 ^ 8 := by
    have hdigits : ∀ d ∈ s.map UInt8.toNat, isHexDigit d = true := by simpa using hs
    have h := hexNumber_lt hdigits
    rwa [length_map, hlength] at h
  rw [UInt32.toNat_ofNat_of_lt' hlt]
  have h := paddedHex_hexNumber hs
  rwa [hlength] at h

variable (T wording) in
private theorem parseSegmentName_of_isSegmentName (h : IsSegmentName name) :
    ∃ timeline logID segID, parseSegmentName T wording name = .ok (timeline, logID, segID) ∧
      segmentFileName timeline logID segID = name.map asciiUpper := by
  obtain ⟨hlength, hhex⟩ := h
  obtain ⟨a, b, c, rfl, hla, hlb, hlc⟩ : ∃ a b c, name = a ++ (b ++ c) ∧ a.length = 8 ∧
      b.length = 8 ∧ c.length = 8 := by
    refine ⟨name.take 8, (name.drop 8).take 8, (name.drop 8).drop 8, ?_, ?_, ?_, ?_⟩
    · rw [take_append_drop, take_append_drop]
    all_goals simp [hlength]
  simp only [forall_mem_append] at hhex
  obtain ⟨ha, hb, hc⟩ := hhex
  refine ⟨_, _, _, parseSegmentName_append ha hb hc hla hlb hlc, ?_⟩
  rw [segmentFileName, paddedHex_ofNat ha hla, paddedHex_ofNat hb hlb, paddedHex_ofNat hc hlc,
    append_assoc, map_append, map_append]

private theorem parseSegmentName_segmentFileName (timeline logID segID : UInt32) :
    parseSegmentName T wording (segmentFileName timeline logID segID) =
      .ok (timeline, logID, segID) := by
  have hnumber : ∀ n : UInt32,
      UInt32.ofNat (hexNumber ((paddedHex 8 n.toNat).map UInt8.toNat)) = n := by
    intro n
    have hlt : n.toNat < 16 ^ 8 := n.toNat_lt
    rw [hexNumber_paddedHex hlt, UInt32.ofNat_toNat]
  rw [segmentFileName, append_assoc, parseSegmentName_append
    (fun x => isHexDigit_of_mem_paddedHex) (fun x => isHexDigit_of_mem_paddedHex)
    (fun x => isHexDigit_of_mem_paddedHex) (length_paddedHex 8 _) (length_paddedHex 8 _)
    (length_paddedHex 8 _), hnumber, hnumber, hnumber]

end

/-- When segment names are read correctly. Every formatted name is read back as its numbers. A
string is accepted exactly if it is a segment name, and then formats back to itself in upper
case, if and only if it is not 24 bytes long, does not start with three fields of at most eight
digits, or consists of hexadecimal digits only. -/
theorem parseSegmentName_correct_iff (T : RuneTables) (wording : ScanError → GoString) :
    (∀ timeline logID segID,
      parseSegmentName T wording (segmentFileName timeline logID segID) =
        .ok (timeline, logID, segID)) ∧
    ∀ name,
      (((∃ r, parseSegmentName T wording name = .ok r) ↔ IsSegmentName name) ∧
        ∀ timeline logID segID, parseSegmentName T wording name = .ok (timeline, logID, segID) →
          segmentFileName timeline logID segID = name.map asciiUpper) ↔
      (name.length = 24 → StartsWithFields (runes name) →
        ∀ b ∈ name, isHexDigit b.toNat = true) := by
  refine ⟨parseSegmentName_segmentFileName, fun name => ⟨?_, fun h => ?_⟩⟩
  · rintro ⟨hok, -⟩ hlength hfields
    exact (hok.1 (parseSegmentName_isOk_iff.2 ⟨hlength, hfields⟩)).2
  · have hname : (∃ r, parseSegmentName T wording name = .ok r) → IsSegmentName name := by
      intro hok
      obtain ⟨hlength, hfields⟩ := parseSegmentName_isOk_iff.1 hok
      exact ⟨hlength, h hlength hfields⟩
    refine ⟨⟨hname, fun hseg => ?_⟩, fun timeline logID segID hok => ?_⟩
    · obtain ⟨timeline, logID, segID, hok, -⟩ :=
        parseSegmentName_of_isSegmentName T wording hseg
      exact ⟨_, hok⟩
    · obtain ⟨_, _, _, hok', hupper⟩ :=
        parseSegmentName_of_isSegmentName T wording (hname ⟨_, hok⟩)
      rw [hok] at hok'
      cases hok'
      exact hupper

/-- Three short fields and then anything. -/
theorem parseSegmentName_accepts_garbage :
    parseSegmentName .basic (fun _ => []) (lit " 1 2 3 not a segment nam") = .ok (1, 2, 3) ∧
      ¬ IsSegmentName (lit " 1 2 3 not a segment nam") := by
  refine ⟨by decide +kernel, fun h => ?_⟩
  exact absurd (h.2 0x20 (by decide)) (by decide)

end Athos.Walarchive
