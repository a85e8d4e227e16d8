import Athos.Base.Strings

/-!
# Image references

`imageutil.go:29-127`: a reference is taken apart at the first `@`, at the last `:` after the last
`/`, and at the first `/`. What is printed is read back as the same registry, repository, tag and
digest if the last part of the path has one colon at most. Of several, all but the last stay in the
repository, and are taken for the beginning of a tag if none is printed.
-/

namespace Athos.Imageutil
open Base List

/-- `Reference`; `imageutil.go:29-42`. -/
structure Reference where
  registry : GoString
  repository : GoString
  tag : GoString
  digest : GoString
deriving DecidableEq

namespace Reference

/-- The registry and the repository of a reference, as `String` writes them;
`imageutil.go:47-50`. -/
def path (r : Reference) : GoString :=
  if r.registry ≠ [] then r.registry ++ 0x2F :: r.repository else r.repository

/-- `String`; `imageutil.go:44-58`. -/
def string (r : Reference) : GoString :=
  if r.digest ≠ [] then r.path ++ 0x40 :: r.digest
  else if r.tag ≠ [] then r.path ++ 0x3A :: r.tag
  else r.path

/-- `WithTag`; `imageutil.go:116-121`. -/
def withTag (r : Reference) (tag : GoString) : Reference := { r with tag := tag, digest := [] }

/-- `WithDigest`; `imageutil.go:123-127`. -/
def withDigest (r : Reference) (digest : GoString) : Reference := { r with digest := digest }

end Reference

/-- The tag of a reference without its digest, and what stands before it;
`imageutil.go:82-94`. -/
def splitTag (rest : GoString) : GoString × GoString :=
  if 0x2F ∈ rest then
    let (head, name) := cutLastByte 0x2F rest
    let tail := 0x2F :: name
    if 0x3A ∈ tail then
      let (front, tag) := cutLastByte 0x3A tail
      (head ++ front, tag)
    else (rest, [])
  else if 0x3A ∈ rest then cutLastByte 0x3A rest
  else (rest, [])

/-- The registry and the repository of a path; `imageutil.go:96-104`. -/
def splitRegistry (rest : GoString) : GoString × GoString :=
  let (head, repository) := cutByte 0x2F rest
  if 0x2F ∈ rest ∧ head ≠ [] ∧ (0x2E ∈ head ∨ 0x3A ∈ head ∨ head = lit "localhost") then
    (head, repository)
  else ([], rest)

/-- `Parse`; `imageutil.go:66-111`. -/
def parse (T : RuneTables) (s : GoString) : Except GoString Reference :=
  if s = [] then .error (lit "imageutil: empty image reference")
  else
    let (name, digest) := cutByte 0x40 s
    let (path, tag) := splitTag name
    let (registry, repository) := splitRegistry path
    if repository = [] then .error (lit "imageutil: no repository in " ++ goQuote T s)
    else .ok ⟨registry, repository, tag, digest⟩

/-- What stands after the last `/`. -/
def lastPart (name : GoString) : GoString := name.rtakeWhile (· != 0x2F)

variable {t s : GoString}

private theorem lastPart_append_cons (h : 0x2F ∉ t) (s : GoString) :
    lastPart (s ++ 0x2F :: t) = t := congrArg Prod.snd (cutLastByte_append_cons h s)

private theorem lastPart_of_not_mem (h : 0x2F ∉ s) : lastPart s = s := by
  refine rtakeWhile_eq_self_iff.2 fun b hb => ?_
  rw [bne_iff_ne]
  rintro rfl
  exact h hb

private theorem lastPart_append (h : 0x2F ∉ t) (s : GoString) :
    lastPart (s ++ t) = lastPart s ++ t := by
  by_cases hs : 0x2F ∈ s
  · obtain ⟨x, y, rfl, hy⟩ := exists_append_cons_of_mem hs
    rw [append_assoc, cons_append, lastPart_append_cons hy, lastPart_append_cons]
    simp [hy, h]
  · rw [lastPart_of_not_mem hs, lastPart_of_not_mem]
    simp [hs, h]

private theorem splitTag_of_not_mem (h : 0x3A ∉ lastPart s) : splitTag s = (s, []) := by
  by_cases hs : 0x2F ∈ s
  · obtain ⟨x, y, rfl, hy⟩ := exists_append_cons_of_mem hs
    rw [lastPart_append_cons hy] at h
    have htail : 0x3A ∉ 0x2F :: y := by simpa using h
    rw [splitTag, if_pos hs, cutLastByte_append_cons hy]
    exact if_neg htail
  · rw [lastPart_of_not_mem hs] at h
    rw [splitTag, if_neg hs, if_neg h]

private theorem splitTag_append_cons {tag : GoString} (hslash : 0x2F ∉ tag) (hcolon : 0x3A ∉ tag)
    (s : GoString) : splitTag (s ++ 0x3A :: tag) = (s, tag) := by
  by_cases hs : 0x2F ∈ s
  · obtain ⟨x, y, rfl, hy⟩ := exists_append_cons_of_mem hs
    have hname : 0x2F ∉ y ++ 0x3A :: tag := by simpa [hy] using hslash
    have hcut : cutLastByte 0x3A (0x2F :: (y ++ 0x3A :: tag)) = (0x2F :: y, tag) :=
      cutLastByte_append_cons hcolon (0x2F :: y)
    rw [splitTag, if_pos (by simp), append_assoc, cons_append, cutLastByte_append_cons hname]
    dsimp only
    rw [if_pos (by simp), hcut]
  · rw [splitTag, if_neg (by simp [hs, hslash]), if_pos (by simp), cutLastByte_append_cons hcolon]

private theorem lastPart_cases (s : GoString) :
    0x3A ∉ lastPart s ∨ ∃ x tag, s = x ++ 0x3A :: tag ∧ 0x2F ∉ tag ∧ 0x3A ∉ tag := by
  by_cases h : 0x3A ∈ lastPart s
  · obtain ⟨x, tag, hx, htag⟩ := exists_append_cons_of_mem h
    refine .inr ⟨s.rdropWhile (· != 0x2F) ++ x, tag, ?_, ?_, htag⟩
    · rw [append_assoc, ← hx]
      exact rdropWhile_append_rtakeWhile.symm
    · intro hslash
      have hmem : 0x2F ∈ lastPart s := by simp [hx, hslash]
      simpa using mem_rtakeWhile_imp hmem
  · exact .inl h

private theorem splitTag_eq_self_iff (s : GoString) : splitTag s = (s, []) ↔ 0x3A ∉ lastPart s := by
  refine ⟨fun h => ?_, splitTag_of_not_mem⟩
  rcases lastPart_cases s with hnone | ⟨x, tag, rfl, hslash, hcolon⟩
  · exact hnone
  · rw [splitTag_append_cons hslash hcolon, Prod.mk.injEq] at h
    have hlength := congrArg List.length h.1
    simp at hlength

private theorem path_splitRegistry (s tag digest : GoString) :
    Reference.path ⟨(splitRegistry s).1, (splitRegistry s).2, tag, digest⟩ = s := by
  unfold splitRegistry
  dsimp only
  split
  · next h =>
    rw [Reference.path, if_pos h.2.1]
    exact (cutByte_append h.1).symm
  · rfl

private theorem parse_eq_ok_iff {T : RuneTables} {r : Reference} :
    parse T s = .ok r ↔ splitTag (cutByte 0x40 s).1 = (r.path, r.tag) ∧
      (cutByte 0x40 s).2 = r.digest ∧
      splitRegistry r.path = (r.registry, r.repository) ∧ r.repository ≠ [] := by
  set name := (cutByte 0x40 s).1 with hname
  have hparse : s ≠ [] → parse T s = if (splitRegistry (splitTag name).1).2 = [] then
      .error (lit "imageutil: no repository in " ++ goQuote T s)
      else .ok ⟨(splitRegistry (splitTag name).1).1, (splitRegistry (splitTag name).1).2,
        (splitTag name).2, (cutByte 0x40 s).2⟩ := fun hs => if_neg hs
  constructor
  · intro h
    have hs : s ≠ [] := by
      rintro rfl
      cases h
    rw [hparse hs] at h
    split at h
    · cases h
    · next hne =>
      obtain rfl := Except.ok.inj h
      rw [path_splitRegistry]
      exact ⟨rfl, rfl, rfl, hne⟩
  · rintro ⟨htag, hdigest, hregistry, hne⟩
    have hs : s ≠ [] := by
      rintro rfl
      have hpath : r.path = [] := (congrArg Prod.fst htag).symm
      rw [hpath] at hregistry
      exact hne (congrArg Prod.snd hregistry).symm
    rw [hparse hs, htag, hdigest, hregistry]
    exact if_neg hne

/-- None of the bytes at which a reference is taken apart. -/
def IsPart (s : GoString) : Prop := 0x2F ∉ s ∧ 0x3A ∉ s ∧ 0x40 ∉ s

section Printed

variable {T : RuneTables} {s : GoString} {r : Reference}

section

variable (h : parse T s = .ok r)

include h

private theorem parts_of_parse : 0x40 ∉ r.path ∧ IsPart r.tag := by
  obtain ⟨htag, -, -, -⟩ := parse_eq_ok_iff.1 h
  have hat := not_mem_cutByte_fst 0x40 s
  rcases lastPart_cases (cutByte 0x40 s).1 with hnone | ⟨x, tag, hx, hslash, hcolon⟩
  · rw [splitTag_of_not_mem hnone, Prod.mk.injEq] at htag
    rw [← htag.1, ← htag.2]
    exact ⟨hat, by simp [IsPart]⟩
  · rw [hx, splitTag_append_cons hslash hcolon, Prod.mk.injEq] at htag
    rw [hx] at hat
    simp only [mem_append, mem_cons, not_or] at hat
    rw [← htag.1, ← htag.2]
    exact ⟨hat.1, hslash, hcolon, hat.2.2⟩

private theorem lastPart_path_iff :
    0x3A ∉ lastPart r.path ↔ (lastPart (cutByte 0x40 s).1).count 0x3A ≤ 1 := by
  obtain ⟨htag, -, -, -⟩ := parse_eq_ok_iff.1 h
  rcases lastPart_cases (cutByte 0x40 s).1 with hnone | ⟨x, tag, hx, hslash, hcolon⟩
  · rw [splitTag_of_not_mem hnone, Prod.mk.injEq] at htag
    rw [← htag.1, count_eq_zero_of_not_mem hnone]
    exact iff_of_true hnone (Nat.zero_le 1)
  · rw [hx, splitTag_append_cons hslash hcolon, Prod.mk.injEq] at htag
    rw [hx, lastPart_append (by simpa using hslash), count_append, count_cons_self,
      count_eq_zero_of_not_mem hcolon, ← htag.1, ← count_eq_zero]
    omega

private theorem tag_ne_nil_iff :
    r.tag ≠ [] ↔ 0x3A ∈ lastPart (cutByte 0x40 s).1 ∧
      (lastPart (cutByte 0x40 s).1).getLast? ≠ some 0x3A := by
  obtain ⟨htag, -, -, -⟩ := parse_eq_ok_iff.1 h
  rcases lastPart_cases (cutByte 0x40 s).1 with hnone | ⟨x, tag, hx, hslash, hcolon⟩
  · rw [splitTag_of_not_mem hnone, Prod.mk.injEq] at htag
    simp [← htag.2, hnone]
  · rw [hx, splitTag_append_cons hslash hcolon, Prod.mk.injEq] at htag
    rw [hx, lastPart_append (by simpa using hslash), ← htag.2]
    rcases eq_nil_or_concat tag with rfl | ⟨front, b, rfl⟩
    · simp
    · have hb : b ≠ 0x3A := by
        rintro rfl
        simp at hcolon
      have hend : lastPart x ++ 0x3A :: front.concat b = (lastPart x ++ 0x3A :: front) ++ [b] := by
        simp
      rw [hend, getLast?_concat]
      simp [hb]

private theorem parse_iff_of_parse (text tag digest : GoString) :
    parse T text = .ok ⟨r.registry, r.repository, tag, digest⟩ ↔
      splitTag (cutByte 0x40 text).1 = (r.path, tag) ∧ (cutByte 0x40 text).2 = digest := by
  obtain ⟨-, -, hregistry, hne⟩ := parse_eq_ok_iff.1 h
  have hpath : Reference.path ⟨r.registry, r.repository, tag, digest⟩ = r.path := rfl
  rw [parse_eq_ok_iff, hpath]
  constructor
  · rintro ⟨htag, hdigest, -, -⟩
    exact ⟨htag, hdigest⟩
  · rintro ⟨htag, hdigest⟩
    exact ⟨htag, hdigest, hregistry, hne⟩

private theorem parse_path_tag {tag : GoString} (htag : IsPart tag) :
    parse T (r.path ++ 0x3A :: tag) = .ok ⟨r.registry, r.repository, tag, []⟩ := by
  have hat : 0x40 ∉ r.path ++ 0x3A :: tag := by
    simpa [(parts_of_parse h).1] using htag.2.2
  rw [parse_iff_of_parse h, cutByte_of_not_mem hat]
  exact ⟨splitTag_append_cons htag.1 htag.2.1 r.path, rfl⟩

private theorem parse_path_digest_iff (digest : GoString) :
    parse T (r.path ++ 0x40 :: digest) = .ok ⟨r.registry, r.repository, [], digest⟩ ↔
      0x3A ∉ lastPart r.path := by
  rw [parse_iff_of_parse h, cutByte_append_cons (parts_of_parse h).1, ← splitTag_eq_self_iff]
  exact and_iff_left rfl

private theorem parse_path_iff :
    parse T r.path = .ok ⟨r.registry, r.repository, [], []⟩ ↔ 0x3A ∉ lastPart r.path := by
  rw [parse_iff_of_parse h, cutByte_of_not_mem (parts_of_parse h).1, ← splitTag_eq_self_iff]
  exact and_iff_left rfl

end

end Printed

/-- What is left of a reference in its text: no tag if there is a digest. -/
def Reference.printed (r : Reference) : Reference :=
  if r.digest ≠ [] then { r with tag := [] } else r

private theorem parse_string_iff {T : RuneTables} {r : Reference} (h : parse T s = .ok r) :
    parse T r.string = .ok r.printed ↔ 0x3A ∉ lastPart r.path ∨ (r.digest = [] ∧ r.tag ≠ []) := by
  by_cases hdigest : r.digest = []
  · have hprinted : r.printed = ⟨r.registry, r.repository, r.tag, []⟩ := by
      rw [Reference.printed, if_neg (not_not.2 hdigest), ← hdigest]
    by_cases htag : r.tag = []
    · rw [Reference.string, if_neg (not_not.2 hdigest), if_neg (not_not.2 htag), hprinted,
        htag, parse_path_iff h]
      simp
    · rw [Reference.string, if_neg (not_not.2 hdigest), if_pos htag, hprinted]
      exact iff_of_true (parse_path_tag h (parts_of_parse h).2) (.inr ⟨hdigest, htag⟩)
  · rw [Reference.string, if_pos hdigest, Reference.printed, if_pos hdigest,
      parse_path_digest_iff h]
    simp [hdigest]

/-- What is parsed is read back as it was printed exactly if the last part of the path has one
colon at most, or has a tag after several colons and no digest. With another tag or digest it is
read back exactly in the first case. -/
theorem parse_stable_iff (T : RuneTables) (s : GoString) (r : Reference)
    (h : parse T s = .ok r) :
    (parse T r.string = .ok r.printed ↔
      (lastPart (cutByte 0x40 s).1).count 0x3A ≤ 1 ∨
        ((cutByte 0x40 s).2 = [] ∧ (lastPart (cutByte 0x40 s).1).getLast? ≠ some 0x3A)) ∧
    (((∀ tag, IsPart tag → parse T (r.withTag tag).string = .ok (r.withTag tag)) ∧
        ∀ digest, digest ≠ [] →
          parse T (r.withDigest digest).string = .ok (r.withDigest digest).printed) ↔
      (lastPart (cutByte 0x40 s).1).count 0x3A ≤ 1) := by
  obtain ⟨-, hdigest, -, -⟩ := parse_eq_ok_iff.1 h
  refine ⟨?_, ?_⟩
  · rw [parse_string_iff h, lastPart_path_iff h, tag_ne_nil_iff h, hdigest]
    by_cases hcount : (lastPart (cutByte 0x40 s).1).count 0x3A ≤ 1
    · simp only [hcount, true_or]
    · have hmem : 0x3A ∈ lastPart (cutByte 0x40 s).1 := count_pos_iff.1 (by omega)
      simp only [hcount, false_or, hmem, true_and]
  · rw [← lastPart_path_iff h]
    constructor
    · rintro ⟨htags, -⟩
      exact (parse_path_iff h).1 (htags [] (by simp [IsPart]))
    · intro hcolon
      refine ⟨fun tag htag => ?_, fun digest hne => ?_⟩
      · by_cases hempty : tag = []
        · subst hempty
          exact (parse_path_iff h).2 hcolon
        · have hstring : (r.withTag tag).string = r.path ++ 0x3A :: tag := by
            rw [Reference.string, if_neg (by simp [Reference.withTag])]
            exact if_pos hempty
          rw [hstring]
          exact parse_path_tag h htag
      · have hstring : (r.withDigest digest).string = r.path ++ 0x40 :: digest := if_pos hne
        have hprinted : (r.withDigest digest).printed =
            ⟨r.registry, r.repository, [], digest⟩ := if_pos hne
        rw [hstring, hprinted]
        exact (parse_path_digest_iff h digest).2 hcolon

/-- The second of two colons ends the repository, and the first begins the tag when what is printed
is parsed. -/
theorem empty_tag_moves_repository :
    parse RuneTables.basic (lit "a:b:") = .ok ⟨[], lit "a:b", [], []⟩ ∧
      parse RuneTables.basic (Reference.string ⟨[], lit "a:b", [], []⟩) =
        .ok ⟨[], lit "a", lit "b", []⟩ ∧
      parse RuneTables.basic (lit "a:b:c@sha256:0") =
        .ok ⟨[], lit "a:b", lit "c", lit "sha256:0"⟩ ∧
      parse RuneTables.basic (Reference.string ⟨[], lit "a:b", lit "c", lit "sha256:0"⟩) =
        .ok ⟨[], lit "a", lit "b", lit "sha256:0"⟩ := by
  decide

/-- The port of a registry is not taken for a tag. -/
theorem parse_stable_port :
    parse RuneTables.basic (lit "localhost:5000/athos:v1@sha256:0") =
        .ok ⟨lit "localhost:5000", lit "athos", lit "v1", lit "sha256:0"⟩ ∧
      parse RuneTables.basic (lit "localhost:5000/athos@sha256:0") =
        .ok ⟨lit "localhost:5000", lit "athos", [], lit "sha256:0"⟩ :=
  ⟨by decide, (parse_stable_iff RuneTables.basic (lit "localhost:5000/athos:v1@sha256:0")
    ⟨lit "localhost:5000", lit "athos", lit "v1", lit "sha256:0"⟩ (by decide)).1.2 (by decide)⟩

end Athos.Imageutil
