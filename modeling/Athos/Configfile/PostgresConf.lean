import Athos.Kube.Meta
import Athos.Server.Conf

/-!
# Rendering parameters

`PostgreSQLConf` of `src/internal/configfile/postgresql.go` against the server's reading. Quotes are
doubled and backslashes are not, though the server takes both for escapes, and values of digits,
points, dashes and unit letters are written without quotes whether or not they are numbers.
-/

namespace Athos.Configfile

open Base Kube Server List Std.ExtTreeMap Conf

/-- The words that `needsQuote` exempts. -/
def booleanWords : List GoString :=
  [lit "on", lit "off", lit "true", lit "false", lit "yes", lit "no"]

/-- `strings.ToLower(v)` is one of the words. No character beyond ASCII has a letter of theirs as
its lower case. -/
def isBooleanWord (v : GoString) : Bool := booleanWords.contains (v.map asciiLower)

/-- `isDigitOrUnit`; `postgresql.go:202-205`. -/
def isDigitOrUnit (c : Nat) : Bool :=
  (0x30 ≤ c && c ≤ 0x39) || c == 0x2E || c == 0x2D || c == 0x6B || c == 0x4B || c == 0x4D ||
    c == 0x47 || c == 0x42 || c == 0x73 || c == 0x6D || c == 0x68 || c == 0x64

/-- The characters that ask for quotes: blank, tab, quotes, `#` and backslash. -/
def isSpecial (c : Nat) : Bool :=
  c == 0x20 || c == 0x09 || c == 0x27 || c == 0x22 || c == 0x23 || c == 0x5C

/-- `needsQuote`; `postgresql.go:177-200`. -/
def needsQuote (v : GoString) : Bool :=
  if v = [] then true
  else if isBooleanWord v then false
  else if (runes v).any isSpecial then true
  else !(runes v).all isDigitOrUnit

/-- `escapeValue`; `postgresql.go:208-210`. -/
def escapeValue (v : GoString) : GoString := replaceByte 0x27 [0x27, 0x27] v

/-- `PostgreSQLConf`; `postgresql.go:29-48`. -/
def postgreSQLConf (params : StringMap) : GoString :=
  lit "# Generated by Athos Kubernetes operator — do not edit manually.\n" ++ lit "\n" ++
    params.toList.flatMap fun p =>
      if needsQuote p.2 then p.1 ++ lit " = '" ++ escapeValue p.2 ++ lit "'\n"
      else p.1 ++ lit " = " ++ p.2 ++ lit "\n"

/-- The text of a value. -/
def valueText (v : GoString) : GoString :=
  if needsQuote v then 0x27 :: (doubled v ++ [0x27]) else v

/-- A value that the server reads as it was given: without backslashes if it is quoted, and
otherwise a word or number of the server. -/
def ReadsBack (further : UInt8 → Bool) (v : GoString) : Prop :=
  if needsQuote v then 0x5C ∉ v else isPlainValue further v = true

instance (further : UInt8 → Bool) (v : GoString) : Decidable (ReadsBack further v) :=
  inferInstanceAs (Decidable
    (if needsQuote v then 0x5C ∉ v else isPlainValue further v = true))

section Values

variable {v : GoString} {b : UInt8}

private theorem not_mem_booleanWord (h : isBooleanWord v = true) (hb : b ∈ v) :
    0x61 ≤ asciiLower b ∧ asciiLower b ≤ 0x7A := by
  have hletters : ∀ w ∈ booleanWords, ∀ c ∈ w, (0x61 : UInt8) ≤ c ∧ c ≤ 0x7A := by
    decide +kernel
  exact hletters _ (List.contains_iff_mem.1 h) _ (mem_map_of_mem hb)

private theorem chars_of_not_needsQuote (h : needsQuote v = false) (hb : b ∈ v) :
    Conf.isBlank b = false ∧ b ≠ 0x23 ∧ b ≠ 0x27 := by
  unfold needsQuote at h
  split_ifs at h with hne hword hspecial
  · have := not_mem_booleanWord hword hb
    grind [asciiLower, Conf.isBlank]
  · rw [Bool.not_eq_false', all_eq_true] at h
    by_cases hascii : b < 0x80
    · have hunit := h _ (ascii_mem_runes hb hascii)
      have hother : ∀ c : UInt8, isDigitOrUnit c.toNat = false → b ≠ c := by
        rintro c hc rfl
        rw [hunit] at hc
        cases hc
      refine ⟨?_, hother 0x23 rfl, hother 0x27 rfl⟩
      simp only [Conf.isBlank, Bool.or_eq_false_iff, beq_eq_false_iff_ne]
      exact ⟨⟨hother 0x20 rfl, hother 0x09 rfl⟩, hother 0x0D rfl⟩
    · grind [Conf.isBlank]

private theorem readValue_valueText_iff (further : UInt8 → Bool) (v : GoString) :
    readValue further ((valueText v).dropWhile Conf.isBlank) = some v ↔
      ReadsBack further v := by
  rw [valueText, ReadsBack]
  split_ifs with hquote
  · rw [dropWhile_cons_of_neg (by decide)]
    exact readValue_doubled_iff v
  · rw [Bool.not_eq_true] at hquote
    have hchars : ∀ b ∈ v, Conf.isBlank b = false ∧ b ≠ 0x23 ∧ b ≠ 0x27 :=
      fun b hb => chars_of_not_needsQuote hquote hb
    have hdrop : v.dropWhile Conf.isBlank = v := by
      cases v with
      | nil => rfl
      | cons b v =>
        rw [dropWhile_cons_of_neg]
        rw [(hchars b mem_cons_self).1]
        exact Bool.false_ne_true
    rw [hdrop]
    apply readValue_plain_iff
    · intro b hb
      exact ⟨(hchars b hb).1, (hchars b hb).2.1⟩
    · intro hhead
      exact (hchars _ (mem_of_head? hhead)).2.2 rfl

private theorem not_mem_valueText (h : 0x0A ∉ v) : 0x0A ∉ valueText v := by
  rw [valueText]
  split_ifs
  · have hdoubled : 0x0A ∉ doubled v := not_mem_doubled h
    simpa using hdoubled
  · exact h

end Values

/-- The lines before the assignments. -/
def headerLines : List GoString :=
  [lit "# Generated by Athos Kubernetes operator — do not edit manually.", []]

private theorem postgreSQLConf_eq (params : StringMap) :
    postgreSQLConf params =
      (headerLines ++ (params.toList.map fun p => (p.1, valueText p.2)).map
        assignment).flatMap (· ++ [0x0A]) := by
  have hline : ∀ p : GoString × GoString,
      (if needsQuote p.2 then p.1 ++ lit " = '" ++ escapeValue p.2 ++ lit "'\n"
        else p.1 ++ lit " = " ++ p.2 ++ lit "\n") =
      assignment (p.1, valueText p.2) ++ [0x0A] := by
    intro p
    rw [assignment, valueText]
    split_ifs
    · simp only [append_assoc, cons_append]
      rfl
    · rfl
  rw [postgreSQLConf, flatMap_append, List.map_map, flatMap_map]
  simp only [hline]
  rfl

section Reading

variable {further : UInt8 → Bool} {params : StringMap}

private theorem readFile_postgreSQLConf
    (hnames : ∀ k v : GoString, params[k]? = some v → isName k = true)
    (hvalues : ∀ k v : GoString, params[k]? = some v → 0x0A ∉ v) :
    readFile further (postgreSQLConf params) =
      readEntries further (params.toList.map fun p => (p.1, valueText p.2)) := by
  rw [postgreSQLConf_eq]
  apply readFile_assignments
  · decide
  · intro p hp
    obtain ⟨q, hq, rfl⟩ := List.mem_map.1 hp
    exact hnames q.1 q.2 (mem_toList_iff_getElem?_eq_some.1 hq)
  · intro p hp
    obtain ⟨q, hq, rfl⟩ := List.mem_map.1 hp
    exact not_mem_valueText
      (hvalues q.1 q.2 (mem_toList_iff_getElem?_eq_some.1 hq))

private theorem readsBack_of_readEntries {out : List (GoString × GoString)}
    (h : readEntries further (params.toList.map fun p => (p.1, valueText p.2)) = some out)
    (hmap : mapOf out = params) {k v : GoString} (hv : params[k]? = some v) :
    ReadsBack further v := by
  have hmem : (k, valueText v) ∈ params.toList.map fun p => (p.1, valueText p.2) :=
    List.mem_map.2 ⟨(k, v), mem_toList_iff_getElem?_eq_some.2 hv, rfl⟩
  obtain ⟨w, hw, hread⟩ := exists_mem_of_readEntries h hmem
  have hnodup : (out.map Prod.fst).Nodup := by
    rw [map_fst_of_readEntries h, List.map_map]
    exact nodup_keys_toList params
  have hget := (getElem?_mapOf hnodup).2 hw
  rw [hmap, hv, Option.some.injEq] at hget
  rw [← hget] at hread
  exact (readValue_valueText_iff further v).1 hread

end Reading

/-- The server reads the parameters from the file exactly if it reads each value back. -/
theorem postgreSQLConf_reads_iff (further : UInt8 → Bool) (params : StringMap)
    (hnames : ∀ k v : GoString, params[k]? = some v → isName k = true)
    (hvalues : ∀ k v : GoString, params[k]? = some v → 0x0A ∉ v) :
    (readFile further (postgreSQLConf params)).map mapOf = some params ↔
      ∀ k v : GoString, params[k]? = some v → ReadsBack further v := by
  rw [readFile_postgreSQLConf hnames hvalues]
  constructor
  · intro h k v hv
    obtain ⟨out, hout, hmap⟩ := Option.map_eq_some_iff.1 h
    exact readsBack_of_readEntries hout hmap hv
  · intro h
    have hentries : readEntries further (params.toList.map fun p => (p.1, valueText p.2)) =
        some params.toList := by
      rw [readEntries_eq_some_iff, forall₂_map_left_iff, forall₂_same]
      intro p hp
      have hback := h p.1 p.2 (mem_toList_iff_getElem?_eq_some.1 hp)
      exact ⟨rfl, (readValue_valueText_iff further p.2).2 hback⟩
    rw [hentries, Option.map_some, mapOf_toList]

/-- One parameter. -/
def sampleParam (name value : GoString) : StringMap := mapOf [(name, value)]

private theorem getElem?_sampleParam {name value k v : GoString} :
    (sampleParam name value)[k]? = some v ↔ k = name ∧ v = value := by
  have hd : ([(name, value)].map Prod.fst).Nodup := pairwise_singleton _ _
  rw [sampleParam, getElem?_mapOf hd, mem_singleton, Prod.mk.injEq]

/-- A value with a quote and a blank is read back. -/
theorem postgreSQLConf_reads_quote :
    (readFile (fun _ => false)
        (postgreSQLConf (sampleParam (lit "search_path") (lit "it's me")))).map mapOf =
      some (sampleParam (lit "search_path") (lit "it's me")) := by
  apply (postgreSQLConf_reads_iff _ _ ?_ ?_).2
  · intro k v h
    obtain ⟨-, rfl⟩ := getElem?_sampleParam.1 h
    decide
  · intro k v h
    obtain ⟨rfl, -⟩ := getElem?_sampleParam.1 h
    decide
  · intro k v h
    obtain ⟨-, rfl⟩ := getElem?_sampleParam.1 h
    decide

/-- A backslash is lost, and a version number is a syntax error. -/
theorem postgreSQLConf_misread :
    readFile (fun _ => false)
        (postgreSQLConf (sampleParam (lit "archive_command") (lit "cp \\wal"))) =
      some [(lit "archive_command", lit "cp wal")] ∧
    readFile (fun _ => false)
        (postgreSQLConf (sampleParam (lit "app.version") (lit "1.2.3"))) = none := by
  decide +kernel

end Athos.Configfile
