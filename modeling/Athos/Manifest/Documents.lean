import Athos.Base.Lines

/-!
# Manifests of several documents

`manifest.go:31-96`: a stream is split into documents at the lines that are `---` up to white space,
and documents are joined again with `---` between them. Whatever has a line that is not blank comes
back from `Split`, but `---` is also taken for a separator where it is indented.
-/

namespace Athos.Manifest
open Base List

/-- `Document`; `manifest.go:31-36`. -/
structure Document where
  index : Int
  body : GoString
deriving DecidableEq

/-- `isDocumentSeparator`; `manifest.go:76-78`. -/
def isDocumentSeparator (line : GoString) : Bool := trimSpace line = lit "---"

/-- The variables of `Split`; `manifest.go:46-48`. -/
structure Scan where
  docs : List Document
  current : GoString
  idx : Int
deriving DecidableEq

/-- The function `flush` of `Split`; `manifest.go:50-58`. -/
def flush (s : Scan) : Scan :=
  -- A blank text stays in the builder.
  if trimSpace s.current = [] then s
  else { docs := s.docs ++ [⟨s.idx, s.current⟩], current := [], idx := s.idx + 1 }

/-- One round of the loop; `manifest.go:60-68`. -/
def scanLine (s : Scan) (line : GoString) : Scan :=
  if isDocumentSeparator line then flush s
  else { s with current := s.current ++ line ++ [0x0A] }

/-- The size of the buffer; `manifest.go:44`. -/
def maxBuffer : Nat := 1024 * 1024

/-- `Split`; `manifest.go:38-74`. -/
def split (s : GoString) : Except GoString (List Document) :=
  let scanned := scanLines maxBuffer s
  let scan := scanned.1.foldl scanLine ⟨[], [], 1⟩
  if scanned.2 then .ok (flush scan).docs
  else .error (lit "manifest: scan: bufio.Scanner: token too long")

/-- `Join`; `manifest.go:80-96`. -/
def join (docs : List Document) : GoString :=
  (lit "---\n").intercalate (docs.map fun d => d.body.rdropWhile (· == 0x0A) ++ [0x0A])

/-- Documents with these bodies and the indices 1, 2, 3, and so on. -/
def number (bodies : List GoString) : List Document :=
  (bodies.zipIdx 1).map fun p => ⟨p.2, p.1⟩

/-- The documents of a sequence of lines, as lines. -/
def runs (lines : List GoString) : List (List GoString) :=
  runsFrom isDocumentSeparator isBlankText [] lines

@[simp] private theorem map_body_number (bodies : List GoString) :
    (number bodies).map Document.body = bodies := by
  rw [number, map_map]
  exact zipIdx_map_fst 1 bodies

private theorem map_index_number (bodies : List GoString) :
    (number bodies).map Document.index = (List.range' 1 bodies.length).map Int.ofNat := by
  rw [number, map_map, ← zipIdx_map_snd 1 bodies, map_map]
  rfl

@[simp] private theorem length_number (bodies : List GoString) :
    (number bodies).length = bodies.length := by
  rw [number, length_map, length_zipIdx]

private theorem mem_of_mem_number {bodies : List GoString} {d : Document} (h : d ∈ number bodies) :
    d.body ∈ bodies := by
  rw [← map_body_number bodies]
  exact mem_map_of_mem h

private theorem flush_unlines (docs : List Document) (pending : List GoString) (idx : Int) :
    flush ⟨docs, unlines pending, idx⟩ =
      if pending.all isBlankText then ⟨docs, unlines pending, idx⟩
      else ⟨docs ++ [⟨idx, unlines pending⟩], unlines [], idx + 1⟩ := by
  have hblank : trimSpace (unlines pending) = [] ↔ pending.all isBlankText = true := by
    rw [← isBlankText_unlines, isBlankText, decide_eq_true_iff]
  rw [flush]
  simp only [hblank]
  rfl

private theorem flush_foldl_scanLine (docs : List Document) (pending : List GoString) (idx : Nat)
    (lines : List GoString) :
    (flush (lines.foldl scanLine ⟨docs, unlines pending, idx⟩)).docs =
      docs ++ (((runsFrom isDocumentSeparator isBlankText pending lines).map unlines).zipIdx
        idx).map fun p => ⟨p.2, p.1⟩ := by
  induction lines generalizing docs pending idx with
  | nil =>
    rw [foldl_nil, flush_unlines, runsFrom]
    split
    · simp
    · rfl
  | cons line lines ih =>
    rw [foldl_cons, scanLine, runsFrom, flush_unlines]
    split
    · split
      · exact ih docs pending idx
      · have hnext : (idx : Int) + 1 = ((idx + 1 : Nat) : Int) := rfl
        rw [hnext, ih, append_assoc]
        rfl
    · have hmore : unlines pending ++ line ++ [0x0A] = unlines (pending ++ [line]) := by simp
      rw [hmore]
      exact ih docs (pending ++ [line]) idx

variable {s body : GoString} {docs : List Document} {lines : List GoString}

private theorem split_eq_ok_iff :
    split s = .ok docs ↔ (∀ line ∈ rawLines s, line.length < maxBuffer) ∧
      docs = number ((runs ((rawLines s).map dropCR)).map unlines) := by
  by_cases h : ∀ line ∈ rawLines s, line.length < maxBuffer
  · have hdocs := flush_foldl_scanLine [] [] 1 ((rawLines s).map dropCR)
    rw [split, scanLines_eq h]
    constructor
    · intro hok
      exact ⟨h, (Except.ok.inj hok).symm.trans hdocs⟩
    · rintro ⟨-, rfl⟩
      exact congrArg Except.ok hdocs
  · have hlong : (scanLines maxBuffer s).2 = false := by
      rw [scanLines, all_eq_false]
      push Not at h
      simpa using h
    constructor
    · intro hok
      rw [split, hlong] at hok
      cases hok
    · rintro ⟨hfit, -⟩
      exact absurd hfit h

private theorem isDocumentSeparator_dropCR (line : GoString) :
    isDocumentSeparator (dropCR line) = isDocumentSeparator line := by
  rw [isDocumentSeparator, isDocumentSeparator, trimSpace_dropCR]

/-- The lines of a document: not all are blank, none is a separator, and none has a newline. -/
structure IsDocument (lines : List GoString) : Prop where
  not_blank : lines.all isBlankText = false
  no_separator : ∀ line ∈ lines, isDocumentSeparator line = false
  no_newline : ∀ line ∈ lines, 0x0A ∉ line

private theorem newline_not_mem_scanned {line : GoString} (h : line ∈ (rawLines s).map dropCR) :
    0x0A ∉ line := by
  obtain ⟨raw, hraw, rfl⟩ := mem_map.1 h
  exact fun hmem => not_mem_of_mem_rawLines hraw ((dropCR_isPrefix raw).subset hmem)

private theorem isDocument_of_mem_runs {run : List GoString}
    (h : run ∈ runs ((rawLines s).map dropCR)) :
    IsDocument run := by
  obtain ⟨hblank, hsep, hmem⟩ := of_mem_runsFrom (by simp) h
  exact ⟨hblank, hsep, fun line hline => newline_not_mem_scanned (hmem line hline)⟩

/-- No body that `Split` returns is blank or has a separator. -/
theorem split_bodies (h : split s = .ok docs) :
    ∀ d ∈ docs, trimSpace d.body ≠ [] ∧
      ∀ line ∈ rawLines d.body, isDocumentSeparator line = false := by
  obtain ⟨-, rfl⟩ := split_eq_ok_iff.1 h
  intro d hd
  obtain ⟨run, hrun, hbody⟩ := mem_map.1 (mem_of_mem_number hd)
  have hdoc := isDocument_of_mem_runs hrun
  rw [← hbody, rawLines_unlines hdoc.no_newline]
  refine ⟨?_, hdoc.no_separator⟩
  have hblank := isBlankText_unlines run
  rw [hdoc.not_blank, isBlankText, decide_eq_false_iff_not] at hblank
  exact hblank

private theorem split_intercalate {parts : List (List GoString)}
    (h : ∀ part ∈ parts, IsDocument part)
    (hfit : ∀ part ∈ parts, ∀ line ∈ part, line.length < maxBuffer) :
    split (unlines ([lit "---"].intercalate parts)) =
      .ok (number ((parts.map (·.map dropCR)).map unlines)) := by
  have hlines : rawLines (unlines ([lit "---"].intercalate parts)) =
      [lit "---"].intercalate parts :=
    rawLines_unlines <| forall_mem_intercalate (by decide) fun part hpart =>
      (h part hpart).no_newline
  rw [split_eq_ok_iff, hlines]
  refine ⟨forall_mem_intercalate (by decide) hfit, ?_⟩
  rw [map_intercalate, map_singleton, runs, runsFrom_intercalate (by decide)]
  · intro run hrun
    obtain ⟨part, hpart, rfl⟩ := mem_map.1 hrun
    rw [all_map, ← (h part hpart).not_blank]
    exact congrArg part.all (funext isBlankText_dropCR)
  · intro run hrun line hline
    obtain ⟨part, hpart, rfl⟩ := mem_map.1 hrun
    obtain ⟨raw, hraw, rfl⟩ := mem_map.1 hline
    rw [isDocumentSeparator_dropCR]
    exact (h part hpart).no_separator raw hraw

private theorem map_dropCR (h : ∀ line ∈ lines, 0x0D ∉ line) : lines.map dropCR = lines :=
  (map_congr_left fun line hline => dropCR_of_not_mem (h line hline)).trans (map_id' lines)

/-- The lines of a document without the empty ones at its end. -/
def trimmed (lines : List GoString) : List GoString := lines.rdropWhile (· = [])

private theorem trimmed_isPrefix (lines : List GoString) : trimmed lines <+: lines :=
  rdropWhile_prefix _ _

private theorem trimmed_trimmed (lines : List GoString) : trimmed (trimmed lines) = trimmed lines :=
  rdropWhile_idempotent _ _

private theorem IsDocument.trimmed (h : IsDocument lines) : IsDocument (trimmed lines) := by
  have hsub := (trimmed_isPrefix lines).subset
  refine ⟨?_, fun l hl => h.no_separator l (hsub hl), fun l hl => h.no_newline l (hsub hl)⟩
  -- The lines left out are blank.
  rw [← h.not_blank, Bool.eq_iff_iff, all_eq_true, all_eq_true]
  refine ⟨fun hall line hline => ?_, fun hall line hline => hall line (hsub hline)⟩
  rw [← rdropWhile_append_rtakeWhile (p := fun l : GoString => decide (l = [])) (l := lines)]
    at hline
  rcases mem_append.1 hline with hline | hline
  · exact hall line hline
  · have hempty := mem_rtakeWhile_imp hline
    rw [of_decide_eq_true hempty]
    rfl

private theorem IsDocument.trimmed_ne_nil (h : IsDocument lines) : Manifest.trimmed lines ≠ [] := by
  intro hnil
  have hblank := h.trimmed.not_blank
  rw [hnil] at hblank
  cases hblank

private theorem join_eq {parts : List (List GoString)}
    (hbodies : docs.map Document.body = parts.map unlines) (h : ∀ part ∈ parts, IsDocument part) :
    join docs = unlines ([lit "---"].intercalate (parts.map trimmed)) := by
  have hmap : docs.map (fun d => d.body.rdropWhile (· == 0x0A) ++ [0x0A]) =
      (parts.map trimmed).map unlines := by
    calc docs.map (fun d => d.body.rdropWhile (· == 0x0A) ++ [0x0A])
        = (docs.map Document.body).map fun body => body.rdropWhile (· == 0x0A) ++ [0x0A] := by
          rw [map_map]
          rfl
      _ = parts.map fun part => (unlines part).rdropWhile (· == 0x0A) ++ [0x0A] := by
          rw [hbodies, map_map]
          rfl
      _ = parts.map fun part => unlines (trimmed part) := map_congr_left fun part hpart =>
          rdropWhile_unlines (h part hpart).trimmed_ne_nil (h part hpart).no_newline
      _ = (parts.map trimmed).map unlines := by
          rw [map_map]
          rfl
  rw [join, hmap, unlines_intercalate]
  rfl

private theorem filter_rawLines_bodies (h : ∀ line ∈ rawLines s, line.length < maxBuffer) :
    (rawLines ((number ((runs ((rawLines s).map dropCR)).map unlines)).flatMap
        Document.body)).filter (fun line => !isBlankText line) =
      (scanLines maxBuffer s).1.filter
        (fun line => !isBlankText line && !isDocumentSeparator line) := by
  set parts := runs ((rawLines s).map dropCR) with hparts
  have hbodies : (number (parts.map unlines)).flatMap Document.body = unlines parts.flatten := by
    rw [flatMap_def, map_body_number, unlines_flatten]
  rw [hbodies, rawLines_unlines, scanLines_eq h]
  · exact filter_flatten_runsFrom [] _
  · intro line hline
    obtain ⟨part, hpart, hline⟩ := mem_flatten.1 hline
    exact (isDocument_of_mem_runs hpart).no_newline line hline

private theorem of_mem_map_trimmed {part : List GoString}
    (h : part ∈ (runs ((rawLines s).map dropCR)).map trimmed) :
    IsDocument part ∧ ∀ line ∈ part, ∃ raw ∈ rawLines s, dropCR raw = line := by
  obtain ⟨whole, hwhole, rfl⟩ := mem_map.1 h
  refine ⟨(isDocument_of_mem_runs hwhole).trimmed, fun line hline => ?_⟩
  have hmem := (of_mem_runsFrom (by simp) hwhole).2.2 line ((trimmed_isPrefix whole).subset hline)
  exact mem_map.1 hmem

private theorem split_join_split (h : ∀ line ∈ rawLines s, line.length < maxBuffer)
    (hsplit : split s = .ok docs) :
    ∃ docs', split (join docs) = .ok docs' ∧ docs'.length = docs.length ∧
      (0x0D ∉ s → join docs' = join docs) := by
  obtain ⟨-, rfl⟩ := split_eq_ok_iff.1 hsplit
  set parts := runs ((rawLines s).map dropCR) with hparts
  have hjoin := join_eq (map_body_number (parts.map unlines)) fun part => isDocument_of_mem_runs
  have hagain := split_intercalate (fun part hpart => (of_mem_map_trimmed hpart).1) <| by
    intro part hpart line hline
    obtain ⟨raw, hraw, rfl⟩ := (of_mem_map_trimmed hpart).2 line hline
    exact Nat.lt_of_le_of_lt (dropCR_isPrefix raw).length_le (h raw hraw)
  rw [← hparts] at hagain
  refine ⟨_, hjoin ▸ hagain, by simp, fun hcr => ?_⟩
  have hkeep : (parts.map trimmed).map (·.map dropCR) = parts.map trimmed := by
    refine (map_congr_left fun part hpart => map_dropCR fun line hline => ?_).trans
      (map_id' _)
    obtain ⟨raw, hraw, rfl⟩ := (of_mem_map_trimmed hpart).2 line hline
    exact fun hmem => hcr (mem_of_mem_rawLines hraw _ ((dropCR_isPrefix raw).subset hmem))
  have htwice : (parts.map trimmed).map trimmed = parts.map trimmed := by
    rw [map_map]
    exact map_congr_left fun part _ => trimmed_trimmed part
  rw [hkeep, join_eq (map_body_number _) fun part hpart => (of_mem_map_trimmed hpart).1, htwice,
    hjoin]

/-- Whatever `Split` accepts, it takes apart without loss: the lines that are neither blank nor
separators are in the bodies in their order, no body is blank or has a separator, the documents
are numbered from 1, and joined they are as many documents again, of the same text if the input
had no carriage return. -/
theorem split_lossless (s : GoString) (h : ∀ line ∈ rawLines s, line.length < maxBuffer) :
    ∃ docs, split s = .ok docs ∧
      (rawLines (docs.flatMap Document.body)).filter (fun line => !isBlankText line) =
        (scanLines maxBuffer s).1.filter
          (fun line => !isBlankText line && !isDocumentSeparator line) ∧
      (∀ d ∈ docs, trimSpace d.body ≠ [] ∧
        ∀ line ∈ rawLines d.body, isDocumentSeparator line = false) ∧
      docs.map Document.index = (List.range' 1 docs.length).map Int.ofNat ∧
      ∃ docs', split (join docs) = .ok docs' ∧ docs'.length = docs.length ∧
        (0x0D ∉ s → join docs' = join docs) := by
  have hsplit : split s = .ok (number ((runs ((rawLines s).map dropCR)).map unlines)) :=
    split_eq_ok_iff.2 ⟨h, rfl⟩
  refine ⟨_, hsplit, filter_rawLines_bodies h, split_bodies hsplit, ?_, split_join_split h hsplit⟩
  rw [map_index_number, length_number]

/-- A text with blank documents, an indented separator and empty lines at the ends. -/
theorem split_lossless_sample :
    ∃ docs, split (lit "\n---\na: 1\n\n--- \n ---\nb: 2\n---\n") = .ok docs ∧
      (rawLines (docs.flatMap Document.body)).filter (fun line => !isBlankText line) =
        [lit "a: 1", lit "b: 2"] ∧
      (∀ d ∈ docs, trimSpace d.body ≠ [] ∧
        ∀ line ∈ rawLines d.body, isDocumentSeparator line = false) ∧
      docs.map Document.index = (List.range' 1 docs.length).map Int.ofNat ∧
      ∃ docs', split (join docs) = .ok docs' ∧ docs'.length = docs.length ∧
        join docs' = join docs := by
  obtain ⟨docs, hsplit, hlines, hbodies, hindex, docs', hagain, hlength, hjoin⟩ :=
    split_lossless (lit "\n---\na: 1\n\n--- \n ---\nb: 2\n---\n") (by decide)
  exact ⟨docs, hsplit, hlines.trans (by decide), hbodies, hindex, docs', hagain, hlength,
    hjoin (by decide)⟩

/-- A document that YAML reads as one: it has a character that is not blank, ends in exactly one
newline, has lines that fit into the buffer and no carriage returns, and no line begins with
`---`. -/
structure OneDocument (body : GoString) : Prop where
  not_blank : trimSpace body ≠ []
  ends : ∃ text, body = text ++ [0x0A] ∧ text.getLast? ≠ some 0x0A
  fits : ∀ line ∈ rawLines body, line.length < maxBuffer
  no_cr : 0x0D ∉ body
  no_marker : ∀ line ∈ rawLines body, ¬ lit "---" <+: line

private theorem OneDocument.unlines_rawLines (h : OneDocument body) :
    unlines (rawLines body) = body := by
  obtain ⟨text, rfl, -⟩ := h.ends
  exact unlines_rawLines_concat text

private theorem OneDocument.trimRight (h : OneDocument body) :
    body.rdropWhile (· == 0x0A) ++ [0x0A] = body := by
  obtain ⟨text, rfl, hlast⟩ := h.ends
  have htext : text.rdropWhile (· == 0x0A) = text := by
    rw [rdropWhile_eq_self_iff]
    intro hne hnl
    rw [beq_iff_eq] at hnl
    exact hlast (hnl ▸ getLast?_eq_some_getLast hne)
  rw [rdropWhile_concat_pos _ _ _ (by decide), htext]

private theorem OneDocument.isDocument (h : OneDocument body)
    (hsep : ∀ line ∈ rawLines body, isDocumentSeparator line = false) :
    IsDocument (rawLines body) := by
  refine ⟨?_, hsep, fun line => not_mem_of_mem_rawLines⟩
  rw [← isBlankText_unlines, h.unlines_rawLines, isBlankText, decide_eq_false_iff_not]
  exact h.not_blank

/-- Joined documents are split into the same bodies, numbered from 1, exactly if no line of theirs
is `---` between white space. -/
theorem split_join_iff (docs : List Document) (h : ∀ d ∈ docs, OneDocument d.body) :
    split (join docs) = .ok (number (docs.map Document.body)) ↔
      ∀ d ∈ docs, ∀ line ∈ rawLines d.body, trimSpace line ≠ lit "---" := by
  have hseparator : ∀ line, isDocumentSeparator line = false ↔ trimSpace line ≠ lit "---" :=
    fun line => decide_eq_false_iff_not
  simp only [← hseparator]
  constructor
  · intro hsplit d hd
    have hmem : d.body ∈ (number (docs.map Document.body)).map Document.body := by
      rw [map_body_number]
      exact mem_map_of_mem hd
    obtain ⟨d', hd', hbody⟩ := mem_map.1 hmem
    rw [← hbody]
    exact (split_bodies hsplit d' hd').2
  · intro hsep
    set parts := docs.map fun d => rawLines d.body with hparts
    have hbodies : parts.map unlines = docs.map Document.body := by
      rw [hparts, map_map]
      exact map_congr_left fun d hd => (h d hd).unlines_rawLines
    have hjoin : join docs = unlines ([lit "---"].intercalate parts) := by
      rw [unlines_intercalate, hbodies, join]
      exact congrArg _ (map_congr_left fun d hd => (h d hd).trimRight)
    have hof : ∀ {P : List GoString → Prop}, (∀ d ∈ docs, P (rawLines d.body)) →
        ∀ part ∈ parts, P part := fun hP => forall_mem_map.2 hP
    have hkeep : parts.map (·.map dropCR) = parts := by
      refine (map_congr_left ?_).trans (map_id' parts)
      exact hof fun d hd => map_dropCR fun line hline hcr =>
        (h d hd).no_cr (mem_of_mem_rawLines hline _ hcr)
    rw [hjoin, split_intercalate (hof fun d hd => (h d hd).isDocument (hsep d hd))
      (hof fun d hd => (h d hd).fits), hkeep, hbodies]

/-- A script in a block scalar with an indented `---` is cut in two. -/
theorem block_scalar_cut :
    OneDocument (lit "run: |\n  ls\n  ---\n  ps\n") ∧
      split (join [⟨1, lit "run: |\n  ls\n  ---\n  ps\n"⟩]) =
        .ok [⟨1, lit "run: |\n  ls\n"⟩, ⟨2, lit "  ps\n"⟩] := by
  refine ⟨⟨by decide, ⟨lit "run: |\n  ls\n  ---\n  ps", by decide, by decide⟩, by decide,
    by decide, by decide⟩, by decide⟩

/-- Two documents, one with dashes in it; the numbers are given anew. -/
theorem split_join_two :
    split (join [⟨7, lit "a: 1\n"⟩, ⟨7, lit "\nb: --- 2\n"⟩]) =
      .ok [⟨1, lit "a: 1\n"⟩, ⟨2, lit "\nb: --- 2\n"⟩] := by
  refine (split_join_iff [⟨7, lit "a: 1\n"⟩, ⟨7, lit "\nb: --- 2\n"⟩] ?_).2 (by decide)
  intro d hd
  rcases mem_pair.1 hd with rfl | rfl
  · exact ⟨by decide, ⟨lit "a: 1", by decide, by decide⟩, by decide, by decide, by decide⟩
  · exact ⟨by decide, ⟨lit "\nb: --- 2", by decide, by decide⟩, by decide, by decide, by decide⟩

end Athos.Manifest
