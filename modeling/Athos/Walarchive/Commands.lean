import Athos.Base.Strings
import Athos.Server.Placeholders
import Athos.Shell.Words

/-!
# Archive and restore commands

`ArchiveCommand` and `RestoreCommand` of `src/internal/walarchive/walarchive.go`. PostgreSQL puts
file names into the command and hands it to a shell. The URL is not quoted at all for WAL-G; for
Barman it is quoted only where one of five bytes occurs, and the percent sign is never doubled.
-/

namespace Athos.Walarchive

open Base Shell Server.Placeholders List Option

/-- `Provider`; `walarchive.go:33-44`. -/
inductive Provider where
  | s3
  | gcs
  | azure
  | file
  | unknown (name : GoString)
  deriving DecidableEq

/-- The text of a provider. -/
def Provider.text : Provider → GoString
  | .s3 => lit "s3"
  | .gcs => lit "gcs"
  | .azure => lit "azure"
  | .file => lit "file"
  | .unknown name => name

/-- `Endpoint`; `walarchive.go:49-57`. -/
structure Endpoint where
  provider : Provider
  bucket : GoString := []
  prefix_ : GoString := []
  endpoint : GoString := []
  path : GoString := []
  deriving DecidableEq

/-- `Tool`; `walarchive.go:102-110`. -/
inductive Tool where
  | walg
  | barman
  | unknown (name : GoString)
  deriving DecidableEq

/-- The text of a tool. -/
def Tool.text : Tool → GoString
  | .walg => lit "wal-g"
  | .barman => lit "barman"
  | .unknown name => name

/-- `Validate`; `walarchive.go:60-74`. -/
def Endpoint.validate (T : RuneTables) (e : Endpoint) : Except GoString Unit :=
  match e.provider with
  | .s3 | .gcs | .azure =>
    if e.bucket = [] then
      .error (lit "walarchive: bucket is required for provider " ++ goQuote T e.provider.text)
    else .ok ()
  | .file =>
    if e.path = [] then .error (lit "walarchive: path is required for provider file") else .ok ()
  | .unknown _ => .error (lit "walarchive: unknown provider " ++ goQuote T e.provider.text)

/-- `joinURL`; `walarchive.go:93-100`. -/
def joinURL (scheme bucket key : GoString) : GoString :=
  let key := (trimSpace key).dropWhile (· == 0x2F)
  if key ≠ [] then scheme ++ bucket ++ lit "/" ++ key else scheme ++ bucket

/-- `URL`; `walarchive.go:76-91`. -/
def Endpoint.url (e : Endpoint) : GoString :=
  match e.provider with
  | .s3 => joinURL (lit "s3://") e.bucket e.prefix_
  | .gcs => joinURL (lit "gs://") e.bucket e.prefix_
  | .azure => joinURL (lit "azure://") e.bucket e.prefix_
  | .file => lit "file://" ++ e.path.rdropWhile (· == 0x2F)
  | .unknown _ => []

/-- `shellQuote`; `walarchive.go:148-156`. -/
def shellQuote (s : GoString) : GoString :=
  if s = [] then lit "''"
  else if ¬ s.any (lit " '\"$\\").contains then s
  else lit "'" ++ replaceByte 0x27 (lit "'\\''") s ++ lit "'"

/-- `ArchiveCommand`; `walarchive.go:112-129`. -/
def archiveCommand (T : RuneTables) (tool : Tool) (ep : Endpoint) : Except GoString GoString := do
  ep.validate T
  match tool with
  | .walg => return lit "WALE_S3_PREFIX=" ++ ep.url ++ lit " wal-g wal-push %p"
  | .barman =>
    return lit "barman-cloud-wal-archive --endpoint-url " ++ shellQuote ep.endpoint ++ lit " " ++
      shellQuote ep.url ++ lit " %p"
  | .unknown _ => .error (lit "walarchive: unknown tool " ++ goQuote T tool.text)

/-- `RestoreCommand`; `walarchive.go:131-146`. -/
def restoreCommand (T : RuneTables) (tool : Tool) (ep : Endpoint) : Except GoString GoString := do
  ep.validate T
  match tool with
  | .walg => return lit "WALE_S3_PREFIX=" ++ ep.url ++ lit " wal-g wal-fetch %f %p"
  | .barman =>
    return lit "barman-cloud-wal-restore --endpoint-url " ++ shellQuote ep.endpoint ++ lit " " ++
      shellQuote ep.url ++ lit " %f %p"
  | .unknown _ => .error (lit "walarchive: unknown tool " ++ goQuote T tool.text)

/-! ### What is run -/

/-- The two settings. -/
inductive Operation where
  | archive
  | restore
  deriving DecidableEq

/-- The command of a setting. -/
def command (T : RuneTables) : Operation → Tool → Endpoint → Except GoString GoString
  | .archive => archiveCommand T
  | .restore => restoreCommand T

/-- The names of the files that PostgreSQL puts in: the segment, its path, and the segment of
the last restart point. -/
structure Files where
  segment : GoString
  path : GoString
  restartPoint : GoString
  deriving DecidableEq

/-- Letters, digits, underscore, dot and slash. -/
def isFileByte (b : UInt8) : Bool := isNameByte b || b == 0x2E || b == 0x2F

/-- Such bytes, and at least one. -/
def IsFileName (s : GoString) : Prop := s ≠ [] ∧ ∀ b ∈ s, isFileByte b = true

instance (s : GoString) : Decidable (IsFileName s) := inferInstanceAs (Decidable (_ ∧ _))

/-- All three are file names. -/
def Files.Named (files : Files) : Prop :=
  IsFileName files.segment ∧ IsFileName files.path ∧ IsFileName files.restartPoint

instance (files : Files) : Decidable files.Named := inferInstanceAs (Decidable (_ ∧ _))

/-- The placeholders of a setting. -/
def Operation.names (op : Operation) (files : Files) : Names :=
  match op with
  | .archive => [(0x66, files.segment), (0x70, files.path)]
  | .restore => [(0x66, files.segment), (0x72, files.restartPoint), (0x70, files.path)]

/-- The arguments that name files. -/
def Operation.arguments (op : Operation) (files : Files) : List GoString :=
  match op with
  | .archive => [files.path]
  | .restore => [files.segment, files.path]

/-- The command that is run for the text of a setting. -/
def runs (strict : Bool) (op : Operation) (files : Files) (text : GoString) : Option Command :=
  (substitute strict (op.names files) text).bind parse

/-- The command that is meant. -/
def intended (op : Operation) (tool : Tool) (ep : Endpoint) (files : Files) : Command :=
  match tool, op with
  | .walg, .archive =>
    ⟨[(lit "WALE_S3_PREFIX", ep.url)], lit "wal-g" :: lit "wal-push" :: op.arguments files⟩
  | .walg, .restore =>
    ⟨[(lit "WALE_S3_PREFIX", ep.url)], lit "wal-g" :: lit "wal-fetch" :: op.arguments files⟩
  | .barman, .archive =>
    ⟨[], lit "barman-cloud-wal-archive" :: lit "--endpoint-url" :: ep.endpoint :: ep.url ::
      op.arguments files⟩
  | .barman, .restore =>
    ⟨[], lit "barman-cloud-wal-restore" :: lit "--endpoint-url" :: ep.endpoint :: ep.url ::
      op.arguments files⟩
  | .unknown name, _ => ⟨[], [name]⟩

/-- A text that Barman's commands keep as one word: it is quoted, or needs no quotes. -/
def WordSafe (s : GoString) : Prop :=
  (∃ b ∈ s, b ∈ lit " '\"$\\") ∨
    (∀ b ∈ s, isWordByte b = true) ∧ isPattern (plain s) = false ∧
      s.head? ≠ some 0x7E ∧ s.head? ≠ some 0x23

instance (s : GoString) : Decidable (WordSafe s) := inferInstanceAs (Decidable (_ ∨ _))

/-- A text that WAL-G's commands keep as a value: it needs no quotes. -/
def ValueSafe (s : GoString) : Prop :=
  (∀ b ∈ s, isWordByte b = true) ∧ ¬ [0x3A, 0x7E] <:+: s

instance (s : GoString) : Decidable (ValueSafe s) := inferInstanceAs (Decidable (_ ∧ _))

/-- The letters of the placeholders of a setting. -/
def Operation.letters : Operation → List UInt8
  | .archive => [0x66, 0x70]
  | .restore => [0x66, 0x72, 0x70]

/-- PostgreSQL and the shell leave the texts of the command as they are. -/
def Safe (strict : Bool) (op : Operation) (tool : Tool) (ep : Endpoint) : Prop :=
  match tool with
  | .walg => Untouched strict op.letters ep.url ∧ ValueSafe ep.url
  | .barman =>
    Untouched strict op.letters ep.endpoint ∧ Untouched strict op.letters ep.url ∧
      WordSafe ep.endpoint ∧ WordSafe ep.url
  | .unknown _ => True

instance (strict : Bool) (op : Operation) (tool : Tool) (ep : Endpoint) :
    Decidable (Safe strict op tool ep) :=
  match tool with
  | .walg => inferInstanceAs (Decidable (_ ∧ _))
  | .barman => inferInstanceAs (Decidable (_ ∧ _))
  | .unknown _ => inferInstanceAs (Decidable True)

/-! ### Quoting -/

section Quoting

variable {s rest : GoString} {ws : List Word} {more : List GoString}

/-- The text is empty or has one of the five bytes for which it is put in quotes. -/
def IsQuoted (s : GoString) : Prop := s = [] ∨ ∃ b ∈ s, b ∈ lit " '\"$\\"

private theorem shellQuote_of_quoted (h : IsQuoted s) : shellQuote s = singleQuote s := by
  rw [shellQuote]
  by_cases hempty : s = []
  · subst hempty
    rfl
  · have hany : s.any (lit " '\"$\\").contains = true := by
      obtain ⟨b, hb, hspecial⟩ := h.resolve_left hempty
      exact List.any_eq_true.2 ⟨b, hb, contains_iff_mem.2 hspecial⟩
    rw [if_neg hempty, if_neg (not_not.2 hany)]
    rfl

private theorem shellQuote_of_not_quoted (h : ¬ IsQuoted s) : shellQuote s = s := by
  rw [IsQuoted, not_or] at h
  have hany : ¬ s.any (lit " '\"$\\").contains = true := by
    rw [List.any_eq_true]
    rintro ⟨b, hb, hspecial⟩
    exact h.2 ⟨b, hb, contains_iff_mem.1 hspecial⟩
  rw [shellQuote, if_neg h.1, if_pos hany]

-- The text between the quotes.
private def quotedText (s : GoString) : GoString := replaceByte 0x27 [0x27, 0x5C, 0x27, 0x27] s

private theorem quotedText_quote (s : GoString) :
    quotedText (0x27 :: s) = 0x27 :: 0x5C :: 0x27 :: 0x27 :: quotedText s := rfl

private theorem quotedText_cons {b : UInt8} (hb : b ≠ 0x27) (s : GoString) :
    quotedText (b :: s) = b :: quotedText s := by
  rw [quotedText, replaceByte, flatMap_cons, if_neg hb]
  rfl

private theorem count_quotedText {b : UInt8} (hquote : b ≠ 0x27) (hslash : b ≠ 0x5C)
    (s : GoString) : (quotedText s).count b = s.count b := by
  induction s with
  | nil => rfl
  | cons c s ih =>
    by_cases hc : c = 0x27
    · subst hc
      simp only [quotedText_quote, count_cons_of_ne hquote.symm, count_cons_of_ne hslash.symm, ih]
    · rw [quotedText_cons hc, count_cons, count_cons, ih]

private theorem count_shellQuote {b : UInt8} (hquote : b ≠ 0x27) (hslash : b ≠ 0x5C)
    (s : GoString) :
    (shellQuote s).count b = s.count b := by
  by_cases h : IsQuoted s
  · rw [shellQuote_of_quoted h, singleQuote, count_cons_of_ne hquote.symm, count_append,
      ← quotedText, count_quotedText hquote hslash, count_cons_of_ne hquote.symm,
      count_nil, Nat.add_zero]
  · rw [shellQuote_of_not_quoted h]

private theorem untouched_quotedText {strict : Bool} {ls : List UInt8} (hquote : 0x27 ∉ ls)
    (s : GoString) : Untouched strict ls (quotedText s ++ [0x27]) ↔ Untouched strict ls s := by
  have hnot : 0x27 ∉ 0x25 :: ls := by simpa using hquote
  induction s using pieces_induction with
  | nil => exact untouched_cons (by decide)
  | last =>
    rw [quotedText_cons (by decide)]
    have hlast : Untouched strict ls (0x25 :: 0x27 :: []) ↔ strict = false := by
      rw [untouched_pair]
      simp [hnot, Untouched]
    have hone : Untouched strict ls [0x25] ↔ strict = false := by
      cases strict <;> simp [Untouched, infix_cons_iff]
    exact hlast.trans hone.symm
  | pair c s ih =>
    have ih : Untouched strict ls (quotedText s ++ [0x27]) ↔ Untouched strict ls s := ih
    rw [quotedText_cons (by decide)]
    by_cases hc : c = 0x27
    · subst hc
      simp only [quotedText_quote, cons_append, untouched_pair]
      rw [untouched_cons (by decide), untouched_cons (by decide), untouched_cons (by decide), ih]
    · simp only [quotedText_cons hc, cons_append, untouched_pair, ih]
  | byte c s hc ih =>
    have ih : Untouched strict ls (quotedText s ++ [0x27]) ↔ Untouched strict ls s := ih
    by_cases hquote : c = 0x27
    · subst hquote
      simp only [quotedText_quote, cons_append]
      rw [untouched_cons (by decide), untouched_cons (by decide), untouched_cons (by decide),
        untouched_cons (by decide), untouched_cons (by decide), ih]
    · rw [quotedText_cons hquote, cons_append, untouched_cons hc, untouched_cons hc, ih]

private theorem untouched_shellQuote {strict : Bool} {ls : List UInt8} (hquote : 0x27 ∉ ls)
    (s : GoString) : Untouched strict ls (shellQuote s) ↔ Untouched strict ls s := by
  by_cases h : IsQuoted s
  · rw [shellQuote_of_quoted h, singleQuote, untouched_cons (by decide)]
    exact untouched_quotedText hquote s
  · rw [shellQuote_of_not_quoted h]

private theorem wordsFrom_shellQuote (h : WordSafe s) :
    ∃ w, fixedWord w = some s ∧ ∀ rest, wordsFrom .blank (shellQuote s ++ 0x20 :: rest) =
      (wordsFrom .blank rest).map (w :: ·) := by
  by_cases hquoted : IsQuoted s
  · rw [shellQuote_of_quoted hquoted]
    exact ⟨quoted s, fixedWord_quoted s, wordsFrom_word (transduces_singleQuote s)⟩
  · rw [shellQuote_of_not_quoted hquoted]
    rw [IsQuoted, not_or] at hquoted
    obtain ⟨hbytes, hpattern, htilde, hcomment⟩ := h.resolve_left hquoted.2
    refine ⟨plain s, fixedWord_plain_iff.2 ⟨htilde, hpattern⟩, ?_⟩
    exact wordsFrom_word (transduces_plain hbytes hquoted.1 hcomment)

private theorem wordSafe_of_wordsFrom
    (hrest : ∀ b ∈ s, b ≠ 0x20 → b ≠ 0x27 → b ≠ 0x5C →
      rest.count b ≤ (more.map (·.count b)).sum)
    (h : wordsFrom .blank (shellQuote s ++ 0x20 :: rest) = some ws)
    (hfixed : ws.mapM fixedWord = some (s :: more)) : WordSafe s := by
  by_cases hquoted : IsQuoted s
  · rcases hquoted with rfl | hquoted
    · exact .inr ⟨nofun, rfl, nofun, nofun⟩
    · exact .inl hquoted
  · rw [shellQuote_of_not_quoted hquoted] at h
    rw [IsQuoted, not_or] at hquoted
    have hbytes : ∀ b ∈ s, b ≠ 0x20 ∧ isQuote b = false := by
      intro b hb
      have hnot : b ∉ lit " '\"$\\" := fun hspecial => hquoted.2 ⟨b, hb, hspecial⟩
      have hlit : lit " '\"$\\" = [0x20, 0x27, 0x22, 0x24, 0x5C] := rfl
      simp only [hlit, mem_cons, not_mem_nil, or_false, not_or] at hnot
      simp [isQuote, hnot]
    have hothers : ∀ b ∈ s, rest.count b ≤ (more.map (·.count b)).sum := by
      intro b hb
      obtain ⟨hspace, hquote⟩ := hbytes b hb
      simp only [isQuote, Bool.or_eq_false_iff, beq_eq_false_iff_ne] at hquote
      exact hrest b hb hspace hquote.1.1 hquote.2
    obtain ⟨hword, hcomment, hfixed⟩ :=
      wordByte_of_wordsFrom (fun b hb => (hbytes b hb).2) hquoted.1 hothers h hfixed
    obtain ⟨htilde, hpattern⟩ := fixedWord_plain_iff.1 hfixed
    exact .inr ⟨hword, hpattern, htilde, hcomment⟩

end Quoting

/-! ### File names -/

section FileNames

variable {op : Operation} {files : Files} {strict : Bool}

private theorem isFileByte_spec {b : UInt8} (h : isFileByte b = true) :
    isWordByte b = true ∧ b ∉ lit "*?[" := by
  have hnot : ∀ c, isFileByte c = false → b ≠ c := by
    rintro c hc rfl
    rw [h] at hc
    cases hc
  have hpattern : lit "*?[" = [0x2A, 0x3F, 0x5B] := rfl
  simp only [isWordByte, Shell.isBlank, isOperator, isQuote, isExpansion, Bool.not_eq_true',
    Bool.or_eq_false_iff, beq_eq_false_iff_ne, hpattern, mem_cons, not_mem_nil, or_false, not_or]
  and_intros <;> exact hnot _ rfl

private theorem fixed_fileName {s : GoString} (h : IsFileName s) :
    (∀ b ∈ s, isWordByte b = true) ∧ s.head? ≠ some 0x23 ∧ fixedWord (plain s) = some s := by
  have hhead : ∀ c, isFileByte c = false → s.head? ≠ some c := by
    intro c hc hs
    rw [h.2 c (mem_of_head? hs)] at hc
    cases hc
  refine ⟨fun b hb => (isFileByte_spec (h.2 b hb)).1, hhead _ rfl, ?_⟩
  have hpattern : isPattern (plain s) = false :=
    isPattern_plain fun b hb => (isFileByte_spec (h.2 b hb)).2
  exact fixedWord_plain_iff.2 ⟨hhead _ rfl, hpattern⟩

private theorem not_mem_fileName {s : GoString} (h : IsFileName s) {b : UInt8}
    (hb : isFileByte b = false) : b ∉ s := by
  intro hmem
  rw [h.2 b hmem] at hb
  cases hb

private theorem transduces_fileName {s : GoString} (h : IsFileName s) :
    Transduces step .blank s (.word (plain s).reverse) [] := by
  obtain ⟨hbytes, hcomment, -⟩ := fixed_fileName h
  exact transduces_plain hbytes h.1 hcomment

/-- The end of a command, before the names are put in. -/
def slots : Operation → GoString
  | .archive => lit "%p"
  | .restore => lit "%f %p"

/-- The end of a command. -/
def Operation.tail (op : Operation) (files : Files) : GoString :=
  match op with
  | .archive => files.path
  | .restore => files.segment ++ 0x20 :: files.path

private theorem substitute_slots :
    substitute strict (op.names files) (slots op) = some (op.tail files) := by
  cases op with
  | archive =>
    show some (files.path ++ []) = some files.path
    rw [append_nil]
  | restore =>
    show some (files.segment ++ 0x20 :: (files.path ++ [])) =
      some (files.segment ++ 0x20 :: files.path)
    rw [append_nil]

private theorem letters_names : Server.Placeholders.letters (op.names files) = op.letters := by
  cases op <;> rfl

private theorem not_mem_names (h : files.Named) : ∀ n ∈ op.names files, 0x25 ∉ n.2 := by
  obtain ⟨hsegment, hpath, hrestart⟩ := h
  have hpercent : ∀ {s}, IsFileName s → 0x25 ∉ s := fun hs => not_mem_fileName hs rfl
  cases op with
  | archive => simp [Operation.names, hpercent hsegment, hpercent hpath]
  | restore => simp [Operation.names, hpercent hsegment, hpercent hpath, hpercent hrestart]

private theorem wordsFrom_tail (h : files.Named) :
    wordsFrom .blank (op.tail files) = some ((op.arguments files).map plain) := by
  obtain ⟨hsegment, hpath, -⟩ := h
  have hlast := wordsFrom_last (transduces_fileName hpath)
  cases op with
  | archive => exact hlast
  | restore =>
    rw [Operation.tail, wordsFrom_word (transduces_fileName hsegment), hlast]
    rfl

private theorem mapM_arguments (h : files.Named) :
    ((op.arguments files).map plain).mapM fixedWord = some (op.arguments files) := by
  obtain ⟨hsegment, hpath, -⟩ := h
  have hlast : [plain files.path].mapM fixedWord = some [files.path] :=
    mapM_fixedWord_cons.2 ⟨_, _, (fixed_fileName hpath).2.2, rfl, rfl⟩
  cases op with
  | archive => exact hlast
  | restore => exact mapM_fixedWord_cons.2 ⟨_, _, (fixed_fileName hsegment).2.2, hlast, rfl⟩

private theorem countP_tail {P : UInt8 → Bool} (hP : P 0x20 = false) :
    (op.tail files).countP P = ((op.arguments files).map (·.countP P)).sum := by
  cases op with
  | archive => simp [Operation.tail, Operation.arguments]
  | restore => simp [Operation.tail, Operation.arguments, hP]

end FileNames

/-! ### Commands -/

section Commands

variable {T : RuneTables} {strict : Bool} {op : Operation} {ep : Endpoint} {files : Files}
  {cmd : GoString}

/-- The program and what comes before its variable arguments. -/
def program : Tool → Operation → List GoString
  | .walg, .archive => [lit "wal-g", lit "wal-push"]
  | .walg, .restore => [lit "wal-g", lit "wal-fetch"]
  | .barman, .archive => [lit "barman-cloud-wal-archive", lit "--endpoint-url"]
  | .barman, .restore => [lit "barman-cloud-wal-restore", lit "--endpoint-url"]
  | .unknown _, _ => []

/-- Words, each with a blank. -/
def spaced (ws : List GoString) : GoString := ws.flatMap (· ++ [0x20])

private theorem countP_spaced {P : UInt8 → Bool} (hP : P 0x20 = false) (ws : List GoString) :
    (spaced ws).countP P = (ws.map (·.countP P)).sum := by
  induction ws with
  | nil => rfl
  | cons w ws ih =>
    rw [spaced, flatMap_cons, ← spaced, List.countP_append, ih]
    simp [hP]

private theorem program_spec (tool : Tool) (op : Operation) :
    0x25 ∉ spaced (program tool op) ∧
      Transduces step .blank (spaced (program tool op)) .blank ((program tool op).map plain) ∧
      ((program tool op).map plain).mapM fixedWord = some (program tool op) := by
  cases tool with
  | walg | barman => cases op <;> exact ⟨by decide, rfl, rfl⟩
  | unknown => cases op <;> exact ⟨not_mem_nil, rfl, rfl⟩

private theorem of_validated {result : Except GoString GoString}
    (h : (ep.validate T >>= fun _ => result) = .ok cmd) : result = .ok cmd := by
  cases hvalid : ep.validate T with
  | error e =>
    rw [hvalid] at h
    cases h
  | ok =>
    rw [hvalid] at h
    exact h

private theorem command_walg (h : command T op .walg ep = .ok cmd) :
    cmd = lit "WALE_S3_PREFIX=" ++ (ep.url ++ 0x20 :: (spaced (program .walg op) ++ slots op)) := by
  cases op <;> rw [← Except.ok.inj (of_validated h), append_assoc] <;> rfl

private theorem command_barman (h : command T op .barman ep = .ok cmd) :
    cmd = spaced (program .barman op) ++
      (shellQuote ep.endpoint ++ 0x20 :: (shellQuote ep.url ++ 0x20 :: slots op)) := by
  cases op <;> rw [← Except.ok.inj (of_validated h)] <;> simp only [append_assoc] <;> rfl

private theorem command_unknown (name : GoString) : command T op (.unknown name) ep ≠ .ok cmd := by
  intro h
  cases op <;> cases of_validated h

private theorem intended_walg : intended op .walg ep files =
    ⟨[(lit "WALE_S3_PREFIX", ep.url)], program .walg op ++ op.arguments files⟩ := by
  cases op <;> rfl

private theorem intended_barman : intended op .barman ep files =
    ⟨[], program .barman op ++ ep.endpoint :: ep.url :: op.arguments files⟩ := by
  cases op <;> rfl

variable {s a : GoString}

private theorem blank_not_letter : 0x20 ∉ 0x25 :: letters (op.names files) := by
  rw [letters_names]
  cases op <;> decide

private theorem substitute_safe (h : Untouched strict op.letters s) :
    substitute strict (op.names files) (s ++ [0x20]) = some (s ++ [0x20]) := by
  rw [← letters_names] at h
  exact substitute_of_untouched blank_not_letter h

private theorem count_substitute_le (hfiles : files.Named)
    (h : substitute strict (op.names files) (s ++ [0x20]) = some a) :
    a.count 0x25 ≤ s.count 0x25 :=
  (count_substitute (not_mem_names hfiles) blank_not_letter h).1

private theorem safe_of_count (hfiles : files.Named)
    (h : substitute strict (op.names files) (s ++ [0x20]) = some a)
    (hcount : s.count 0x25 ≤ a.count 0x25) :
    Untouched strict op.letters s ∧ a = s ++ [0x20] := by
  have hsafe : Untouched strict op.letters s := by
    by_contra hnot
    rw [← letters_names] at hnot
    have hfewer := (count_substitute (not_mem_names hfiles) blank_not_letter h).2 hnot
    omega
  rw [substitute_safe hsafe] at h
  exact ⟨hsafe, (some.inj h).symm⟩

private theorem head_url (ep : Endpoint) : ep.url.head? ≠ some 0x7E := by
  have hjoin : ∀ {scheme bucket key : GoString} {b : UInt8}, scheme.head? = some b → b ≠ 0x7E →
      (joinURL scheme bucket key).head? ≠ some 0x7E := by
    intro scheme bucket key b hscheme hb
    unfold joinURL
    extract_lets key
    split_ifs <;> simp [head?_append, hscheme, hb]
  unfold Endpoint.url
  split
  · exact hjoin (b := 0x73) rfl (by decide)
  · exact hjoin (b := 0x67) rfl (by decide)
  · exact hjoin (b := 0x61) rfl (by decide)
  · have hscheme : (lit "file://").head? = some 0x66 := rfl
    simp [head?_append, hscheme]
  · simp

end Commands

/-! ### WAL-G -/

section Walg

variable {strict : Bool} {op : Operation} {ep : Endpoint} {files : Files}

private theorem substitute_walg (s : GoString) :
    substitute strict (op.names files)
        (lit "WALE_S3_PREFIX=" ++ (s ++ 0x20 :: (spaced (program .walg op) ++ slots op))) =
      (substitute strict (op.names files) (s ++ [0x20])).map fun a =>
        lit "WALE_S3_PREFIX=" ++ (a ++ (spaced (program .walg op) ++ op.tail files)) := by
  rw [substitute_fixed (by decide), substitute_append (by decide),
    substitute_fixed (program_spec _ _).1, substitute_slots]
  cases substitute strict (op.names files) (s ++ [0x20]) <;> rfl

private theorem countP_walg {P : UInt8 → Bool} (hP : P 0x20 = false) (op : Operation)
    (ep : Endpoint) (files : Files) (a : GoString) :
    (lit "WALE_S3_PREFIX=" ++ (a ++ (spaced (program .walg op) ++ op.tail files))).countP P +
        ep.url.countP P = (intended op .walg ep files).countP P + a.countP P := by
  have hname : lit "WALE_S3_PREFIX=" = lit "WALE_S3_PREFIX" ++ [0x3D] := rfl
  have hvalue : (0x3D :: ep.url).countP P = [0x3D].countP P + ep.url.countP P := by
    rw [← List.countP_append, singleton_append]
  rw [intended_walg, Command.countP, hname]
  simp only [List.countP_append, countP_spaced hP, countP_tail hP, map_cons, map_nil,
    map_append, sum_append, sum_cons, sum_nil, hvalue]
  omega

private theorem safe_of_runs_walg (hfiles : files.Named)
    (h : runs strict op files
        (lit "WALE_S3_PREFIX=" ++ (ep.url ++ 0x20 :: (spaced (program .walg op) ++ slots op))) =
      some (intended op .walg ep files)) :
    Untouched strict op.letters ep.url ∧ ValueSafe ep.url := by
  rw [runs, substitute_walg] at h
  obtain ⟨line, hline, hparse⟩ := bind_eq_some_iff.1 h
  obtain ⟨a, ha, rfl⟩ := map_eq_some_iff.1 hline
  have hpercent : ep.url.count 0x25 ≤ a.count 0x25 := by
    have hle := countP_le_of_parse (· == 0x25) hparse
    have hsame := countP_walg (P := (· == 0x25)) rfl op ep files a
    unfold List.count
    omega
  obtain ⟨huntouched, rfl⟩ := safe_of_count hfiles ha hpercent
  -- The line has the URL as it is, so if it is the value then no quotes are lost.
  have hsame := countP_walg (P := isQuote) rfl op ep files (ep.url ++ [0x20])
  have hblank : (ep.url ++ [0x20]).countP isQuote = ep.url.countP isQuote := by
    rw [List.countP_append]
    rfl
  rw [intended_walg] at hparse hsame
  obtain ⟨hbytes, hvalue⟩ := value_of_parse hparse (by omega)
  exact ⟨huntouched, hbytes, (fixedValue_plain_iff.1 hvalue).2⟩

private theorem wordsFrom_walg (hfiles : files.Named) (hbytes : ∀ b ∈ ep.url, isWordByte b = true) :
    wordsFrom .blank (lit "WALE_S3_PREFIX=" ++
        (ep.url ++ [0x20] ++ (spaced (program .walg op) ++ op.tail files))) =
      some (plain (lit "WALE_S3_PREFIX=" ++ ep.url) ::
        ((program .walg op).map plain ++ (op.arguments files).map plain)) := by
  have hname : ∀ b ∈ lit "WALE_S3_PREFIX=", isWordByte b = true := forall_mem_of_all (by decide)
  have hfirst : ∀ b ∈ lit "WALE_S3_PREFIX=" ++ ep.url, isWordByte b = true :=
    forall_mem_append.2 ⟨hname, hbytes⟩
  have hhead : (lit "WALE_S3_PREFIX=" ++ ep.url).head? = some 0x57 := rfl
  have hne : lit "WALE_S3_PREFIX=" ++ ep.url ≠ [] := by
    intro hnil
    rw [hnil] at hhead
    cases hhead
  have hword := transduces_plain hfirst hne (by rw [hhead]; decide)
  have hread := wordsFrom_word hword (spaced (program .walg op) ++ op.tail files)
  rw [wordsFrom_append (program_spec .walg op).2.1, wordsFrom_tail hfiles] at hread
  simpa using hread

private theorem runs_walg_of_safe (hfiles : files.Named)
    (hpercent : Untouched strict op.letters ep.url) (hvalue : ValueSafe ep.url) :
    runs strict op files
        (lit "WALE_S3_PREFIX=" ++ (ep.url ++ 0x20 :: (spaced (program .walg op) ++ slots op))) =
      some (intended op .walg ep files) := by
  have hsplit : splitAssignment (plain (lit "WALE_S3_PREFIX=" ++ ep.url)) =
      some (lit "WALE_S3_PREFIX", plain ep.url) := rfl
  have hmap : ((program .walg op).map plain ++ (op.arguments files).map plain).mapM fixedWord =
      some (program .walg op ++ op.arguments files) := by
    rw [mapM_append, (program_spec .walg op).2.2, mapM_arguments hfiles]
    rfl
  have hrest : fixed ((program .walg op).map plain ++ (op.arguments files).map plain) =
      some ⟨[], program .walg op ++ op.arguments files⟩ := by
    cases op <;> exact fixed_words rfl hmap
  rw [runs, substitute_walg, substitute_safe hpercent, map_some, bind_some,
    parse_of_not_reserved (wordsFrom_walg hfiles hvalue.1) rfl, intended_walg]
  exact fixed_assignment hsplit (fixedValue_plain_iff.2 ⟨head_url ep, hvalue.2⟩) hrest

end Walg

/-! ### Barman -/

section Barman

variable {strict : Bool} {op : Operation} {ep : Endpoint} {files : Files}

private theorem substitute_barman (s t : GoString) :
    substitute strict (op.names files)
        (spaced (program .barman op) ++ (s ++ 0x20 :: (t ++ 0x20 :: slots op))) =
      (substitute strict (op.names files) (s ++ [0x20])).bind fun a =>
        (substitute strict (op.names files) (t ++ [0x20])).map fun b =>
          spaced (program .barman op) ++ (a ++ (b ++ op.tail files)) := by
  rw [substitute_fixed (program_spec _ _).1, substitute_append (by decide) s,
    substitute_append (by decide) t, substitute_slots]
  cases substitute strict (op.names files) (s ++ [0x20]) <;>
    cases substitute strict (op.names files) (t ++ [0x20]) <;> rfl

private theorem countP_barman {P : UInt8 → Bool} (hP : P 0x20 = false) (op : Operation)
    (ep : Endpoint) (files : Files) (a b : GoString) :
    (spaced (program .barman op) ++ (a ++ (b ++ op.tail files))).countP P +
        (ep.endpoint.countP P + ep.url.countP P) =
      (intended op .barman ep files).countP P + (a.countP P + b.countP P) := by
  rw [intended_barman, Command.countP]
  simp only [List.countP_append, countP_spaced hP, countP_tail hP, map_cons, map_nil,
    map_append, sum_append, sum_cons, sum_nil]
  omega

private theorem words_of_parse_barman {rest : GoString}
    (h : parse (spaced (program .barman op) ++ rest) = some (intended op .barman ep files)) :
    ∃ ws, wordsFrom .blank rest = some ws ∧
      ws.mapM fixedWord = some (ep.endpoint :: ep.url :: op.arguments files) := by
  obtain ⟨-, hprogram, hfixed⟩ := program_spec .barman op
  obtain ⟨all, hall, hcommand⟩ := parse_eq_some h
  rw [wordsFrom_append hprogram] at hall
  obtain ⟨ws, hws, rfl⟩ := map_eq_some_iff.1 hall
  rw [intended_barman] at hcommand
  have hwords := mapM_of_fixed hcommand rfl
  rw [mapM_append, hfixed, bind_eq_bind, bind_some] at hwords
  obtain ⟨ts, hts, hsame⟩ := bind_eq_some_iff.1 hwords
  rw [append_cancel_left (some.inj hsame)] at hts
  exact ⟨ws, hws, hts⟩

private theorem count_more {b : UInt8} (hspace : b ≠ 0x20) :
    (op.tail files).count b ≤ ((op.arguments files).map (·.count b)).sum :=
  (countP_tail (P := (· == b)) (beq_eq_false_iff_ne.2 hspace.symm)).le

private theorem wordSafe_of_parse
    (h : parse (spaced (program .barman op) ++ (shellQuote ep.endpoint ++ 0x20 ::
      (shellQuote ep.url ++ 0x20 :: op.tail files))) = some (intended op .barman ep files)) :
    WordSafe ep.endpoint ∧ WordSafe ep.url := by
  obtain ⟨ws, hws, hfixed⟩ := words_of_parse_barman h
  have hendpoint : WordSafe ep.endpoint := by
    refine wordSafe_of_wordsFrom ?_ hws hfixed
    intro b _ hspace hquote hslash
    rw [count_append, count_shellQuote hquote hslash, count_cons_of_ne hspace.symm,
      map_cons, sum_cons]
    exact Nat.add_le_add_left (count_more hspace) _
  obtain ⟨w, -, hread⟩ := wordsFrom_shellQuote hendpoint
  rw [hread] at hws
  obtain ⟨ws', hws', rfl⟩ := map_eq_some_iff.1 hws
  obtain ⟨u, us, -, hus, hcons⟩ := mapM_fixedWord_cons.1 hfixed
  rw [(List.cons.inj hcons).2] at hus
  exact ⟨hendpoint, wordSafe_of_wordsFrom (fun b _ hspace _ _ => count_more hspace) hws' hus⟩

private theorem safe_of_runs_barman (hfiles : files.Named)
    (h : runs strict op files (spaced (program .barman op) ++
        (shellQuote ep.endpoint ++ 0x20 :: (shellQuote ep.url ++ 0x20 :: slots op))) =
      some (intended op .barman ep files)) :
    Safe strict op .barman ep := by
  rw [runs, substitute_barman] at h
  obtain ⟨line, hline, hparse⟩ := bind_eq_some_iff.1 h
  obtain ⟨a, ha, hline⟩ := bind_eq_some_iff.1 hline
  obtain ⟨b, hb, rfl⟩ := map_eq_some_iff.1 hline
  have hpercent := countP_le_of_parse (· == 0x25) hparse
  have hsame := countP_barman (P := (· == 0x25)) rfl op ep files a b
  -- Neither text gains percent signs, so neither may lose one.
  have hfirst := count_substitute_le hfiles ha
  have hsecond := count_substitute_le hfiles hb
  have hquote : ∀ s, (shellQuote s).count 0x25 = s.count 0x25 :=
    count_shellQuote (by decide) (by decide)
  unfold List.count at hfirst hsecond hquote
  obtain ⟨hendpoint, rfl⟩ := safe_of_count hfiles ha (by unfold List.count; grind)
  obtain ⟨hurl, rfl⟩ := safe_of_count hfiles hb (by unfold List.count; grind)
  have hletter : 0x27 ∉ op.letters := by cases op <;> decide
  simp only [append_assoc, singleton_append] at hparse
  exact ⟨(untouched_shellQuote hletter _).1 hendpoint, (untouched_shellQuote hletter _).1 hurl,
    wordSafe_of_parse hparse⟩

private theorem runs_barman_of_safe (hfiles : files.Named) (hsafe : Safe strict op .barman ep) :
    runs strict op files (spaced (program .barman op) ++
        (shellQuote ep.endpoint ++ 0x20 :: (shellQuote ep.url ++ 0x20 :: slots op))) =
      some (intended op .barman ep files) := by
  obtain ⟨hendpoint, hurl, hfirst, hsecond⟩ := hsafe
  obtain ⟨-, hprogram, hfixed⟩ := program_spec .barman op
  obtain ⟨w, hw, hreadw⟩ := wordsFrom_shellQuote hfirst
  obtain ⟨v, hv, hreadv⟩ := wordsFrom_shellQuote hsecond
  have hletter : 0x27 ∉ op.letters := by cases op <;> decide
  rw [runs, substitute_barman, substitute_safe ((untouched_shellQuote hletter _).2 hendpoint),
    substitute_safe ((untouched_shellQuote hletter _).2 hurl), bind_some, map_some,
    bind_some, intended_barman]
  have hwords : wordsFrom .blank (spaced (program .barman op) ++
      (shellQuote ep.endpoint ++ [0x20] ++ (shellQuote ep.url ++ [0x20] ++ op.tail files))) =
        some ((program .barman op).map plain ++ w :: v :: (op.arguments files).map plain) := by
    rw [wordsFrom_append hprogram]
    simp [hreadw, hreadv, wordsFrom_tail hfiles]
  have hmap : ((program .barman op).map plain ++ w :: v :: (op.arguments files).map plain).mapM
      fixedWord = some (program .barman op ++ ep.endpoint :: ep.url :: op.arguments files) := by
    have hrest : (w :: v :: (op.arguments files).map plain).mapM fixedWord =
        some (ep.endpoint :: ep.url :: op.arguments files) :=
      mapM_fixedWord_cons.2 ⟨_, _, hw,
        mapM_fixedWord_cons.2 ⟨_, _, hv, mapM_arguments hfiles, rfl⟩, rfl⟩
    rw [mapM_append, hfixed, hrest]
    rfl
  cases op <;> exact (parse_of_not_reserved hwords rfl).trans (fixed_words rfl hmap)

end Barman

/-! ### What the commands run -/

/-- The command of a setting runs what is meant exactly when PostgreSQL and the shell leave the
texts in it as they are. -/
theorem command_runs_intended_iff (T : RuneTables) (strict : Bool) (op : Operation) (tool : Tool)
    (ep : Endpoint) (files : Files) (cmd : GoString) (hfiles : files.Named)
    (hcmd : command T op tool ep = .ok cmd) :
    runs strict op files cmd = some (intended op tool ep files) ↔ Safe strict op tool ep := by
  cases tool with
  | walg =>
    rw [command_walg hcmd]
    exact ⟨safe_of_runs_walg hfiles, fun h => runs_walg_of_safe hfiles h.1 h.2⟩
  | barman =>
    rw [command_barman hcmd]
    exact ⟨safe_of_runs_barman hfiles, runs_barman_of_safe hfiles⟩
  | unknown name => exact absurd hcmd (command_unknown name)

/-- A segment that is archived. -/
def sampleFiles : Files where
  segment := lit "000000010000000000000003"
  path := lit "pg_wal/000000010000000000000003"
  restartPoint := lit "000000010000000000000001"

/-- A bucket with a blank in the key. -/
def sampleEndpoint : Endpoint where
  provider := .s3
  bucket := lit "backups"
  prefix_ := lit "/orders 1"
  endpoint := lit "https://s3.example.com"

/-- Barman is given the endpoint and the URL. -/
theorem sampleEndpoint_restores :
    sampleFiles.Named ∧ ∃ cmd, command .basic .restore .barman sampleEndpoint = .ok cmd ∧
      runs true .restore sampleFiles cmd =
        some (intended .restore .barman sampleEndpoint sampleFiles) :=
  ⟨by decide +kernel, _, rfl, (command_runs_intended_iff .basic true .restore .barman
    sampleEndpoint sampleFiles _ (by decide +kernel) rfl).2 (by decide +kernel)⟩

/-- For the same endpoint the shell runs a program `1` and not WAL-G; and a semicolon in the key
makes two commands for Barman. -/
theorem sampleEndpoint_misruns :
    (∃ cmd, command .basic .archive .walg sampleEndpoint = .ok cmd ∧
      runs true .archive sampleFiles cmd =
        some ⟨[(lit "WALE_S3_PREFIX", lit "s3://backups/orders")],
          [lit "1", lit "wal-g", lit "wal-push", sampleFiles.path]⟩) ∧
    ∃ cmd, command .basic .archive .barman { sampleEndpoint with prefix_ := lit "a;reboot" } =
        .ok cmd ∧ runs true .archive sampleFiles cmd = none :=
  ⟨⟨_, rfl, by decide +kernel⟩, ⟨_, rfl, by decide +kernel⟩⟩

end Athos.Walarchive
