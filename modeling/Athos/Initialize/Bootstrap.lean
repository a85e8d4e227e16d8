import Athos.Initialize.PostInit
import Athos.Shell.DoubleQuotes

/-!
# The bootstrap script

`BootstrapScript` of `src/internal/initialize/initialize.go`: the script that the init container
runs under bash. The WAL directory is in it twice, for `mkdir` as `%q` quotes it and for `initdb` as
it is, in a variable that is cut into words.
-/

namespace Athos.Initialize

open Base Shell.Script List Option

/-! ### The script -/

/-- `InitParams` with the fields that only `BootstrapScript` reads; `initialize.go:49-66`. -/
structure BootstrapParams extends InitParams where
  dataChecksums : Bool
  walDir : GoString

/-- `PGDataDir`; `initialize.go:34`. -/
def pgDataDir : GoString := lit "/var/lib/postgresql/data/pgdata"

/-- `PGConfigDir`; `initialize.go:42`. -/
def pgConfigDir : GoString := lit "/etc/postgresql"

/-- The beginning of `BootstrapScript`, with the data directory in quotes;
`initialize.go:87-97`. -/
def InitParams.bootstrapHead (p : InitParams) (quotedDir : GoString) : GoString :=
  lit "#!/bin/bash\nset -euo pipefail\n\n" ++
  (lit "PGDATA=" ++ quotedDir ++ lit "\n\n") ++
  lit "# Create data directory if it does not exist\n" ++
  lit "mkdir -p \"$\x7bPGDATA\x7d\"\n" ++
  lit "chmod 0700 \"$\x7bPGDATA\x7d\"\n\n" ++
  lit "# Only run initdb if PGDATA is not already initialised\n" ++
  lit "if [ ! -f \"$\x7bPGDATA\x7d/PG_VERSION\" ]; then\n" ++
  (lit "  initdb_args=\"--username=" ++ p.superuserName ++ lit " --encoding=" ++ p.encoding ++
    lit " --locale=" ++ p.locale ++ lit "\"\n")

/-- The end of `BootstrapScript`, after `initdb`; `initialize.go:106-112`. -/
def bootstrapTail : GoString :=
  lit "fi\n\n" ++
  lit "# Copy operator-managed config files\n" ++
  (lit "cp " ++ pgConfigDir ++ lit "/postgresql.conf \"$\x7bPGDATA\x7d/postgresql.conf\"\n") ++
  (lit "cp " ++ pgConfigDir ++ lit "/pg_hba.conf \"$\x7bPGDATA\x7d/pg_hba.conf\"\n\n") ++
  lit "echo \"Bootstrap complete.\"\n"

/-- `BootstrapScript`; `initialize.go:82-114`. -/
def BootstrapParams.bootstrapScript (T : RuneTables) (p : BootstrapParams) : GoString :=
  p.bootstrapHead (goQuote T pgDataDir) ++
  (if p.dataChecksums then
    lit "  initdb_args=\"$\x7binitdb_args\x7d --data-checksums\"\n" else []) ++
  (if p.walDir ≠ [] then
    (lit "  mkdir -p " ++ goQuote T p.walDir ++ lit "\n") ++
    (lit "  initdb_args=\"$\x7binitdb_args\x7d --waldir=" ++ p.walDir ++ lit "\"\n") else []) ++
  lit "  initdb $\x7binitdb_args\x7d -D \"$\x7bPGDATA\x7d\"\n" ++ bootstrapTail

/-- The default parameters with these values for the checksums and the WAL directory. -/
def walParams (clusterName : GoString) (checksums : Bool) (walDir : GoString) : BootstrapParams :=
  { defaultInitParams clusterName with dataChecksums := checksums, walDir := walDir }

/-! ### The commands that it should run -/

/-- The arguments of `initdb` before the WAL directory. -/
def initdbArgs (checksums : Bool) : List GoString :=
  [lit "--username=postgres", lit "--encoding=UTF8", lit "--locale=en_US.UTF-8"] ++
    if checksums then [lit "--data-checksums"] else []

/-- The option of `initdb` for the WAL directory. -/
def walOption (walDir : GoString) : GoString := lit "--waldir=" ++ walDir

/-- The commands up to the creation of the WAL directory. -/
def firstCommands : List (List GoString) :=
  [[lit "set", lit "-euo", lit "pipefail"], [lit "mkdir", lit "-p", pgDataDir],
    [lit "chmod", lit "0700", pgDataDir],
    [lit "[", lit "!", lit "-f", pgDataDir ++ lit "/PG_VERSION", lit "]"]]

/-- The commands after `initdb`. -/
def lastCommands : List (List GoString) :=
  [[lit "cp", pgConfigDir ++ lit "/postgresql.conf", pgDataDir ++ lit "/postgresql.conf"],
    [lit "cp", pgConfigDir ++ lit "/pg_hba.conf", pgDataDir ++ lit "/pg_hba.conf"],
    [lit "echo", lit "Bootstrap complete."]]

/-- The command that initialises the data directory. -/
def initdbCommand (args : List GoString) : List GoString :=
  lit "initdb" :: (args ++ [lit "-D", pgDataDir])

/-- All commands, if `initdb` has these arguments. -/
def commandsWith (walDir : GoString) (args : List GoString) : List (List GoString) :=
  firstCommands ++ [[lit "mkdir", lit "-p", walDir], initdbCommand args] ++ lastCommands

/-- The commands that the script should run for a data directory that is not initialised. -/
def intendedCommands (checksums : Bool) (walDir : GoString) : List (List GoString) :=
  commandsWith walDir (initdbArgs checksums ++ [walOption walDir])

/-- A word that `getopt` takes for an option: one dash alone is an operand. -/
def isOption : GoString → Bool
  | 0x2D :: _ :: _ => true
  | _ => false

/-- The operands of a command whose options have no arguments. Options may stand between them, up
to a word of two dashes. -/
def operands : List GoString → List GoString
  | [] => []
  | w :: ws =>
    if w = lit "--" then ws else if isOption w then operands ws else w :: operands ws

/-- The script creates the WAL directory and uses it: it runs the commands that it should, and the
directory is the operand of its `mkdir`. -/
def CreatesWalDir (T : RuneTables) (clusterName : GoString) (checksums : Bool)
    (walDir : GoString) : Prop :=
  run ((walParams clusterName checksums walDir).bootstrapScript T) =
      some (intendedCommands checksums walDir) ∧
    operands [lit "-p", walDir] = [walDir]

private theorem operands_iff (w : GoString) :
    operands [lit "-p", w] = [w] ↔ isOption w = false := by
  have hskip : operands [lit "-p", w] = operands [w] := rfl
  rw [hskip, operands]
  split
  next h =>
    subst h
    decide
  next => cases isOption w <;> simp [operands]

/-! ### The parts of the script -/

/-- The line that adds the checksums. -/
def checksumsLine (checksums : Bool) : GoString :=
  if checksums then lit "  initdb_args=\"$\x7binitdb_args\x7d --data-checksums\"\n" else []

/-- What stands before that line. -/
def opening : GoString :=
  (defaultInitParams []).bootstrapHead (0x22 :: (pgDataDir ++ [0x22]))

/-- What stands between the two occurrences of the WAL directory, after the end of the line. -/
def middle : GoString := lit "  initdb_args=\"$\x7binitdb_args\x7d --waldir="

/-- The line that runs `initdb`. -/
def initdbLine : GoString := lit "  initdb $\x7binitdb_args\x7d -D \"$\x7bPGDATA\x7d\"\n"

private theorem goQuote_pgDataDir (T : RuneTables) :
    goQuote T pgDataDir = 0x22 :: (pgDataDir ++ [0x22]) := by
  have hverbatim : Verbatim T pgDataDir := verbatim_of_ascii (forall_mem_of_all (by decide))
  rw [goQuote_eq, quoteBody_of_verbatim hverbatim]

private theorem bootstrapScript_eq (T : RuneTables) (clusterName : GoString) (checksums : Bool)
    {walDir : GoString} (h : walDir ≠ []) :
    (walParams clusterName checksums walDir).bootstrapScript T =
      opening ++ (checksumsLine checksums ++ (lit "  mkdir -p " ++ (goQuote T walDir ++ ([0x0A] ++
        (middle ++ (walDir ++ ([0x22, 0x0A] ++ (initdbLine ++ bootstrapTail)))))))) := by
  have hnl : lit "\n" = [0x0A] := rfl
  have hdir : (walParams clusterName checksums walDir).walDir = walDir := rfl
  unfold BootstrapParams.bootstrapScript opening
  rw [goQuote_pgDataDir, hdir, if_pos h]
  simp only [append_assoc, ← hnl]
  rfl

/-- The value of `initdb_args` before the WAL directory is added. -/
def argsValue (checksums : Bool) : GoString :=
  lit "--username=postgres --encoding=UTF8 --locale=en_US.UTF-8" ++
    if checksums then lit " --data-checksums" else []

/-- The variables before the WAL directory is added. -/
def openingVars (checksums : Bool) : Vars :=
  (if checksums then [(lit "initdb_args", argsValue true)] else []) ++
    [(lit "initdb_args", argsValue false), (lit "PGDATA", pgDataDir)]

private theorem run_opening (checksums : Bool) (y : GoString) :
    run (opening ++ (checksumsLine checksums ++ y)) =
      (runFrom .blank (some ⟨openingVars checksums, [.body true], []⟩) y).map
        (firstCommands ++ ·) := by
  have hblank : (transduce step .blank opening).1 = .blank := by decide +kernel
  have hopening : Transduces step .blank opening .blank (transduce step .blank opening).2 :=
    Prod.ext hblank rfl
  have hfirst : Transduces exec (some ⟨[], [], []⟩) (transduce step .blank opening).2
      (some ⟨openingVars false, [.body true], []⟩) firstCommands := by
    unfold Transduces
    decide +kernel
  have hline : Transduces step .blank (checksumsLine checksums) .blank
      (transduce step .blank (checksumsLine checksums)).2 :=
    Prod.ext (by cases checksums <;> decide) rfl
  have hchecksums : Transduces exec (some ⟨openingVars false, [.body true], []⟩)
      (transduce step .blank (checksumsLine checksums)).2
      (some ⟨openingVars checksums, [.body true], []⟩) [] := by
    unfold Transduces
    cases checksums <;> decide
  rw [run, runFrom_append hopening hfirst, runFrom_append hline hchecksums]
  simp

section Lines

variable {vars : Vars} {frames : List Frame}

private theorem mkdir_read : Transduces step .blank (lit "  mkdir -p ") .blank
    [.word (keyword (lit "mkdir")), .word (keyword (lit "-p"))] := rfl

private theorem runFrom_mkdir {q : GoString} {w : RawWord}
    (h : Transduces step .blank q (.word w.reverse) []) (y : GoString) :
    runFrom .blank (some ⟨vars, frames, []⟩) (lit "  mkdir -p " ++ (q ++ ([0x0A] ++ y))) =
      (RawWord.expand vars w).bind fun words =>
        (runFrom .blank (some ⟨vars, fill frames, []⟩) y).map
          ((lit "mkdir" :: lit "-p" :: words) :: ·) := by
  have hend : Transduces step (.word w.reverse) [0x0A] .blank [.word w, .newline] := by
    rw [Transduces, transduce_singleton]
    simp [step, stepWord, Shell.isBlank]
  have hread : Transduces step .blank (lit "  mkdir -p " ++ (q ++ [0x0A])) .blank
      ([keyword (lit "mkdir"), keyword (lit "-p"), w].map .word ++ [Token.newline]) := by
    have hwords := mkdir_read.append (h.append hend)
    simpa using hwords
  have hassoc : lit "  mkdir -p " ++ (q ++ ([0x0A] ++ y)) =
      (lit "  mkdir -p " ++ (q ++ [0x0A])) ++ y := by
    simp only [append_assoc]
  have hmkdir : RawWord.expand vars (keyword (lit "mkdir")) = some [lit "mkdir"] :=
    expand_keyword (by decide) (by decide) vars
  have hoption : RawWord.expand vars (keyword (lit "-p")) = some [lit "-p"] :=
    expand_keyword (by decide) (by decide) vars
  rw [hassoc, runFrom_line hread (by decide)]
  cases hw : RawWord.expand vars w with
  | none => simp [mapM_cons, hmkdir, hoption, hw]
  | some words => simp [mapM_cons, hmkdir, hoption, hw]

private theorem runFrom_initdb (vars : Vars) (frames : List Frame) (y : GoString) :
    runFrom .blank (some ⟨vars, frames, []⟩) (initdbLine ++ y) =
      ((vars.lookup (lit "initdb_args")).bind fields).bind fun args =>
        (vars.lookup (lit "PGDATA")).bind fun dir =>
          (runFrom .blank (some ⟨vars, fill frames, []⟩) y).map
            ((lit "initdb" :: (args ++ [lit "-D", dir])) :: ·) := by
  have hread : Transduces step .blank initdbLine .blank
      (([keyword (lit "initdb"), [.var (lit "initdb_args") false], keyword (lit "-D"),
        [.var (lit "PGDATA") true]] : List RawWord).map .word ++ [Token.newline]) := by
    unfold Transduces
    decide
  have hname : RawWord.expand vars (keyword (lit "initdb")) = some [lit "initdb"] :=
    expand_keyword (by decide) (by decide) vars
  have hoption : RawWord.expand vars (keyword (lit "-D")) = some [lit "-D"] :=
    expand_keyword (by decide) (by decide) vars
  have hargs : RawWord.expand vars [.var (lit "initdb_args") false] =
      (vars.lookup (lit "initdb_args")).bind fields := rfl
  have hdir : RawWord.expand vars [.var (lit "PGDATA") true] =
      (vars.lookup (lit "PGDATA")).map ([·]) := by
    cases hlookup : vars.lookup (lit "PGDATA") with
    | none => rw [expand_of_quoted (by simp [Piece.isQuoted]), RawWord.marked, hlookup]; rfl
    | some dir =>
      have hvar := expand_var_quotedText hlookup []
      rw [append_nil] at hvar
      exact hvar
  rw [runFrom_line hread (by decide)]
  cases hfields : (vars.lookup (lit "initdb_args")).bind fields with
  | none => simp [mapM_cons, hname, hargs, hfields]
  | some args =>
    cases hlookup : vars.lookup (lit "PGDATA") with
    | none => simp [mapM_cons, hname, hargs, hfields, hoption, hdir, hlookup]
    | some dir => simp [mapM_cons, hname, hargs, hfields, hoption, hdir, hlookup]

private theorem runFrom_copy (h : vars.lookup (lit "PGDATA") = some pgDataDir)
    (line source target : GoString) (hsource : Shell.fixedWord (Shell.plain source) = some source)
    (hbrace : 0x7B ∉ source)
    (hread : Transduces step .blank line .blank ([keyword (lit "cp"), keyword source,
      .var (lit "PGDATA") true :: quotedText target].map .word ++ [Token.newline])) (y : GoString) :
    runFrom .blank (some ⟨vars, [], []⟩) (line ++ y) =
      (runFrom .blank (some ⟨vars, [], []⟩) y).map
        ([lit "cp", source, pgDataDir ++ target] :: ·) := by
  have hcp : RawWord.expand vars (keyword (lit "cp")) = some [lit "cp"] :=
    expand_keyword (by decide) (by decide) vars
  rw [runFrom_line hread (by decide)]
  simp [mapM_cons, hcp, expand_keyword hsource hbrace vars, expand_var_quotedText h, fill]

private theorem runFrom_ending (h : vars.lookup (lit "PGDATA") = some pgDataDir) :
    runFrom .blank (some ⟨vars, [.body true], []⟩) bootstrapTail = some lastCommands := by
  have hsplit : bootstrapTail = lit "fi\n\n# Copy operator-managed config files\n" ++
      (lit "cp /etc/postgresql/postgresql.conf \"$\x7bPGDATA\x7d/postgresql.conf\"\n" ++
        (lit "cp /etc/postgresql/pg_hba.conf \"$\x7bPGDATA\x7d/pg_hba.conf\"\n" ++
          (lit "\n" ++ (lit "echo \"Bootstrap complete.\"\n" ++ [])))) := by decide +kernel
  have hfi : Transduces step .blank (lit "fi\n\n# Copy operator-managed config files\n") .blank
      [.word (keyword (lit "fi")), .newline, .newline, .newline] := by
    unfold Transduces
    decide
  have hclosed : Transduces exec (some ⟨vars, [.body true], []⟩)
      [.word (keyword (lit "fi")), .newline, .newline, .newline] (some ⟨vars, [], []⟩) [] := rfl
  have hconf := runFrom_copy h
    (lit "cp /etc/postgresql/postgresql.conf \"$\x7bPGDATA\x7d/postgresql.conf\"\n")
    (lit "/etc/postgresql/postgresql.conf") (lit "/postgresql.conf") (by decide)
    (by decide) (by unfold Transduces; decide)
  have hhba := runFrom_copy h
    (lit "cp /etc/postgresql/pg_hba.conf \"$\x7bPGDATA\x7d/pg_hba.conf\"\n")
    (lit "/etc/postgresql/pg_hba.conf") (lit "/pg_hba.conf") (by decide) (by decide)
    (by unfold Transduces; decide)
  have hempty : Transduces step .blank (lit "\n") .blank [.newline] := rfl
  have hnothing : Transduces exec (some ⟨vars, [], []⟩) [.newline] (some ⟨vars, [], []⟩) [] := rfl
  have hread : Transduces step .blank (lit "echo \"Bootstrap complete.\"\n") .blank
      ([keyword (lit "echo"), quotedText (lit "Bootstrap complete.")].map .word ++
        [Token.newline]) := by
    unfold Transduces
    decide
  have hecho : RawWord.expand vars (keyword (lit "echo")) = some [lit "echo"] :=
    expand_keyword (by decide) (by decide) vars
  have hend : runFrom .blank (some ⟨vars, [], []⟩) [] = some [] := rfl
  rw [hsplit, runFrom_append hfi hclosed, hconf, hhba, runFrom_append hempty hnothing,
    runFrom_line hread (by decide)]
  simp [mapM_cons, hecho, expand_quotedText, fill, hend, lastCommands]
  decide

end Lines

/-! ### The line of the WAL directory -/

/-- The word that the line begins with. -/
def walWord : RawWord :=
  keyword (lit "initdb_args") ++ .byte 0x3D false :: .var (lit "initdb_args") true ::
    quotedText (lit " --waldir=")

private theorem middle_read : Transduces step .blank middle (.double walWord.reverse) [] := by
  unfold Transduces
  decide

/-- The value of `initdb_args` with the WAL directory. -/
def walValue (checksums : Bool) (walDir : GoString) : GoString :=
  argsValue checksums ++ 0x20 :: walOption walDir

private theorem exec_walWord (checksums : Bool) (walDir : GoString) (frames : List Frame) :
    Transduces exec (some ⟨openingVars checksums, frames, []⟩)
      [.word (walWord ++ quotedText walDir), .newline]
      (some ⟨(lit "initdb_args", walValue checksums walDir) :: openingVars checksums,
        fill frames, []⟩) [] := by
  have hword : walWord ++ quotedText walDir = keyword (lit "initdb_args") ++
      .byte 0x3D false :: .var (lit "initdb_args") true ::
        quotedText (lit " --waldir=" ++ walDir) := by
    simp [walWord, quotedText]
  have hlookup : (openingVars checksums).lookup (lit "initdb_args") =
      some (argsValue checksums) := by
    cases checksums <;> decide
  have hmarked : RawWord.marked (openingVars checksums)
      (.var (lit "initdb_args") true :: quotedText (lit " --waldir=" ++ walDir)) =
      some (Shell.quoted (walValue checksums walDir)) := by
    have hspace : lit " --waldir=" = 0x20 :: lit "--waldir=" := rfl
    rw [RawWord.marked, hlookup, marked_quotedText, hspace]
    simp [Shell.quoted, walValue, walOption]
  rw [hword]
  refine exec_assignment (assignment_keyword (forall_mem_of_all (by decide)) (by decide) _) ?_
    frames
  rw [hmarked, bind_some, Shell.fixedValue_quoted]

section Run

variable {T : RuneTables} {clusterName walDir : GoString} {checksums : Bool}

private theorem run_kept (hdir : walDir ≠ []) (hprints : Printing T walDir)
    (hinert : InertText walDir) (hkept : KeptText walDir) (hend : walDir.getLast? ≠ some 0x5C) :
    run ((walParams clusterName checksums walDir).bootstrapScript T) =
      (Shell.Script.fields (walValue checksums walDir)).map (commandsWith walDir) := by
  have hnl : 0x0A ∉ walDir := hprints.not_mem (by decide) (by decide)
  have hline := middle_read.append
    (transduces_keptText hkept hinert hnl hend walWord.reverse)
  rw [reverse_reverse, nil_append] at hline
  have hassoc : middle ++ (walDir ++ ([0x22, 0x0A] ++ (initdbLine ++ bootstrapTail))) =
      (middle ++ (walDir ++ [0x22, 0x0A])) ++ (initdbLine ++ bootstrapTail) := by
    simp only [append_assoc]
  rw [bootstrapScript_eq T clusterName checksums hdir, run_opening,
    runFrom_mkdir (transduces_goQuote hprints hinert), expand_quotedText, bind_some, hassoc,
    runFrom_append hline (exec_walWord checksums walDir _), runFrom_initdb]
  generalize hvars : (lit "initdb_args", walValue checksums walDir) :: openingVars checksums = vars
  have hargs : vars.lookup (lit "initdb_args") = some (walValue checksums walDir) := by
    rw [← hvars]
    rfl
  have hpgdata : vars.lookup (lit "PGDATA") = some pgDataDir := by
    rw [← hvars]
    cases checksums <;> rfl
  rw [hargs, hpgdata, bind_some]
  cases Shell.Script.fields (walValue checksums walDir) with
  | none => rfl
  | some args => simp [fill, runFrom_ending hpgdata, commandsWith, initdbCommand]

private theorem commandsWith_inj {args args' : List GoString} :
    commandsWith walDir args = commandsWith walDir args' ↔ args = args' := by
  simp [commandsWith, initdbCommand]

private theorem run_kept_iff (hdir : walDir ≠ []) (hprints : Printing T walDir)
    (hinert : InertText walDir) (hkept : KeptText walDir) (hend : walDir.getLast? ≠ some 0x5C) :
    run ((walParams clusterName checksums walDir).bootstrapScript T) =
        some (intendedCommands checksums walDir) ↔
      0x20 ∉ walDir ∧ Shell.isPattern (fieldWord (walOption walDir)) = false := by
  have hargs : Shell.Script.fields (argsValue checksums) = some (initdbArgs checksums) := by
    cases checksums <;> decide
  have hoption : walOption walDir ≠ [] := append_ne_nil_of_left_ne_nil (by decide) walDir
  have hseparators : (∀ b ∈ walOption walDir, isFieldSeparator b = false) ↔ 0x20 ∉ walDir := by
    have htab : 0x09 ∉ walDir := hprints.not_mem (by decide) (by decide)
    have hnl : 0x0A ∉ walDir := hprints.not_mem (by decide) (by decide)
    have hbegin : ∀ b ∈ lit "--waldir=", isFieldSeparator b = false :=
      forall_mem_of_all (by decide)
    rw [walOption, forall_mem_append, and_iff_right hbegin]
    constructor
    · intro h hspace
      cases h 0x20 hspace
    · intro h b hb
      have hne : ∀ c ∉ walDir, b ≠ c := fun c hc heq => hc (heq ▸ hb)
      simp [isFieldSeparator, Shell.isBlank, hne 0x20 h, hne 0x09 htab, hne 0x0A hnl]
  rw [run_kept hdir hprints hinert hkept hend, intendedCommands, map_eq_some_iff]
  simp only [commandsWith_inj, exists_eq_right]
  rw [walValue, fields_append_iff hargs rfl hoption, hseparators]

private theorem printing_of_run (hdir : walDir ≠ [])
    (h : run ((walParams clusterName checksums walDir).bootstrapScript T) =
      some (intendedCommands checksums walDir)) :
    Printing T walDir ∧ InertText walDir ∧
      runFrom .blank (some ⟨openingVars checksums, [.body true], []⟩)
          (middle ++ (walDir ++ ([0x22, 0x0A] ++ (initdbLine ++ bootstrapTail)))) =
        some (initdbCommand (initdbArgs checksums ++ [walOption walDir]) :: lastCommands) := by
  rw [bootstrapScript_eq T clusterName checksums hdir, run_opening, map_eq_some_iff] at h
  obtain ⟨out, hout, hcommands⟩ := h
  have hout_eq : out = [lit "mkdir", lit "-p", walDir] ::
      initdbCommand (initdbArgs checksums ++ [walOption walDir]) :: lastCommands := by
    simpa [intendedCommands, commandsWith] using hcommands
  subst hout_eq
  rcases goQuote_word T walDir with hfailed | ⟨w, hw, hword⟩
  · rw [runFrom_append mkdir_read rfl, runFrom_append hfailed rfl, runFrom_failed] at hout
    cases hout
  · rw [runFrom_mkdir hw, bind_eq_some_iff] at hout
    obtain ⟨words, hwords, hrest⟩ := hout
    obtain ⟨out, hout, hcons⟩ := map_eq_some_iff.1 hrest
    obtain ⟨hmkdir, rfl⟩ := List.cons.inj hcons
    obtain rfl : words = [walDir] := by simpa using hmkdir
    have hdollars : Vars.most (· == 0x24) (openingVars checksums) = 0 := by
      cases checksums <;> decide
    obtain ⟨hprints, hinert⟩ := hword _ hdollars hwords
    exact ⟨hprints, hinert, hout⟩

private theorem args_of_append {args args' : List GoString} {dir : GoString}
    {out₁ out₃ : List (List GoString)}
    (h : out₁ ++ (lit "initdb" :: (args ++ [lit "-D", dir])) :: out₃ =
      initdbCommand args' :: lastCommands) : args = args' := by
  cases out₁ with
  | nil =>
    have hargs := tail_eq_of_cons_eq (List.cons.inj h).1
    exact (append_inj' hargs rfl).1
  | cons command out₁ =>
    have hlast : ∀ command ∈ lastCommands, command.head? ≠ some (lit "initdb") := by decide
    have hmem : lit "initdb" :: (args ++ [lit "-D", dir]) ∈ lastCommands := by
      rw [← (List.cons.inj h).2]
      simp
    exact absurd rfl (hlast _ hmem)

private theorem keptText_of_run (hinert : InertText walDir) (hnl : 0x0A ∉ walDir)
    (h : runFrom .blank (some ⟨openingVars checksums, [.body true], []⟩)
        (middle ++ (walDir ++ ([0x22, 0x0A] ++ (initdbLine ++ bootstrapTail)))) =
      some (initdbCommand (initdbArgs checksums ++ [walOption walDir]) :: lastCommands)) :
    KeptText walDir ∧ walDir.getLast? ≠ some 0x5C := by
  rw [runFrom_append middle_read (Transduces.nil exec _), map_eq_some_iff] at h
  obtain ⟨out, hrun, rfl⟩ := h
  have hmarks : Vars.most isMark (openingVars checksums) = 0 := by
    cases checksums <;> decide
  obtain ⟨vars, frames, out₁, out₂, hrest, hout, hcount, ts, hclose⟩ :=
    exists_vars_of_runFrom hinert (by decide) hmarks (by decide +kernel) (by decide +kernel) hrun
  rw [runFrom_initdb, bind_eq_some_iff] at hrest
  obtain ⟨args, hargs, hrest⟩ := hrest
  obtain ⟨dir, -, hrest⟩ := bind_eq_some_iff.1 hrest
  obtain ⟨out₃, -, rfl⟩ := map_eq_some_iff.1 hrest
  obtain rfl : args = initdbArgs checksums ++ [walOption walDir] := args_of_append hout
  obtain ⟨value, hvalue, hfields⟩ := bind_eq_some_iff.1 hargs
  have hkept : walDir.countP isMark ≤ Vars.most isMark vars := by
    have hfield := countP_fields_le isMark hfields (walOption walDir) (by simp)
    have hlookup := lookup_le_most isMark vars (lit "initdb_args")
    have hoption : (walOption walDir).countP isMark = walDir.countP isMark := by
      have hbegin : (lit "--waldir=").countP isMark = 0 := by decide
      rw [walOption, List.countP_append, hbegin, Nat.zero_add]
    rw [hvalue, getD_some] at hlookup
    rw [hoption] at hfield
    exact hfield.trans hlookup
  have hword : RawWord.countP isMark walWord.reverse = 0 := by decide
  rcases keptText_or_lost hinert hnl walWord.reverse with ⟨htext, hsofar, -⟩ | ⟨-, hlost⟩
  · refine ⟨htext, fun hlast => ?_⟩
    rcases hsofar with ⟨hne, -⟩ | ⟨front, -, hescape⟩
    · exact hne hlast
    · -- The backslash would quote the quote after it.
      rw [hescape] at hclose
      cases hclose
  · omega

end Run

/-! ### Which directories are used -/

/-- The WAL directories that the script creates and gives to `initdb`. -/
structure WalDirKept (T : RuneTables) (walDir : GoString) : Prop where
  prints : Printing T walDir
  no_quote : 0x22 ∉ walDir
  no_backquote : 0x60 ∉ walDir
  /-- No dollar sign stands before a byte with which it begins an expansion, and no backslash
  before a dollar sign or a backslash. -/
  chain : walDir.IsChain Kept
  no_last_backslash : walDir.getLast? ≠ some 0x5C
  no_space : 0x20 ∉ walDir
  no_pattern : Shell.isPattern (fieldWord (walOption walDir)) = false
  no_option : isOption walDir = false

/-- The script runs `mkdir` and `initdb` with the WAL directory, and nothing else for it, exactly if
the directory stands for itself in both places and `mkdir` does not take it for an option. -/
theorem bootstrapScript_run_iff (T : RuneTables) (clusterName : GoString) (checksums : Bool)
    (walDir : GoString) (h : walDir ≠ []) :
    CreatesWalDir T clusterName checksums walDir ↔ WalDirKept T walDir := by
  rw [CreatesWalDir, operands_iff]
  constructor
  · rintro ⟨hrun, hoption⟩
    obtain ⟨hprints, hinert, hrest⟩ := printing_of_run h hrun
    obtain ⟨hkept, hlast⟩ := keptText_of_run hinert (hprints.not_mem (by decide) (by decide)) hrest
    obtain ⟨hspace, hpattern⟩ := (run_kept_iff h hprints hinert hkept hlast).1 hrun
    exact ⟨hprints, hkept.no_quote, hinert.no_backquote, hkept.chain, hlast, hspace, hpattern,
      hoption⟩
  · rintro ⟨hprints, hquote, hback, hchain, hlast, hspace, hpattern, hoption⟩
    have hinert : InertText walDir := ⟨hback, hchain.imp fun _ _ hkept => hkept.1⟩
    exact ⟨(run_kept_iff h hprints hinert ⟨hquote, hchain⟩ hlast).2 ⟨hspace, hpattern⟩, hoption⟩

/-- A directory of a separate volume is one of them. -/
theorem wal_volume_used :
    lit "/pgwal/db-1" ≠ [] ∧
      CreatesWalDir RuneTables.basic (lit "db") true (lit "/pgwal/db-1") := by
  have hdir : lit "/pgwal/db-1" ≠ [] := by decide
  refine ⟨hdir, (bootstrapScript_run_iff _ _ _ _ hdir).2 ?_⟩
  exact ⟨by decide, by decide, by decide, by decide, by decide, by decide, by decide, by decide⟩

/-- A directory with a space is created and becomes two words of `initdb`, what stands after a quote
is run, and `mkdir` takes a directory that starts with a dash for an option. -/
theorem wal_directory_cut :
    run ((walParams (lit "db") true (lit "/mnt/wal data")).bootstrapScript RuneTables.basic) =
        some (commandsWith (lit "/mnt/wal data")
          (initdbArgs true ++ [lit "--waldir=/mnt/wal", lit "data"])) ∧
      run ((walParams (lit "db") true (lit "/wal\"; reboot #")).bootstrapScript
          RuneTables.basic) =
        some (firstCommands ++ [[lit "mkdir", lit "-p", lit "/wal\"; reboot #"], [lit "reboot"],
          initdbCommand (initdbArgs true ++ [lit "--waldir=/wal"])] ++ lastCommands) ∧
      run ((walParams (lit "db") true (lit "-v")).bootstrapScript RuneTables.basic) =
        some (intendedCommands true (lit "-v")) ∧
      operands [lit "-p", lit "-v"] = [] := by
  decide +kernel

end Athos.Initialize
