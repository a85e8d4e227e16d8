import Athos.Base.Strings
import Athos.Postgres.Naming

/-!
# Connection strings

`src/internal/store/connstr.go`: the keyword/value form of a connection, and its reader. The writer
quotes values with a blank, a quote or a backslash, and puts a backslash before each quote. The
reader knows no backslashes: a quoted value ends at the next quote.
-/

namespace Athos.Store

open Base Kube Postgres List

/-- `ConnParams`; `connstr.go:37-47`. -/
structure ConnParams where
  host : GoString
  port : Int := 0
  user : GoString := []
  password : GoString := []
  database : GoString := []
  sslMode : GoString := []
  extra : StringMap := ∅
  deriving DecidableEq

namespace ConnParams

/-- `port`; `connstr.go:130-135`. -/
def portOrDefault (c : ConnParams) : Int := if c.port = 0 then 5432 else c.port

/-- `user`; `connstr.go:137-142`. -/
def userOrDefault (c : ConnParams) : GoString := if c.user = [] then lit "postgres" else c.user

/-- `database`; `connstr.go:144-149`. -/
def databaseOrDefault (c : ConnParams) : GoString :=
  if c.database = [] then lit "postgres" else c.database

/-- `sslMode`; `connstr.go:151-156`. -/
def sslModeOrDefault (c : ConnParams) : GoString :=
  if c.sslMode = [] then lit "require" else c.sslMode

/-- The parameters with their defaults filled in. -/
def withDefaults (c : ConnParams) : ConnParams :=
  { c with
    port := c.portOrDefault
    user := c.userOrDefault
    database := c.databaseOrDefault
    sslMode := c.sslModeOrDefault }

/-- The entries of `baseKV` before those of `Extra`. -/
def standardKV (c : ConnParams) : List (GoString × GoString) :=
  [(lit "host", c.host),
    (lit "port", decimal c.portOrDefault),
    (lit "user", c.userOrDefault),
    (lit "dbname", c.databaseOrDefault),
    (lit "sslmode", c.sslModeOrDefault)] ++
  if c.password ≠ [] then [(lit "password", c.password)] else []

/-- `baseKV`; `connstr.go:158-173`. -/
def baseKV (c : ConnParams) : StringMap := mergeMaps (mapOf c.standardKV) c.extra

end ConnParams

/-- `strings.ContainsAny(v, " '\\")`. -/
def needsQuote (v : GoString) : Bool := v.contains 0x20 || v.contains 0x27 || v.contains 0x5C

/-- The text of a value; `connstr.go:184-187`. -/
def valueText (v : GoString) : GoString :=
  if needsQuote v then 0x27 :: (replaceByte 0x27 [0x5C, 0x27] v ++ [0x27]) else v

/-- `kvString`; `connstr.go:175-191`. -/
def kvString (kv : StringMap) : GoString :=
  List.intercalate [0x20] (kv.toList.map fun p => p.1 ++ 0x3D :: valueText p.2)

/-- `DSN`; `connstr.go:62-65`. -/
def ConnParams.dsn (c : ConnParams) : GoString := kvString c.baseKV

/-- The space between the tokens of a DSN: blank, tab, newline, carriage return. -/
def isDsnSpace (b : UInt8) : Bool := b == 0x20 || b == 0x09 || b == 0x0A || b == 0x0D

/-- A value and what follows it; `connstr.go:267-286`. -/
def readValue (T : RuneTables) (key s : GoString) : Except GoString (GoString × GoString) :=
  match s with
  | 0x27 :: body =>
    if 0x27 ∈ body then .ok (cutByte 0x27 body)
    else .error (lit "unterminated quoted value for key " ++ goQuote T key)
  | s => .ok (s.takeWhile fun b => !isDsnSpace b, s.dropWhile fun b => !isDsnSpace b)

variable {T : RuneTables} {key s v rest : GoString}

/-- A value is read either up to the quote that closes it or up to the next space. -/
theorem readValue_eq_ok (h : readValue T key s = .ok (v, rest)) :
    (s = 0x27 :: (v ++ 0x27 :: rest) ∧ 0x27 ∉ v) ∨
      (s = v ++ rest ∧ s.head? ≠ some 0x27 ∧ (∀ b ∈ v, isDsnSpace b = false) ∧
        (rest = [] ∨ ∃ b t, rest = b :: t ∧ isDsnSpace b = true)) := by
  unfold readValue at h
  split at h
  · next body =>
    split_ifs at h with hmem
    have hcut : cutByte 0x27 body = (v, rest) := Except.ok.inj h
    have hbody := cutByte_append hmem
    have hfree := not_mem_cutByte_fst 0x27 body
    rw [hcut] at hbody hfree
    exact .inl ⟨congrArg _ hbody, hfree⟩
  · next hhead =>
    obtain ⟨rfl, rfl⟩ := Prod.mk.inj (Except.ok.inj h)
    refine .inr ⟨takeWhile_append_dropWhile.symm, ?_, ?_, ?_⟩
    · intro hquote
      obtain ⟨body, rfl⟩ := head?_eq_some_iff.1 hquote
      exact hhead body rfl
    · intro b hb
      simpa using mem_takeWhile_imp hb
    · cases hdrop : s.dropWhile fun b => !isDsnSpace b with
      | nil => exact .inl rfl
      | cons b t =>
        have hb := head_dropWhile_not (fun b => !isDsnSpace b) (l := s) (by simp [hdrop])
        simp only [hdrop, head_cons, Bool.not_eq_false'] at hb
        exact .inr ⟨b, t, rfl, hb⟩

/-- A quoted value is read up to the next quote. -/
theorem readValue_quoted (h : 0x27 ∉ v) (key rest : GoString) :
    readValue T key (0x27 :: (v ++ 0x27 :: rest)) = .ok (v, rest) := by
  simp only [readValue, mem_append, mem_cons, true_or, or_true, if_true, cutByte_append_cons h]

/-- An unquoted value is read up to the next space. -/
theorem readValue_unquoted (hv : ∀ b ∈ v, isDsnSpace b = false) (hquote : 0x27 ∉ v)
    (hrest : rest = [] ∨ ∃ t, rest = 0x20 :: t) (key : GoString) :
    readValue T key (v ++ rest) = .ok (v, rest) := by
  have htake : (v ++ rest).takeWhile (fun b => !isDsnSpace b) = v := by
    rw [takeWhile_append_of_pos (by simpa using hv)]
    rcases hrest with rfl | ⟨t, rfl⟩ <;> simp [isDsnSpace]
  have hdrop : (v ++ rest).dropWhile (fun b => !isDsnSpace b) = rest := by
    rw [dropWhile_append_of_pos (by simpa using hv)]
    rcases hrest with rfl | ⟨t, rfl⟩ <;> simp [isDsnSpace]
  unfold readValue
  split
  · next body hbody =>
    -- a quote at the front would be a byte of the value
    rcases append_eq_cons_iff.1 hbody with ⟨rfl, hrest'⟩ | ⟨v', rfl, -⟩
    · rcases hrest with rfl | ⟨t, rfl⟩ <;> cases hrest'
    · exact absurd mem_cons_self hquote
  · rw [htake, hdrop]

private theorem length_readValue (h : readValue T key s = .ok (v, rest)) :
    rest.length ≤ s.length := by
  rcases readValue_eq_ok h with ⟨rfl, -⟩ | ⟨rfl, -⟩
  · simp only [length_cons, length_append]
    omega
  · rw [length_append]
    exact Nat.le_add_left _ _

/-- One assignment and what follows it; `connstr.go:260-287`. -/
def readToken (T : RuneTables) (s : GoString) :
    Except GoString ((GoString × GoString) × GoString) :=
  if 0x3D ∈ s then
    let key := trimSpace (cutByte 0x3D s).1
    (readValue T key (cutByte 0x3D s).2).map fun r => ((key, r.1), r.2)
  else .error (lit "malformed DSN near " ++ goQuote T s ++ lit ": missing '='")

/-- A token is a key, an equals sign and a value. -/
theorem readToken_eq_ok {p : GoString × GoString} (h : readToken T s = .ok (p, rest)) :
    ∃ before after, s = before ++ 0x3D :: after ∧ 0x3D ∉ before ∧ p.1 = trimSpace before ∧
      readValue T p.1 after = .ok (p.2, rest) := by
  unfold readToken at h
  split_ifs at h with hmem
  refine ⟨_, _, cutByte_append hmem, not_mem_cutByte_fst 0x3D s, ?_⟩
  obtain ⟨r, hread, hr⟩ := map_eq_ok.1 h
  cases hr
  exact ⟨rfl, hread⟩

/-- A token takes something away. -/
theorem length_readToken {p : GoString × GoString} (h : readToken T s = .ok (p, rest)) :
    rest.length < s.length := by
  obtain ⟨before, after, rfl, -, -, hread⟩ := readToken_eq_ok h
  have hrest := length_readValue hread
  rw [length_append, length_cons]
  omega

/-- The loop of `tokenizeDSN`: the assignments in their order; `connstr.go:255-288`. -/
def tokens (T : RuneTables) (s : GoString) : Except GoString (List (GoString × GoString)) :=
  if s.dropWhile isDsnSpace = [] then .ok []
  else
    match _hread : readToken T (s.dropWhile isDsnSpace) with
    | .error e => .error e
    | .ok (p, rest) =>
      (tokens T rest).map fun l => p :: l
termination_by s.length
decreasing_by
  exact Nat.lt_of_lt_of_le (length_readToken _hread) (dropWhile_sublist _).length_le

/-- The recursion of the loop. -/
theorem tokens_eq (T : RuneTables) (s : GoString) :
    tokens T s =
      if s.dropWhile isDsnSpace = [] then .ok []
      else (readToken T (s.dropWhile isDsnSpace)).bind fun r =>
        (tokens T r.2).map fun l => r.1 :: l := by
  rw [tokens]
  split_ifs
  · rfl
  · split
    · next h => rw [h]; rfl
    · next h => rw [h]; rfl

/-- `tokenizeDSN`; `connstr.go:252-290`. A later assignment of a key wins. -/
def tokenizeDSN (T : RuneTables) (dsn : GoString) : Except GoString StringMap :=
  (tokens T (trimSpace dsn)).map mapOf

/-- `fmt.Sscanf(v, "%d", _)` into an `int`: space but no newline, a sign and digits. What follows
them is not looked at. -/
def sscanfInt (T : RuneTables) (v : GoString) : Except GoString Int :=
  let rest := (decode v).dropWhile fun p => isSpace p.1 && p.1 != 0x0A
  if (rest.head?.map Prod.fst) = some 0x0A then .error (lit "unexpected newline")
  else
    let s := rest.flatMap Prod.snd
    let sign := if s.head? = some 0x2D ∨ s.head? = some 0x2B then s.take 1 else []
    let digits := (s.drop sign.length).takeWhile isDigitByte
    if s.drop sign.length = [] then .error (lit "EOF")
    else if digits = [] then .error (lit "expected integer")
    else
      match atoi (sign ++ digits) with
      | some n => .ok n
      | none =>
        .error (lit "strconv.ParseInt: parsing " ++ goQuote T (sign ++ digits) ++
          lit ": value out of range")

/-- The keys that are fields. -/
def standardKeys : List GoString :=
  [lit "host", lit "port", lit "user", lit "password", lit "dbname", lit "sslmode"]

/-- The port of the tokens; `connstr.go:231-235`. -/
def readPort (T : RuneTables) (m : StringMap) : Except GoString Int :=
  match m[lit "port"]? with
  | none => .ok 0
  | some v =>
    match sscanfInt T v with
    | .ok n => .ok n
    | .error e => .error (lit "invalid port " ++ goQuote T v ++ lit ": " ++ e)

/-- The loop of `ParseDSN` over the tokens; `connstr.go:227-247`. Only the port can fail, so the
order does not matter. -/
def fromTokens (T : RuneTables) (m : StringMap) : Except GoString ConnParams :=
  (readPort T m).map fun port =>
    { host := m[lit "host"]?.getD []
      port
      user := m[lit "user"]?.getD []
      password := m[lit "password"]?.getD []
      database := m[lit "dbname"]?.getD []
      sslMode := m[lit "sslmode"]?.getD []
      extra := mapOf (m.toList.filter fun p => !standardKeys.contains p.1) }

/-- `ParseDSN`; `connstr.go:219-249`. -/
def parseDSN (T : RuneTables) (dsn : GoString) : Except GoString ConnParams :=
  (tokenizeDSN T dsn).bind (fromTokens T)

end Athos.Store
