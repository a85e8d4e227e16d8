import Athos.Base.Strings
import Athos.Base.Url

/-!
# Connection URIs

How libpq takes a connection URI apart (`conninfo_uri_parse_options` in `fe-connect.c`, versions 14
to 17). The text is split first, at `@`, `:`, `/`, `?`, `,`, `&` and `=`, and each part is
percent-decoded afterwards. A part that is empty counts as not given. What the options are for, and
which exist, is not looked at here.
-/

namespace Athos.Libpq

open Base List Option

/-- The parts of a connection URI. Several hosts and their ports are separated by commas. -/
structure Uri where
  user : GoString
  password : GoString
  host : GoString
  port : GoString
  dbname : GoString
  params : List (GoString × GoString)
  deriving DecidableEq

/-- The text before the first of some bytes, and the rest from there on. -/
def splitAtAny (stops s : GoString) : GoString × GoString :=
  (s.takeWhile fun b => !stops.contains b, s.dropWhile fun b => !stops.contains b)

/-- The scheme: `postgresql://` or `postgres://`. -/
def dropScheme (s : GoString) : Option GoString :=
  if lit "postgresql://" <+: s then some (s.drop 13)
  else if lit "postgres://" <+: s then some (s.drop 11)
  else none

/-- A host, in brackets if it is an IPv6 address, and what follows it. -/
def readHost (s : GoString) : Option (GoString × GoString) :=
  match s with
  | 0x5B :: t =>
    let r := cutByte 0x5D t
    if 0x5D ∈ t ∧ r.1 ≠ [] ∧ r.2.head?.all (lit ":/?,").contains then some r else none
  | s => some (splitAtAny (lit ":/?,") s)

/-- A port after a colon, and what follows it. -/
def readPort (s : GoString) : GoString × GoString :=
  match s with
  | 0x3A :: t => splitAtAny (lit "/?,") t
  | s => ([], s)

/-- A host with its port, and what follows them. -/
def readNetloc (s : GoString) : Option ((GoString × GoString) × GoString) :=
  (readHost s).map fun r => ((r.1, (readPort r.2).1), (readPort r.2).2)

private theorem length_splitAtAny (stops s : GoString) : (splitAtAny stops s).2.length ≤ s.length :=
  (dropWhile_sublist _).length_le

private theorem length_readNetloc {s rest : GoString} {netloc : GoString × GoString}
    (h : readNetloc s = some (netloc, rest)) : rest.length ≤ s.length := by
  obtain ⟨⟨host, after⟩, hhost, hrest⟩ := map_eq_some_iff.1 h
  have hafter : after.length ≤ s.length := by
    unfold readHost at hhost
    split at hhost
    · next t =>
      extract_lets r at hhost
      split_ifs at hhost
      obtain rfl := congrArg Prod.snd (some.inj hhost)
      have hlen : r.2.length ≤ t.length - 1 := length_cutByte_snd 0x5D t
      rw [length_cons]
      omega
    · obtain rfl := congrArg Prod.snd (some.inj hhost)
      exact length_splitAtAny _ _
  have hport : (readPort after).2.length ≤ after.length := by
    unfold readPort
    split
    · exact Nat.le_succ_of_le (length_splitAtAny _ _)
    · exact Nat.le_refl _
  obtain rfl := congrArg Prod.snd hrest
  exact Nat.le_trans hport hafter

/-- The hosts and their ports, in two lists with commas. -/
def readNetlocs (s : GoString) : Option ((GoString × GoString) × GoString) :=
  match _h : readNetloc s with
  | none => none
  | some (netloc, 0x2C :: t) =>
    (readNetlocs t).map fun r =>
      ((netloc.1 ++ 0x2C :: r.1.1, netloc.2 ++ 0x2C :: r.1.2), r.2)
  | some r => some r
termination_by s.length
decreasing_by exact length_readNetloc _h

/-- User and password, which stand before an `@`, and what follows them. -/
def readCredentials (s : GoString) : (GoString × GoString) × GoString :=
  match (splitAtAny (lit "@/") s).2 with
  | 0x40 :: t => (cutByte 0x3A (splitAtAny (lit "@/") s).1, t)
  | _ => (([], []), s)

/-- The database after a slash and the query after a question mark. -/
def readDatabase (s : GoString) : GoString × GoString :=
  match s with
  | 0x2F :: t => cutByte 0x3F t
  | 0x3F :: t => ([], t)
  | _ => ([], [])

/-- A parameter of the query: a keyword and a value with one `=` between them. -/
def readParam (s : GoString) : Option (GoString × GoString) :=
  if 0x3D ∈ s ∧ 0x3D ∉ (cutByte 0x3D s).2 then
    (unescape (cutByte 0x3D s).1).bind fun k =>
      (unescape (cutByte 0x3D s).2).map fun v => (k, v)
  else none

/-- The parameters of the query. -/
def readParams (s : GoString) : Option (List (GoString × GoString)) :=
  if _h : s = [] then some []
  else
    (readParam (cutByte 0x26 s).1).bind fun p =>
      (readParams (cutByte 0x26 s).2).map fun l => p :: l
termination_by s.length
decreasing_by
  have hlen := length_cutByte_snd 0x26 s
  have hpos := length_pos_of_ne_nil _h
  omega

/-- The parts of a URI, decoded. -/
def decodeParts (credentials netloc database : GoString × GoString) : Option Uri := do
  return {
    user := ← unescape credentials.1
    password := ← unescape credentials.2
    host := ← unescape netloc.1
    port := ← unescape netloc.2
    dbname := ← unescape database.1
    params := ← readParams database.2 }

/-- `conninfo_uri_parse_options`; `none` is any error. -/
def readUri (uri : GoString) : Option Uri := do
  let s ← dropScheme uri
  let (credentials, s) := readCredentials s
  let (netloc, s) ← readNetlocs s
  decodeParts credentials netloc (readDatabase s)

section Split

variable {stops s t : GoString} {c : UInt8}

private theorem splitAtAny_append_cons (hs : ∀ b ∈ s, b ∉ stops) (hc : c ∈ stops) (t : GoString) :
    splitAtAny stops (s ++ c :: t) = (s, c :: t) := by
  have hpass : ∀ b ∈ s, (!stops.contains b) = true := by simpa using hs
  have hstop : (!stops.contains c) = false := by simpa using hc
  rw [splitAtAny, takeWhile_append_of_pos hpass, dropWhile_append_of_pos hpass,
    takeWhile_cons_of_neg (by simp [hc]), dropWhile_cons_of_neg (by simp [hc]), append_nil]

/-- A text has a first stop or none. -/
theorem exists_first_stop (stops s : GoString) :
    (∀ b ∈ s, b ∉ stops) ∨ ∃ x c y, s = x ++ c :: y ∧ (∀ b ∈ x, b ∉ stops) ∧ c ∈ stops := by
  induction s with
  | nil => exact .inl (forall_mem_nil _)
  | cons b s ih =>
    by_cases hb : b ∈ stops
    · exact .inr ⟨[], b, s, rfl, forall_mem_nil _, hb⟩
    · rcases ih with hfree | ⟨x, c, y, rfl, hx, hc⟩
      · exact .inl (forall_mem_cons.2 ⟨hb, hfree⟩)
      · exact .inr ⟨b :: x, c, y, rfl, forall_mem_cons.2 ⟨hb, hx⟩, hc⟩

end Split

/-- Credentials end at the at sign. -/
theorem readCredentials_at {x : GoString} (hx : ∀ b ∈ x, b ∉ lit "@/") (t : GoString) :
    readCredentials (x ++ 0x40 :: t) = (cutByte 0x3A x, t) := by
  simp only [readCredentials, splitAtAny_append_cons hx (by decide : 0x40 ∈ lit "@/")]

/-- Without an at sign there are no credentials. -/
theorem readCredentials_slash {x : GoString} (hx : ∀ b ∈ x, b ∉ lit "@/") (t : GoString) :
    readCredentials (x ++ 0x2F :: t) = (([], []), x ++ 0x2F :: t) := by
  simp only [readCredentials, splitAtAny_append_cons hx (by decide : 0x2F ∈ lit "@/")]
  rfl

/-- The bytes that host names do without. -/
def hostStops : GoString := lit ":/?,[%"

section Netloc

variable {host port t : GoString} {c : UInt8} (hhost : ∀ b ∈ host, b ∉ hostStops)
  (hport : ∀ b ∈ port, b ∉ lit "/?,")

include hhost hport

private theorem readNetloc_name (hc : c ∈ lit "/?,") (t : GoString) :
    readNetloc (host ++ 0x3A :: (port ++ c :: t)) = some ((host, port), c :: t) := by
  have hsplit : readHost (host ++ 0x3A :: (port ++ c :: t)) =
      some (host, 0x3A :: (port ++ c :: t)) := by
    unfold readHost
    split
    · next u heq =>
      rcases append_eq_cons_iff.1 heq with ⟨-, htail⟩ | ⟨u, rfl, -⟩
      · cases htail
      · exact absurd (by decide) (hhost 0x5B mem_cons_self)
    · congr 1
      apply splitAtAny_append_cons _ (by decide)
      intro b hb hmem
      exact hhost b hb (mem_append_left (lit "[%") hmem)
  rw [readNetloc, hsplit, map_some]
  simp only [readPort, splitAtAny_append_cons hport hc]

/-- A host name with its port is read up to the path or the query. -/
theorem readNetlocs_name (hc : c ∈ lit "/?") (t : GoString) :
    readNetlocs (host ++ 0x3A :: (port ++ c :: t)) = some ((host, port), c :: t) := by
  have hnetloc := readNetloc_name hhost hport (mem_append_left [0x2C] hc : c ∈ lit "/?,") t
  have hcomma : c ≠ 0x2C := by
    rintro rfl
    exact absurd hc (by decide)
  rw [readNetlocs]
  split
  · next h => rw [hnetloc] at h; cases h
  · next h =>
    rw [hnetloc] at h
    cases h
    exact absurd rfl hcomma
  · next h => rw [← h, hnetloc]

/-- A comma in the port begins another host. -/
theorem readNetlocs_comma (t : GoString) :
    readNetlocs (host ++ 0x3A :: (port ++ 0x2C :: t)) =
      (readNetlocs t).map fun r => ((host ++ 0x2C :: r.1.1, port ++ 0x2C :: r.1.2), r.2) := by
  have hnetloc := readNetloc_name hhost hport (by decide : 0x2C ∈ lit "/?,") t
  rw [readNetlocs]
  split
  · next h => rw [hnetloc] at h; cases h
  · next h =>
    rw [hnetloc] at h
    cases h
    rfl
  · next hne h =>
    rw [hnetloc] at h
    exact absurd (some.inj h).symm (hne _ _)

end Netloc

/-- The parts are decoded one by one. -/
theorem decodeParts_eq_some {credentials netloc database : GoString × GoString} {u : Uri} :
    decodeParts credentials netloc database = some u ↔
      unescape credentials.1 = some u.user ∧ unescape credentials.2 = some u.password ∧
      unescape netloc.1 = some u.host ∧ unescape netloc.2 = some u.port ∧
      unescape database.1 = some u.dbname ∧ readParams database.2 = some u.params := by
  obtain ⟨user, password, host, port, dbname, params⟩ := u
  simp [decodeParts, bind_eq_some_iff]

/-- What follows the scheme is cut into parts and decoded. -/
theorem readUri_eq_some {uri s : GoString} {u : Uri} (hs : dropScheme uri = some s) :
    readUri uri = some u ↔ ∃ r, readNetlocs (readCredentials s).2 = some r ∧
      decodeParts (readCredentials s).1 r.1 (readDatabase r.2) = some u := by
  simp [readUri, hs, bind_eq_some_iff]

/-- The scheme of the connection URIs. -/
theorem dropScheme_postgresql (s : GoString) :
    dropScheme (lit "postgresql://" ++ s) = some s := by
  rw [dropScheme, if_pos (prefix_append _ _)]
  rfl

/-- How a text of four parts is read whose first three end where they should. -/
theorem readUri_text {credentials host port : GoString}
    (hcredentials : ∀ b ∈ credentials, b ∉ lit "@/")
    (hhost : ∀ b ∈ host, b ∉ hostStops) (hport : ∀ b ∈ port, b ∉ lit "/?,") (rest : GoString) :
    readUri (lit "postgresql://" ++
        (credentials ++ 0x40 :: (host ++ 0x3A :: (port ++ 0x2F :: rest)))) =
      decodeParts (cutByte 0x3A credentials) (host, port) (cutByte 0x3F rest) := by
  apply Option.ext
  intro u
  rw [readUri_eq_some (dropScheme_postgresql _), readCredentials_at hcredentials,
    readNetlocs_name hhost hport (by decide)]
  simp [readDatabase]

/-- Host names are made of unreserved characters. -/
def IsHostName (s : GoString) : Prop := ∀ b ∈ s, isUnreserved b = true

/-- A host name has none of the bytes that end it. -/
theorem IsHostName.no_stop {s : GoString} (h : IsHostName s) : ∀ b ∈ s, b ∉ hostStops := by
  intro b hb hmem
  have hstop : ∀ b ∈ hostStops, isUnreserved b = false := forall_mem_of_all rfl
  have hu := h b hb
  rw [hstop b hmem] at hu
  cases hu

end Athos.Libpq
