import Athos.Base.Strings
import Mathlib.Data.BitVec

/-!
# Client authentication

How PostgreSQL reads `pg_hba.conf` and uses it: the file is a list of records, the first one that
matches a connection says how the client has to authenticate, and a connection that no record
matches is rejected. What the file alone does not settle (role membership, regular expressions, the
addresses of the host, name lookup) is a parameter.
-/

namespace Athos.Server.Hba

open Base List

/-- An address of a client. -/
inductive Address where
  | v4 (a : BitVec 32)
  | v6 (a : BitVec 128)
  deriving DecidableEq

/-- An address and the mask of the bits that count. -/
inductive Network where
  | v4 (address mask : BitVec 32)
  | v6 (address mask : BitVec 128)
  deriving DecidableEq

/-- The bits under the mask are those of the network. -/
def inNetwork {w : Nat} (address mask a : BitVec w) : Bool := (a ^^^ address) &&& mask == 0#w

/-- Addresses of the other family are in no network. -/
def Network.contains : Network → Address → Bool
  | .v4 address mask, .v4 a => inNetwork address mask a
  | .v6 address mask, .v6 a => inNetwork address mask a
  | _, _ => false

/-- The mask of a prefix length. -/
def prefixMask (w length : Nat) : BitVec w := BitVec.allOnes w <<< (w - length)

/-- A number of at most three digits below a bound. -/
def smallNumber (bound : Nat) (s : GoString) : Option Nat :=
  if s ≠ [] ∧ s.all isDigitByte ∧ s.length ≤ 3 ∧ digitsValue s < bound then some (digitsValue s)
  else none

/-- Four decimal numbers, separated by dots. -/
def address4 (s : GoString) : Option (BitVec 32) :=
  match (s.splitOn 0x2E).mapM (smallNumber 256) with
  | some [a, b, c, d] => some (BitVec.ofNat 32 (((a * 256 + b) * 256 + c) * 256 + d))
  | _ => none

/-- The value of a hexadecimal digit. -/
def hexDigit (b : UInt8) : Option Nat :=
  if isDigitByte b then some (b.toNat - 0x30)
  else if 0x41 ≤ b ∧ b ≤ 0x46 then some (b.toNat - 0x37)
  else if 0x61 ≤ b ∧ b ≤ 0x66 then some (b.toNat - 0x57)
  else none

/-- A group of an IPv6 address: one to four hexadecimal digits. -/
def hexGroup (s : GoString) : Option Nat :=
  if s = [] ∨ 4 < s.length then none
  else (s.mapM hexDigit).map fun ds => ds.foldl (fun v d => v * 16 + d) 0

/-- Groups separated by colons, or none. -/
def hexGroups (s : GoString) : Option (List Nat) :=
  if s = [] then some [] else (s.splitOn 0x3A).mapM hexGroup

/-- The text before and after the first double colon. -/
def cutDouble : GoString → Option (GoString × GoString)
  | 0x3A :: 0x3A :: s => some ([], s)
  | b :: s => (cutDouble s).map fun p => (b :: p.1, p.2)
  | [] => none

/-- Eight groups, of which a double colon leaves out zeros. The form with a dotted end is not
read. -/
def address6 (s : GoString) : Option (BitVec 128) := do
  let groups ←
    match cutDouble s with
    | none => hexGroups s
    | some (before, after) => do
      let before ← hexGroups before
      let after ← hexGroups after
      if before.length + after.length ≤ 7 then
        some (before ++ List.replicate (8 - before.length - after.length) 0 ++ after)
      else none
  if groups.length = 8 then some (BitVec.ofNat 128 (groups.foldl (fun v g => v * 65536 + g) 0))
  else none

/-- A word of the file. Words that begin with a quote are not keywords. -/
structure Token where
  text : GoString
  quoted : Bool
  deriving DecidableEq

/-- The word is a keyword and not quoted. -/
def Token.isKeyword (t : Token) (keyword : GoString) : Bool := !t.quoted && t.text == keyword

/-- A field is a list of words separated by commas. -/
abbrev Field := List Token

/-- A word while it is read. -/
structure Word where
  text : GoString := []
  quoted : Bool := false
  inQuote : Bool := false
  wasQuote : Bool := false
  sawQuote : Bool := false

/-- The word, if there is one. -/
def Word.token (t : Word) : Field :=
  if t.sawQuote ∨ t.text ≠ [] then [⟨t.text, t.quoted⟩] else []

/-- Take a byte into the word. Two quotes inside quotes are one quote. -/
def Word.push (t : Word) (b : UInt8) : Word :=
  let text := if b ≠ 0x22 ∨ t.wasQuote then t.text ++ [b] else t.text
  { text := text
    quoted := t.quoted || (b == 0x22 && text == [])
    inQuote := if b = 0x22 then !t.inQuote else t.inQuote
    wasQuote := if t.inQuote ∧ b = 0x22 then !t.wasQuote else false
    sawQuote := t.sawQuote || b == 0x22 }

/-- A field that is not empty. -/
def closeField (field : Field) : List Field := if field = [] then [] else [field]

/-- The fields of a line: blanks end fields, commas end words, and `#` ends the line, each
outside quotes. -/
def lineFields : GoString → Field → Word → List Field
  | [], field, t => closeField (field ++ t.token)
  | b :: s, field, t =>
    if t.inQuote then lineFields s field (t.push b)
    else if b = 0x23 then closeField (field ++ t.token)
    else if b = 0x2C then
      if t.token = [] then closeField field ++ lineFields s [] {}
      else lineFields s (field ++ t.token) {}
    else if b = 0x20 ∨ b = 0x09 ∨ b = 0x0D then
      if t.token = [] then lineFields s field {}
      else closeField (field ++ t.token) ++ lineFields s [] {}
    else lineFields s field (t.push b)

/-- Lines, of which those that end in a backslash go on on the next one. -/
def fileLines (s : GoString) : List GoString :=
  (s.splitOn 0x0A).foldr (fun line rest =>
    if line.getLast? = some 0x5C then (line.dropLast ++ rest.headD []) :: rest.tail
    else line :: rest) []

/-- The kinds of records for TCP connections. -/
inductive HostKind where
  | host
  | hostssl
  | hostnossl
  | hostgssenc
  | hostnogssenc
  deriving DecidableEq

/-- The addresses that a record is for. -/
inductive AddressSpec where
  | all
  | samehost
  | samenet
  | network (n : Network)
  | name (host : GoString)
  deriving DecidableEq

/-- Whether a record is for sockets or for TCP connections. -/
inductive Scope where
  | local
  | host (kind : HostKind) (address : AddressSpec)
  deriving DecidableEq

/-- How a client is authenticated. -/
inductive Method where
  | trust
  | reject
  | password
  | md5
  | scramSha256
  | gss
  | sspi
  | ident
  | peer
  | pam
  | bsd
  | ldap
  | cert
  | radius
  deriving DecidableEq

/-- A record of the file. -/
structure Record where
  scope : Scope
  databases : Field
  users : Field
  method : Method
  options : List Field := []
  deriving DecidableEq

/-- The names of the kinds. -/
def hostKinds : List (GoString × HostKind) :=
  [(lit "host", .host), (lit "hostssl", .hostssl), (lit "hostnossl", .hostnossl),
    (lit "hostgssenc", .hostgssenc), (lit "hostnogssenc", .hostnogssenc)]

/-- The names of the methods. -/
def methods : List (GoString × Method) :=
  [(lit "trust", .trust), (lit "reject", .reject), (lit "password", .password),
    (lit "md5", .md5), (lit "scram-sha-256", .scramSha256), (lit "gss", .gss),
    (lit "sspi", .sspi), (lit "ident", .ident), (lit "peer", .peer), (lit "pam", .pam),
    (lit "bsd", .bsd), (lit "ldap", .ldap), (lit "cert", .cert), (lit "radius", .radius)]

/-- An address with a prefix length. -/
def cidr (s : GoString) : Option Network :=
  let (host, length) := cutByte 0x2F s
  match address4 host, address6 host with
  | some a, _ => (smallNumber 33 length).map fun n => .v4 a (prefixMask 32 n)
  | none, some a => (smallNumber 129 length).map fun n => .v6 a (prefixMask 128 n)
  | none, none => none

/-- The address of a record: a keyword, a network with a prefix length or with a mask in the
next field, or a host name. -/
def readAddress : List Field → Option (AddressSpec × List Field)
  | [t] :: rest =>
    if t.isKeyword (lit "all") then some (.all, rest)
    else if t.isKeyword (lit "samehost") then some (.samehost, rest)
    else if t.isKeyword (lit "samenet") then some (.samenet, rest)
    else if 0x2F ∈ t.text then (cidr t.text).map fun n => (.network n, rest)
    else
      match address4 t.text, address6 t.text, rest with
      | some a, _, [m] :: rest => (address4 m.text).map fun m => (.network (.v4 a m), rest)
      | none, some a, [m] :: rest => (address6 m.text).map fun m => (.network (.v6 a m), rest)
      | none, none, rest => some (.name t.text, rest)
      | _, _, _ => none
  | _ => none

/-- The fields after the type. -/
def readRecord : List Field → Option Record
  | [type] :: databases :: users :: rest => do
    let (scope, rest) ←
      if type.text = lit "local" then some (Scope.local, rest)
      else do
        let kind ← hostKinds.lookup type.text
        let (address, rest) ← readAddress rest
        some (Scope.host kind address, rest)
    match rest with
    | [method] :: options => do
      let method ← methods.lookup method.text
      some { scope, databases, users, method, options }
    | _ => none
  | _ => none

/-- The records of a file; one wrong line makes the whole file wrong. -/
def readFile (s : GoString) : Option (List Record) :=
  (((fileLines s).map fun line => lineFields line [] {}).filter (· ≠ [])).mapM readRecord

/-- What records are matched against apart from the connection. -/
structure Environment where
  isMember : GoString → GoString → Bool
  regexp : GoString → GoString → Bool
  samehost : Address → Bool
  samenet : Address → Bool
  resolves : GoString → Address → Bool

/-- How a connection is encrypted. -/
inductive Encryption where
  | none
  | tls
  | gss
  deriving DecidableEq

/-- How a client is connected. -/
inductive Transport where
  | socket
  | tcp (encryption : Encryption) (source : Address)
  deriving DecidableEq

/-- A connection; `replication` is one for physical replication, which has no database. -/
structure Connection where
  transport : Transport
  replication : Bool
  database : GoString
  user : GoString
  deriving DecidableEq

/-- A kind asks for encryption, or for none. -/
def HostKind.admits : HostKind → Encryption → Bool
  | .host, _ => true
  | .hostssl, e => e = .tls
  | .hostnossl, e => e ≠ .tls
  | .hostgssenc, e => e = .gss
  | .hostnogssenc, e => e ≠ .gss

/-- The address is one of those. -/
def AddressSpec.contains (env : Environment) : AddressSpec → Address → Bool
  | .all, _ => true
  | .samehost, a => env.samehost a
  | .samenet, a => env.samenet a
  | .network n, a => n.contains a
  | .name host, a => env.resolves host a

/-- The record is for such connections. -/
def Scope.admits (env : Environment) : Scope → Transport → Bool
  | .local, .socket => true
  | .host kind address, .tcp encryption source =>
    kind.admits encryption && address.contains env source
  | _, _ => false

/-- The word is the name, or a regular expression for it. -/
def Token.names (env : Environment) (t : Token) (name : GoString) : Bool :=
  if !t.quoted && t.text.head? == some 0x2F then env.regexp t.text.tail name else t.text == name

/-- A word for databases. Only `replication` stands for replication connections, and it stands
for no others. -/
def Token.admitsDatabase (env : Environment) (c : Connection) (t : Token) : Bool :=
  if c.replication then t.isKeyword (lit "replication")
  else if t.isKeyword (lit "all") then true
  else if t.isKeyword (lit "sameuser") then c.database == c.user
  else if t.isKeyword (lit "samegroup") || t.isKeyword (lit "samerole") then
    env.isMember c.user c.database
  else if t.isKeyword (lit "replication") then false
  else t.names env c.database

/-- A word for users. -/
def Token.admitsUser (env : Environment) (c : Connection) (t : Token) : Bool :=
  if !t.quoted && t.text.head? == some 0x2B then env.isMember c.user t.text.tail
  else if t.isKeyword (lit "all") then true
  else t.names env c.user

/-- The record is the one for a connection, if it is the first. -/
def Record.admits (env : Environment) (c : Connection) (r : Record) : Bool :=
  r.scope.admits env c.transport && r.databases.any (·.admitsDatabase env c) &&
    r.users.any (·.admitsUser env c)

/-- The method of the first record that matches. -/
def authenticate (env : Environment) (records : List Record) (c : Connection) : Option Method :=
  (records.find? (·.admits env c)).map (·.method)

/-- No record matches, or one that rejects. -/
def Rejected (env : Environment) (records : List Record) (c : Connection) : Prop :=
  authenticate env records c = none ∨ authenticate env records c = some .reject

section Rules

variable {env : Environment} {c : Connection} {method : Method} {records rest : List Record}

/-- Records with one method decide if one of them matches. -/
theorem authenticate_append (hmethod : ∀ r ∈ records, r.method = method) :
    authenticate env (records ++ rest) c =
      if records.any (·.admits env c) = true then some method else authenticate env rest c := by
  rw [authenticate, find?_append]
  cases hfind : records.find? (·.admits env c) with
  | none =>
    have hnone : records.any (·.admits env c) = false :=
      any_eq_false.2 (find?_eq_none.1 hfind)
    rw [hnone, if_neg Bool.false_ne_true, Option.none_or, authenticate]
  | some r =>
    have hr := mem_of_find?_eq_some hfind
    rw [if_pos (any_eq_true.2 ⟨r, hr, find?_some hfind⟩), Option.some_or,
      Option.map_some, hmethod r hr]

end Rules

end Athos.Server.Hba
