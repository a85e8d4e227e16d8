import Athos.Postgres.Config
import Athos.Server.Hba

/-!
# Which remote connections the default records admit

The text of `BuildHBAConf` with TLS and without custom rules, as the server reads it. Connections
for replication are admitted without TLS from the private networks, because their records come
before those that require it and are of type `host`.
-/

namespace Athos.Postgres

open Base Server.Hba List

/-- A network with a prefix length. -/
def network4 (a b c d length : Nat) : Network :=
  .v4 (BitVec.ofNat 32 (((a * 256 + b) * 256 + c) * 256 + d)) (prefixMask 32 length)

/-- An IPv6 network with a prefix length. -/
def network6 (address length : Nat) : Network :=
  .v6 (BitVec.ofNat 128 address) (prefixMask 128 length)

/-- The two networks of the host itself. -/
def loopback : List Network := [network4 127 0 0 1 32, network6 1 128]

/-- The networks that pods are taken to be in. -/
def podNetworks : List Network :=
  [network4 10 0 0 0 8, network4 172 16 0 0 12, network4 192 168 0 0 16]

/-- A record for all users that asks for a password. -/
def hostRecord (kind : HostKind) (database : GoString) (n : Network) : Record where
  scope := .host kind (.network n)
  databases := [⟨database, false⟩]
  users := [⟨lit "all", false⟩]
  method := .scramSha256

/-- The records of the default file with TLS. -/
def tlsRecords : List Record :=
  ⟨.local, [⟨lit "all", false⟩], [⟨lit "all", false⟩], .peer, []⟩ ::
    (loopback.map (hostRecord .host (lit "all")) ++
      podNetworks.map (hostRecord .host (lit "replication")) ++
      [network4 0 0 0 0 0, network6 0 0].map (hostRecord .hostssl (lit "all")))

private theorem readFile_buildHBAConf : readFile (buildHBAConf [] true) = some tlsRecords := by
  decide +kernel

section Matching

variable {env : Environment} {kind : HostKind} {n : Network} {encryption : Encryption}
  {source : Address} {db : GoString} {c : Connection}

/-- The keyword admits every user. -/
theorem all_admitsUser (c : Connection) : Token.admitsUser env c ⟨lit "all", false⟩ = true := rfl

private theorem all_admitsDatabase :
    Token.admitsDatabase env c ⟨lit "all", false⟩ = !c.replication := by
  unfold Token.admitsDatabase
  cases c.replication <;> rfl

private theorem replication_admitsDatabase :
    Token.admitsDatabase env c ⟨lit "replication", false⟩ = c.replication := by
  unfold Token.admitsDatabase
  cases c.replication <;> rfl

private theorem hostRecord_admits (hc : c.transport = .tcp encryption source) :
    (hostRecord kind db n).admits env c =
      (kind.admits encryption && n.contains source && Token.admitsDatabase env c ⟨db, false⟩) := by
  simp only [Record.admits, hostRecord, any_cons, any_nil, Bool.or_false,
    all_admitsUser, Bool.and_true, hc]
  rfl

private theorem anywhere_contains (a : Address) :
    (network4 0 0 0 0 0).contains a = true ∨ (network6 0 0).contains a = true := by
  cases a with
  | v4 a => exact .inl (by simp [network4, Network.contains, inNetwork, prefixMask])
  | v6 a => exact .inr (by simp [network6, Network.contains, inNetwork, prefixMask])

private theorem hostRecord_method {r : Record} {ns : List Network}
    (hr : r ∈ ns.map (hostRecord kind db)) : r.method = .scramSha256 := by
  obtain ⟨n, -, rfl⟩ := mem_map.1 hr
  rfl

private theorem authenticate_hosts (hc : c.transport = .tcp encryption source)
    {ns : List Network} {rest : List Record} :
    authenticate env (ns.map (hostRecord kind db) ++ rest) c =
      if (kind.admits encryption = true ∧ Token.admitsDatabase env c ⟨db, false⟩ = true) ∧
          ∃ n ∈ ns, n.contains source = true then some .scramSha256
      else authenticate env rest c := by
  rw [authenticate_append fun r => hostRecord_method]
  apply if_congr _ rfl rfl
  simp only [any_map, any_eq_true, Function.comp_apply, hostRecord_admits hc, Bool.and_eq_true]
  grind

private theorem authenticate_remote (hc : c.transport = .tcp encryption source)
    (hremote : ∀ n ∈ loopback, n.contains source = false) :
    authenticate env tlsRecords c =
      if c.replication = true then
        if ∃ n ∈ podNetworks, n.contains source = true then some .scramSha256 else none
      else if encryption = .tls then some .scramSha256 else none := by
  have hlocal : ∀ rest, authenticate env
      (⟨.local, [⟨lit "all", false⟩], [⟨lit "all", false⟩], .peer, []⟩ :: rest) c =
        authenticate env rest c := by
    intro rest
    simp only [authenticate, find?_cons, Record.admits, hc]
    rfl
  have hloopback : ¬ ∃ n ∈ loopback, n.contains source = true := by
    rintro ⟨n, hn, hcontains⟩
    rw [hremote n hn] at hcontains
    cases hcontains
  rw [tlsRecords, hlocal, append_assoc, authenticate_hosts hc, authenticate_hosts hc,
    ← append_nil (List.map _ [_, _]), authenticate_hosts hc, all_admitsDatabase,
    replication_admitsDatabase]
  cases c.replication with
  | true => simp [hloopback, HostKind.admits, authenticate]
  | false => simp [hloopback, anywhere_contains, HostKind.admits, authenticate]

end Matching

/-- Without TLS a connection is rejected, and with TLS an ordinary one has to give a password. -/
structure Enforced (env : Environment) (records : List Record) (c : Connection)
    (encryption : Encryption) : Prop where
  plain : encryption ≠ .tls → Rejected env records c
  tls : encryption = .tls → c.replication = false →
    authenticate env records c = some .scramSha256

/-- TLS is enforced on a connection from another host unless it is for replication, comes from a
pod network and does not use TLS. -/
theorem tls_enforced_iff (env : Environment) (encryption : Encryption) (source : Address)
    (replication : Bool) (database user : GoString)
    (hremote : ∀ n ∈ loopback, n.contains source = false) :
    ∃ records, readFile (buildHBAConf [] true) = some records ∧
      (Enforced env records ⟨.tcp encryption source, replication, database, user⟩ encryption ↔
        ¬ (encryption ≠ .tls ∧ replication = true ∧
          ∃ n ∈ podNetworks, n.contains source = true)) := by
  refine ⟨tlsRecords, readFile_buildHBAConf, ?_⟩
  constructor
  · rintro henforced ⟨hplain, rfl, hpod⟩
    have hrejected := henforced.plain hplain
    rw [Rejected, authenticate_remote rfl hremote, if_pos rfl, if_pos hpod] at hrejected
    rcases hrejected with h | h <;> cases h
  · intro hnot
    constructor
    · intro hplain
      left
      rw [authenticate_remote rfl hremote, if_neg hplain]
      split_ifs with hreplication hpod
      · exact absurd ⟨hplain, hreplication, hpod⟩ hnot
      · rfl
      · rfl
    · intro htls hordinary
      rw [authenticate_remote rfl hremote, if_pos htls]
      exact if_neg (Bool.eq_false_iff.1 hordinary)

/-- No role is a member of another one, and no name is known. -/
def sampleEnvironment : Environment where
  isMember _ _ := false
  regexp _ _ := false
  samehost _ := false
  samenet _ := false
  resolves _ _ := false

/-- A connection to the database of an application from 10.0.0.1 needs TLS. -/
theorem tls_enforced_ordinary :
    ∃ records, readFile (buildHBAConf [] true) = some records ∧
      Enforced sampleEnvironment records
        ⟨.tcp .none (.v4 0x0A000001#32), false, lit "app", lit "app"⟩ .none := by
  obtain ⟨records, hread, hiff⟩ := tls_enforced_iff sampleEnvironment .none
    (.v4 0x0A000001#32) false (lit "app") (lit "app") (by decide)
  exact ⟨records, hread, hiff.2 (by decide)⟩

/-- One for replication from there is admitted without TLS. -/
theorem replication_admitted_without_tls :
    ∃ records, readFile (buildHBAConf [] true) = some records ∧
      authenticate sampleEnvironment records
        ⟨.tcp .none (.v4 0x0A000001#32), true, [], lit "postgres"⟩ = some .scramSha256 ∧
      ¬ Enforced sampleEnvironment records
        ⟨.tcp .none (.v4 0x0A000001#32), true, [], lit "postgres"⟩ .none := by
  have hadmitted : authenticate sampleEnvironment tlsRecords
      ⟨.tcp .none (.v4 0x0A000001#32), true, [], lit "postgres"⟩ = some .scramSha256 := by decide
  refine ⟨tlsRecords, readFile_buildHBAConf, hadmitted, ?_⟩
  intro henforced
  rcases henforced.plain (by decide) with h | h <;> rw [hadmitted] at h <;> cases h

end Athos.Postgres
