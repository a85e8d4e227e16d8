import Athos.Libpq.Conninfo
import Athos.Server.Conf

/-!
# Standby configuration

`PrimaryConnInfo` and `RecoveryConfig` of `src/internal/replication/replication.go`. The connection
string of the primary is written without any quoting, and is then put between quotes in the
configuration file. So a value goes through two readers: that of the file and that of libpq.
-/

namespace Athos.Replication

open Base Libpq Server List Conninfo Conf

/-- `ReplicationUser`; `replication.go:50`. -/
def replicationUser : GoString := lit "replicator"

/-- `StandbyConfig`; `replication.go:106-115`. -/
structure StandbyConfig where
  primaryHost : GoString
  replicationPassword : GoString
  applicationName : GoString
  postgresVersion : Int
  deriving DecidableEq

namespace StandbyConfig

/-- `PrimaryConnInfo`; `replication.go:45-47,117-125`. -/
def primaryConnInfo (s : StandbyConfig) : GoString :=
  lit "host=" ++ s.primaryHost ++ lit " port=5432 user=" ++ replicationUser ++
    lit " password=" ++ s.replicationPassword ++ lit " application_name=" ++ s.applicationName

/-- `RecoveryConfig`; `replication.go:127-140`. -/
def recoveryConfig (s : StandbyConfig) : GoString :=
  lit "# Managed by athos-kubernetes - do not edit\n" ++
    (lit "primary_conninfo = '" ++ s.primaryConnInfo ++ lit "'\n") ++
    lit "restore_command = ''\n" ++
    lit "recovery_target_timeline = 'latest'\n" ++
    (if s.postgresVersion < 12 then lit "standby_mode = 'on'\n" else [])

/-- What the server connects with: `primary_conninfo` of the file, read by libpq. -/
def connection (K : Keywords) (further : UInt8 → Bool) (s : StandbyConfig) :
    Option (GoMap GoString) := do
  let assignments ← readFile further s.recoveryConfig
  let value ← effective assignments (lit "primary_conninfo")
  parse K value

/-- What it is meant to connect with. -/
def intended (s : StandbyConfig) : List Pair :=
  [(lit "host", s.primaryHost), (lit "port", lit "5432"), (lit "user", lit "replicator"),
    (lit "password", s.replicationPassword), (lit "application_name", s.applicationName)]

/-- The assignments of the file after the first. -/
private def others (version : Int) : List (GoString × GoString) :=
  [(lit "restore_command", lit "''"), (lit "recovery_target_timeline", lit "'latest'")] ++
    if version < 12 then [(lit "standby_mode", lit "'on'")] else []

/-- The assignments of the file. -/
private def entries (s : StandbyConfig) : List (GoString × GoString) :=
  (lit "primary_conninfo", 0x27 :: (s.primaryConnInfo ++ [0x27])) :: others s.postgresVersion

/-- The values have no newline. -/
def OneLine (s : StandbyConfig) : Prop :=
  0x0A ∉ s.primaryHost ∧ 0x0A ∉ s.replicationPassword ∧ 0x0A ∉ s.applicationName

instance (s : StandbyConfig) : Decidable s.OneLine := inferInstanceAs (Decidable (_ ∧ _))

variable {K : Keywords} {further : UInt8 → Bool} {s : StandbyConfig}

private theorem recoveryConfig_eq (s : StandbyConfig) :
    s.recoveryConfig = ([lit "# Managed by athos-kubernetes - do not edit"] ++
      s.entries.map assignment).flatMap (· ++ [0x0A]) := by
  rw [recoveryConfig, entries, others]
  generalize s.primaryConnInfo = text
  by_cases hv : s.postgresVersion < 12
  · simp only [if_pos hv, map_cons, map_nil, flatMap_cons, flatMap_nil,
      assignment, append_assoc, cons_append, nil_append, append_nil]
    rfl
  · simp only [if_neg hv, map_cons, map_nil, flatMap_cons, flatMap_nil,
      assignment, append_assoc, cons_append, nil_append, append_nil]
    rfl

variable (further) in
private theorem others_read {version : Int} {p : GoString × GoString} (hp : p ∈ others version) :
    isName p.1 = true ∧ 0x0A ∉ p.2 ∧ foldName p.1 ≠ lit "primary_conninfo" ∧
      (readValue further (p.2.dropWhile isBlank)).isSome = true := by
  rw [others] at hp
  split_ifs at hp
  · simp only [cons_append, nil_append, mem_cons, not_mem_nil, or_false] at hp
    rcases hp with rfl | rfl | rfl <;> exact ⟨rfl, by decide, by decide, rfl⟩
  · simp only [append_nil, mem_cons, not_mem_nil, or_false] at hp
    rcases hp with rfl | rfl <;> exact ⟨rfl, by decide, by decide, rfl⟩

-- The string without its values.
private def keywordText : GoString :=
  lit "host=" ++ lit " port=5432 user=" ++ replicationUser ++ lit " password=" ++
    lit " application_name="

private theorem mem_primaryConnInfo {b : UInt8} :
    b ∈ s.primaryConnInfo ↔ b ∈ keywordText ∨
      b ∈ s.primaryHost ++ s.replicationPassword ++ s.applicationName := by
  simp only [primaryConnInfo, keywordText, mem_append, or_assoc, or_comm, or_left_comm]

private theorem primaryConnInfo_oneLine (h : s.OneLine) : 0x0A ∉ s.primaryConnInfo := by
  obtain ⟨hhost, hpassword, hname⟩ := h
  rw [mem_primaryConnInfo]
  rintro (hfixed | hvalue)
  · exact absurd hfixed (by decide)
  · simp only [mem_append, hhost, hpassword, hname, or_self] at hvalue

private theorem lastNamed_entries (s : StandbyConfig) :
    lastNamed s.entries (lit "primary_conninfo") =
      some (lit "primary_conninfo", 0x27 :: (s.primaryConnInfo ++ [0x27])) := by
  have hnone : lastNamed (others s.postgresVersion) (lit "primary_conninfo") = none :=
    lastNamed_eq_none_iff.2 fun p hp => (others_read (fun _ => true) hp).2.2.1
  rw [entries, lastNamed_cons, hnone]
  rfl

private theorem connection_eq (h : s.OneLine) :
    s.connection K further =
      (readValue further (0x27 :: (s.primaryConnInfo ++ [0x27]))).bind (parse K) := by
  have hnames : ∀ p ∈ s.entries, isName p.1 = true := by
    rw [entries, forall_mem_cons]
    exact ⟨rfl, fun p hp => (others_read further hp).1⟩
  have hvalues : ∀ p ∈ s.entries, 0x0A ∉ p.2 := by
    rw [entries, forall_mem_cons]
    refine ⟨?_, fun p hp => (others_read further hp).2.1⟩
    simp [primaryConnInfo_oneLine h]
  have hcomments : ∀ line ∈ [lit "# Managed by athos-kubernetes - do not edit"],
      0x0A ∉ line ∧ atEnd line = true := by
    decide
  rw [connection, recoveryConfig_eq, readFile_assignments hcomments hnames hvalues]
  cases hread : readEntries further s.entries with
  | some out =>
    have heffective := effective_of_readEntries hread (lit "primary_conninfo")
    rw [lastNamed_entries] at heffective
    show (effective out (lit "primary_conninfo")).bind _ = _
    rw [heffective]
    rfl
  | none =>
    cases hvalue : readValue further (0x27 :: (s.primaryConnInfo ++ [0x27])) with
    | none => rfl
    | some v =>
      -- All entries can be read, so the file can.
      have hall : ∀ p ∈ s.entries,
          (readValue further (p.2.dropWhile isBlank)).isSome = true := by
        rw [entries, forall_mem_cons]
        exact ⟨congrArg Option.isSome hvalue, fun p hp => (others_read further hp).2.2.2⟩
      obtain ⟨out, hout⟩ := exists_readEntries hall
      rw [hout] at hread
      cases hread

/-- The values stand for themselves in a connection string. -/
def Plain (s : StandbyConfig) : Prop :=
  ∀ b ∈ s.primaryHost ++ s.replicationPassword ++ s.applicationName, isPlain b = true

instance (s : StandbyConfig) : Decidable s.Plain :=
  inferInstanceAs (Decidable (∀ b ∈ _, _ = true))

-- An empty value takes the pair after it for its value.
private def hostPairs (s : StandbyConfig) : List Pair :=
  if s.primaryHost = [] then [(lit "host", lit "port=5432")]
  else [(lit "host", s.primaryHost), (lit "port", lit "5432")]

private def passwordPairs (s : StandbyConfig) : List Pair :=
  if s.replicationPassword = [] then
    [(lit "password", lit "application_name=" ++ s.applicationName)]
  else [(lit "password", s.replicationPassword), (lit "application_name", s.applicationName)]

private theorem transduces_host (h : s.Plain) :
    Transduces step .start (lit "host=" ++ s.primaryHost ++ lit " port=5432 ") .start
      s.hostPairs := by
  rw [hostPairs]
  split_ifs with hempty
  · rw [hempty]
    rfl
  · have hkeyword : Transduces step .start (lit "host=") (.assigned (lit "host")) [] := rfl
    have hvalue := transduces_value (k := lit "host") (v := s.primaryHost)
      (fun b hb => h b (by simp [hb])) hempty
    have hport : Transduces step .start (lit "port=5432 ") .start
        [(lit "port", lit "5432")] := rfl
    have hrun := (hkeyword.append hvalue).append hport
    simp only [append_assoc, nil_append] at hrun ⊢
    exact hrun

private theorem pairs_primaryConnInfo (h : s.Plain) :
    pairs s.primaryConnInfo =
      some (s.hostPairs ++ [(lit "user", lit "replicator")] ++ s.passwordPairs) := by
  have huser : Transduces step .start (lit "user=replicator ") .start
      [(lit "user", lit "replicator")] := rfl
  have hrun := (transduces_host h).append huser
  rw [passwordPairs]
  split_ifs with hempty
  · have hkeyword : Transduces step .start (lit "password= ")
        (.assigned (lit "password")) [] := rfl
    have hfixed : ∀ b ∈ lit "application_name=", isPlain b = true :=
      forall_mem_of_all (by decide)
    have hvalue : ∀ b ∈ lit "application_name=" ++ s.applicationName,
        isPlain b = true := by
      intro b hb
      rcases mem_append.1 hb with hb | hb
      · exact hfixed b hb
      · exact h b (mem_append_right _ hb)
    have hpairs := pairs_of_transduces (hrun.append hkeyword) hvalue
    rw [append_nil] at hpairs
    rw [← hpairs, primaryConnInfo, hempty]
    simp only [append_assoc]
    rfl
  · have hkeyword : Transduces step .start (lit "password=")
        (.assigned (lit "password")) [] := rfl
    have hvalue := transduces_value (k := lit "password") (v := s.replicationPassword)
      (fun b hb => h b (by simp [hb])) hempty
    have hname : Transduces step .start (lit "application_name=")
        (.assigned (lit "application_name")) [] := rfl
    have hpairs := pairs_of_transduces (v := s.applicationName)
      (((hrun.append hkeyword).append hvalue).append hname)
      (fun b hb => h b (mem_append_right _ hb))
    rw [primaryConnInfo]
    simp only [append_assoc, append_nil] at hpairs ⊢
    exact hpairs

private theorem plain_not_mem (h : s.Plain) {b : UInt8} (hb : isPlain b = false)
    (hfixed : b ∉ keywordText) : b ∉ s.primaryConnInfo := by
  rw [mem_primaryConnInfo]
  rintro (hmem | hmem)
  · exact hfixed hmem
  · rw [h b hmem] at hb
    cases hb

private theorem nodup_intended (s : StandbyConfig) : (s.intended.map Prod.fst).Nodup := by
  have hkeys : [lit "host", lit "port", lit "user", lit "password",
      lit "application_name"].Nodup := by decide
  exact hkeys

private theorem parse_primaryConnInfo_iff (h : s.Plain) :
    parse K s.primaryConnInfo = some (collect s.intended) ↔
      s.primaryHost ≠ [] ∧ s.replicationPassword ≠ [] := by
  rw [parse, pairs_primaryConnInfo h, Option.bind_some]
  constructor
  · intro hparse
    rw [Option.ite_none_right_eq_some, Option.some.injEq] at hparse
    -- A keyword after an empty value is missing.
    have hmem : ∀ k v, (k, v) ∈ s.intended →
        k ∈ s.hostPairs.map Prod.fst ++ [lit "user"] ++ s.passwordPairs.map Prod.fst := by
      intro k v hkv
      have hget := getElem?_collect (nodup_intended s) hkv
      rw [← hparse.2] at hget
      have hpair := List.mem_map_of_mem (f := Prod.fst) (mem_of_getElem?_collect hget)
      rwa [map_append, map_append] at hpair
    constructor
    · intro hempty
      have hport := hmem (lit "port") (lit "5432") (by simp [intended])
      rw [hostPairs, if_pos hempty, passwordPairs] at hport
      split_ifs at hport
      · exact absurd hport (by decide : lit "port" ∉ [lit "host", lit "user", lit "password"])
      · exact absurd hport (by decide : lit "port" ∉ [lit "host", lit "user", lit "password",
          lit "application_name"])
    · intro hempty
      have hname := hmem (lit "application_name") s.applicationName (by simp [intended])
      rw [passwordPairs, if_pos hempty, hostPairs] at hname
      split_ifs at hname
      · exact absurd hname (by decide : lit "application_name" ∉ [lit "host", lit "user",
          lit "password"])
      · exact absurd hname (by decide : lit "application_name" ∉ [lit "host", lit "port",
          lit "user", lit "password"])
  · rintro ⟨hhost, hpassword⟩
    have hknown : s.intended.all (K.known ·.1) = true := by
      rw [List.all_eq_true]
      intro p hp
      exact K.connection p.1 (List.mem_map_of_mem (f := Prod.fst) hp)
    rw [hostPairs, if_neg hhost, passwordPairs, if_neg hpassword]
    exact if_pos hknown

private theorem length_keywords :
    (lit "host").length = 4 ∧ (lit "port").length = 4 ∧ (lit "user").length = 4 ∧
      (lit "password").length = 8 ∧ (lit "application_name").length = 16 ∧
      (lit "5432").length = 4 ∧ (lit "replicator").length = 10 := by decide

private theorem cost_intended (s : StandbyConfig) :
    (s.intended.map cost).sum = s.primaryConnInfo.length + 1 := by
  have hkeys := length_keywords
  have hfixed : (lit "host=").length = 5 ∧ (lit " port=5432 user=").length = 16 ∧
      replicationUser.length = 10 ∧ (lit " password=").length = 10 ∧
      (lit " application_name=").length = 18 := by decide
  simp only [intended, map_cons, map_nil, sum_cons, sum_nil, cost, primaryConnInfo, length_append]
  omega

private theorem solid_primaryConnInfo (s : StandbyConfig) :
    solid s.primaryConnInfo + s.primaryHost.length + s.replicationPassword.length +
        s.applicationName.length =
      (s.intended.map size).sum + solid s.primaryHost +
        solid s.replicationPassword + solid s.applicationName := by
  have hkeys := length_keywords
  have hfixed : solid (lit "host=") = 5 ∧ solid (lit " port=5432 user=") = 14 ∧
      solid replicationUser = 10 ∧ solid (lit " password=") = 9 ∧
      solid (lit " application_name=") = 17 := by decide
  have happend : ∀ t u, solid (t ++ u) = solid t + solid u :=
    fun t u => List.countP_append
  simp only [intended, map_cons, map_nil, sum_cons, sum_nil, size, primaryConnInfo, happend]
  omega

private theorem plain_of_connection {v : GoString}
    (hread : readValue further (0x27 :: (s.primaryConnInfo ++ [0x27])) = some v)
    (hparse : parse K v = some (collect s.intended)) :
    v = s.primaryConnInfo ∧ s.Plain := by
  obtain ⟨ps, hpairs, hps⟩ := Option.bind_eq_some_iff.1 hparse
  rw [Option.ite_none_right_eq_some, Option.some.injEq] at hps
  have hsub := subperm_of_collect_eq (nodup_intended s) hps.2
  -- The intended pairs take the whole string, so neither reader has dropped a byte.
  have hcost := sum_le_of_subperm hsub cost
  have hfits := cost_pairs_le hpairs
  rw [cost_intended] at hcost
  obtain ⟨-, hwhole⟩ := length_readValue_quoted hread
  obtain ⟨rfl, hquote, hslash⟩ := hwhole (by omega)
  refine ⟨rfl, ?_⟩
  -- They take all of it but four blanks, so there are no others.
  have hsize := sum_le_of_subperm hsub size
  have hsolid := size_pairs_le hpairs hquote hslash
  have hbalance := solid_primaryConnInfo s
  have hle : ∀ t, solid t ≤ t.length := fun t => countP_le_length
  have hhost := hle s.primaryHost
  have hpassword := hle s.replicationPassword
  have hname := hle s.applicationName
  have hblank : ∀ t, solid t = t.length → ∀ b ∈ t, isCSpace b = false := by
    intro t ht b hb
    simpa using countP_eq_length.1 ht b hb
  intro b hb
  have hspace : isCSpace b = false := by
    simp only [mem_append] at hb
    rcases hb with (hb | hb) | hb
    · exact hblank _ (by omega) b hb
    · exact hblank _ (by omega) b hb
    · exact hblank _ (by omega) b hb
  have hin : b ∈ s.primaryConnInfo := mem_primaryConnInfo.2 (.inr hb)
  have hneq : b ≠ 0x27 ∧ b ≠ 0x5C :=
    ⟨fun he => hquote (he ▸ hin), fun he => hslash (he ▸ hin)⟩
  simp [isPlain, hspace, hneq]

/-- The server connects with the values of the configuration, and with nothing else, exactly if
there are a host and a password and no value has blanks, quotes or backslashes. -/
theorem connection_eq_intended_iff (K : Keywords) (further : UInt8 → Bool)
    (s : StandbyConfig) (h : s.OneLine) :
    s.connection K further = some (collect s.intended) ↔
      s.primaryHost ≠ [] ∧ s.replicationPassword ≠ [] ∧
        ∀ b ∈ s.primaryHost ++ s.replicationPassword ++ s.applicationName,
          isCSpace b = false ∧ b ≠ 0x27 ∧ b ≠ 0x5C := by
  have hplain : s.Plain ↔ ∀ b ∈ s.primaryHost ++ s.replicationPassword ++ s.applicationName,
      isCSpace b = false ∧ b ≠ 0x27 ∧ b ≠ 0x5C := by
    simp only [Plain, isPlain, Bool.and_eq_true, Bool.not_eq_true', bne_iff_ne, and_assoc]
  rw [connection_eq h, ← hplain]
  constructor
  · intro hconnection
    obtain ⟨v, hread, hparse⟩ := Option.bind_eq_some_iff.1 hconnection
    obtain ⟨rfl, hvalues⟩ := plain_of_connection hread hparse
    obtain ⟨hhost, hpassword⟩ := (parse_primaryConnInfo_iff hvalues).1 hparse
    exact ⟨hhost, hpassword, hvalues⟩
  · rintro ⟨hhost, hpassword, hvalues⟩
    rw [readValue_quoted (plain_not_mem hvalues (by decide) (by decide))
      (plain_not_mem hvalues (by decide) (by decide)), Option.bind_some]
    exact (parse_primaryConnInfo_iff hvalues).2 ⟨hhost, hpassword⟩

end StandbyConfig

/-- Some keywords. -/
def sampleKeywords : Keywords where
  known k := [lit "host", lit "port", lit "user", lit "password", lit "application_name",
    lit "dbname", lit "sslmode"].contains k
  connection := by decide

/-- A standby with a given password. -/
def sampleStandby (password : GoString) : StandbyConfig where
  primaryHost := lit "db-primary"
  replicationPassword := password
  applicationName := lit "db-1"
  postgresVersion := 16

/-- An ordinary password. -/
theorem sampleStandby_connects :
    (sampleStandby (lit "s3cret")).connection sampleKeywords wordBytes =
      some (collect (sampleStandby (lit "s3cret")).intended) :=
  (StandbyConfig.connection_eq_intended_iff sampleKeywords wordBytes
    (sampleStandby (lit "s3cret")) (by decide)).2 ⟨by decide, by decide, by decide +kernel⟩

/-- A blank ends the password and lets it set another option, and a quote ends the file's value. -/
theorem sampleStandby_misread :
    ((sampleStandby (lit "s3cret sslmode=disable")).connection sampleKeywords wordBytes).map
        (·.toList) =
      some [(lit "application_name", lit "db-1"), (lit "host", lit "db-primary"),
        (lit "password", lit "s3cret"), (lit "port", lit "5432"), (lit "sslmode", lit "disable"),
        (lit "user", lit "replicator")] ∧
    (sampleStandby (lit "it's")).connection sampleKeywords wordBytes = none := by
  decide +kernel

end Athos.Replication
