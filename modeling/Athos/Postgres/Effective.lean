import Athos.Postgres.Resources
import Athos.Server.Conf

/-!
# What the server makes of the parameters

The file of `BuildConfigMap` as the server reads it, against the parameters of
`src/internal/postgres/params.go` that the operator has to set. The file is made of the defaults and
the user's parameters alone, and it lists capital letters first.
-/

namespace Athos.Postgres

open Base Kube Api Server List Option Std.ExtTreeMap Conf

/-- `maxConnections`; `params.go:109-113`. The product is one of 32-bit integers. -/
def maxConnections (cluster : PostgresCluster) : Int := (100 * cluster.spec.instances).bmod (2 ^ 32)

/-- The required parameters as a list. -/
def requiredEntries (cluster : PostgresCluster) : List (GoString × GoString) :=
  [(lit "listen_addresses", lit "*"),
    (lit "port", lit "5432"),
    (lit "max_connections", decimal (maxConnections cluster)),
    (lit "superuser_reserved_connections", lit "3")]

/-- `RequiredConnectionParams`; `params.go:99-106`. -/
def requiredConnectionParams (cluster : PostgresCluster) : StringMap :=
  mapOf (requiredEntries cluster)

/-- What the server reads from the text of a value. -/
def readText (text : GoString) : Option GoString :=
  readValue wordBytes (text.dropWhile isBlank)

/-- The user sets the parameter to the text, in some letter case. -/
def Sets (user : StringMap) (name text : GoString) : Prop :=
  ∃ k : GoString, user[k]? = some text ∧ foldName k = foldName name

/-- The value a parameter should have: what the operator requires, else what the user set, else
the default. -/
def Expected (cluster : PostgresCluster) (name : GoString) (value : Option GoString) : Prop :=
  match (requiredConnectionParams cluster)[foldName name]? with
  | some required => value = some required
  | none =>
    (∃ text v, Sets cluster.spec.postgresParameters name text ∧ readText text = some v ∧
        value = some v) ∨
      (¬ ∃ text, Sets cluster.spec.postgresParameters name text) ∧
        value = (defaultParams[foldName name]?).bind readText

/-- The entries of the file. -/
def fileParams (user : StringMap) : StringMap := mergeParams defaultParams user

private theorem getElem?_fileParams (user : StringMap) (k : GoString) :
    (fileParams user)[k]? = user[k]?.or defaultParams[k]? := getElem?_mergeMaps _ _ k

private theorem defaultParams_spec {k v : GoString} (h : defaultParams[k]? = some v) :
    isName k = true ∧ foldName k = k ∧ 0x0A ∉ v ∧ (readText v).isSome = true := by
  have hall : ∀ p ∈ defaultParams.toList, isName p.1 = true ∧ foldName p.1 = p.1 ∧
      0x0A ∉ p.2 ∧ (readText p.2).isSome = true := by decide +kernel
  exact hall (k, v) (mem_toList_iff_getElem?_eq_some.2 h)

private theorem buildPostgresConf_eq (params : StringMap) :
    buildPostgresConf params = ([lit "# Managed by Athos. Do not edit manually."] ++
      params.toList.map assignment).flatMap (· ++ [0x0A]) := by
  rw [buildPostgresConf, flatMap_append, flatMap_map]
  rfl

private theorem getElem?_postgresConf (cluster : PostgresCluster) :
    (buildConfigMap cluster).spec.data[lit "postgresql.conf"]? =
      some (buildPostgresConf (fileParams cluster.spec.postgresParameters)) := by
  have hd : [lit "postgresql.conf", lit "pg_hba.conf"].Nodup := by decide
  apply (getElem?_mapOf ?_).2
  · exact mem_cons_self
  · exact hd

section Entries

variable {user : StringMap} {name k v : GoString}

private theorem mem_toList_iff {m : StringMap} {p : GoString × GoString} :
    p ∈ m.toList ↔ m[p.1]? = some p.2 := mem_toList_iff_getElem?_eq_some

private theorem mem_fileParams (h : (fileParams user)[k]? = some v) :
    user[k]? = some v ∨ defaultParams[k]? = some v := by
  rw [getElem?_fileParams, or_eq_some_iff] at h
  exact h.imp_right And.right

private theorem lastNamed_of_default {d : GoString}
    (h : defaultParams[foldName name]? = some d) :
    lastNamed (fileParams user).toList name =
      some (foldName name, user[foldName name]?.getD d) := by
  have hget : (fileParams user)[foldName name]? =
      some (user[foldName name]?.getD d) := by
    rw [getElem?_fileParams, h]
    cases user[foldName name]? <;> rfl
  apply (lastNamed_eq_some_iff ordered_keys_toList).2
  refine ⟨mem_toList_iff.2 hget, foldName_foldName name, ?_⟩
  rintro ⟨k, v⟩ hq hname
  have hv := mem_toList_iff.1 hq
  by_cases hk : k = foldName name
  · left
    rw [hk, hget, some.injEq] at hv
    rw [hk, hv]
  · right
    show compare k (foldName name) = .lt
    rw [← show foldName k = foldName name from hname]
    apply compare_foldName
    intro he
    exact hk (he.symm.trans hname)

private theorem lastNamed_of_not_default (h : defaultParams[foldName name]? = none) :
    lastNamed (fileParams user).toList name = lastNamed user.toList name := by
  have hmem : ∀ q : GoString × GoString, foldName q.1 = foldName name →
      (q ∈ (fileParams user).toList ↔ q ∈ user.toList) := by
    rintro ⟨k, v⟩ hq
    have hnone : defaultParams[k]? = none := by
      cases hd : defaultParams[k]? with
      | none => rfl
      | some d =>
        have hlower := (defaultParams_spec hd).2.1
        rw [← hq, hlower, hd] at h
        cases h
    rw [mem_toList_iff, mem_toList_iff, getElem?_fileParams]
    show user[k]?.or defaultParams[k]? = some v ↔ user[k]? = some v
    rw [hnone, or_none]
  apply Option.ext
  intro p
  rw [lastNamed_eq_some_iff ordered_keys_toList, lastNamed_eq_some_iff ordered_keys_toList]
  constructor
  · rintro ⟨hp, hname, hgreatest⟩
    refine ⟨(hmem p hname).1 hp, hname, ?_⟩
    intro q hq hqname
    exact hgreatest q ((hmem q hqname).2 hq) hqname
  · rintro ⟨hp, hname, hgreatest⟩
    refine ⟨(hmem p hname).2 hp, hname, ?_⟩
    intro q hq hqname
    exact hgreatest q ((hmem q hqname).1 hq) hqname

end Entries

/-- The parameters with which the file says what it should. Nothing in the file requires the
required ones, so they are as the user and the defaults have them; and the default of a
parameter that the user spells with capital letters comes after the user's value. -/
structure Agrees (cluster : PostgresCluster) (user : StringMap) : Prop where
  names : ∀ k v : GoString, user[k]? = some v → isName k = true
  readable : ∀ k v : GoString, user[k]? = some v → (readText v).isSome = true
  listenAddresses : ∀ v, user[lit "listen_addresses"]? = some v → readText v = some (lit "*")
  port : ∀ v, user[lit "port"]? = some v → readText v = some (lit "5432")
  maxConnections : readText (user[lit "max_connections"]?.getD (lit "100")) =
    some (decimal (maxConnections cluster))
  reservedConnections : ∃ p, lastNamed user.toList (lit "superuser_reserved_connections") =
    some p ∧ readText p.2 = some (lit "3")
  spelling : ∀ k v d : GoString, user[k]? = some v → defaultParams[foldName k]? = some d →
    (requiredConnectionParams cluster)[foldName k]? = none →
    user[foldName k]?.isSome = true ∨ ∃ w, Sets user k w ∧ readText w = readText d

section Reading

variable {cluster : PostgresCluster} {user : StringMap} {out : List (GoString × GoString)}
  {name : GoString}

private theorem getElem?_requiredConnectionParams {k v : GoString} :
    (requiredConnectionParams cluster)[k]? = some v ↔ (k, v) ∈ requiredEntries cluster := by
  have hd : [lit "listen_addresses", lit "port", lit "max_connections",
      lit "superuser_reserved_connections"].Nodup := by decide
  exact getElem?_mapOf hd

private theorem mem_requiredEntries (cluster : PostgresCluster) :
    (lit "listen_addresses", lit "*") ∈ requiredEntries cluster ∧
      (lit "port", lit "5432") ∈ requiredEntries cluster ∧
      (lit "max_connections", decimal (maxConnections cluster)) ∈ requiredEntries cluster ∧
      (lit "superuser_reserved_connections", lit "3") ∈ requiredEntries cluster := by
  simp [requiredEntries]

private theorem defaultParams_required :
    defaultParams[lit "listen_addresses"]? = some (lit "'*'") ∧
      defaultParams[lit "port"]? = some (lit "5432") ∧
      defaultParams[lit "max_connections"]? = some (lit "100") ∧
      defaultParams[lit "superuser_reserved_connections"]? = none := by
  decide +kernel

private theorem readFile_buildPostgresConf
    (hnames : ∀ k v : GoString, user[k]? = some v → isName k = true)
    (hvalues : ∀ k v : GoString, user[k]? = some v → 0x0A ∉ v) :
    readFile wordBytes (buildPostgresConf (fileParams user)) =
      readEntries wordBytes (fileParams user).toList := by
  rw [buildPostgresConf_eq]
  apply readFile_assignments
  · decide
  · intro p hp
    rcases mem_fileParams (mem_toList_iff.1 hp) with h | h
    · exact hnames _ _ h
    · exact (defaultParams_spec h).1
  · intro p hp
    rcases mem_fileParams (mem_toList_iff.1 hp) with h | h
    · exact hvalues _ _ h
    · exact (defaultParams_spec h).2.2.1

private theorem effective_of_default
    (h : readEntries wordBytes (fileParams user).toList = some out) {d : GoString}
    (hd : defaultParams[foldName name]? = some d) :
    effective out name = readText (user[foldName name]?.getD d) := by
  rw [effective_of_readEntries h, lastNamed_of_default hd]
  rfl

private theorem effective_of_not_default
    (h : readEntries wordBytes (fileParams user).toList = some out)
    (hd : defaultParams[foldName name]? = none) :
    effective out name = (lastNamed user.toList name).bind fun p => readText p.2 := by
  rw [effective_of_readEntries h, lastNamed_of_not_default hd]
  rfl

private theorem names_of_expected {file : GoString} {assignments : List (GoString × GoString)}
    (h : readFile wordBytes file = some assignments)
    (hexpected : ∀ name, Expected cluster name (effective assignments name)) {k v : GoString}
    (hv : cluster.spec.postgresParameters[k]? = some v) : isName k = true := by
  have hvalue : ∃ w, effective assignments k = some w := by
    have hk := hexpected k
    rw [Expected] at hk
    split at hk
    · exact ⟨_, hk⟩
    · rcases hk with ⟨text, w, -, -, hw⟩ | ⟨hnot, -⟩
      · exact ⟨w, hw⟩
      · exact absurd ⟨v, k, hv, rfl⟩ hnot
  obtain ⟨w, hw⟩ := hvalue
  obtain ⟨q, hq, hname⟩ := exists_mem_of_effective hw
  rw [← isName_foldName, ← hname, isName_foldName]
  exact isName_of_readFile h q hq

section Expected

variable (h : readEntries wordBytes
    (fileParams cluster.spec.postgresParameters).toList = some out)
  (hexpected : ∀ name, Expected cluster name (effective out name))

include hexpected in
private theorem effective_of_expected {r : GoString} (hmem : (name, r) ∈ requiredEntries cluster)
    (hlower : foldName name = name) : effective out name = some r := by
  have hname := hexpected name
  rw [Expected, hlower, getElem?_requiredConnectionParams.2 hmem] at hname
  exact hname

include h hexpected

private theorem readText_of_expected {r d : GoString} (hmem : (name, r) ∈ requiredEntries cluster)
    (hlower : foldName name = name) (hd : defaultParams[name]? = some d) :
    readText (cluster.spec.postgresParameters[name]?.getD d) = some r := by
  have hvalue := effective_of_expected hexpected hmem hlower
  rw [effective_of_default h (by rw [hlower]; exact hd), hlower] at hvalue
  exact hvalue

private theorem readText_of_expected_of_set {r d v : GoString}
    (hmem : (name, r) ∈ requiredEntries cluster) (hlower : foldName name = name)
    (hd : defaultParams[name]? = some d) (hv : cluster.spec.postgresParameters[name]? = some v) :
    readText v = some r := by
  have hread := readText_of_expected h hexpected hmem hlower hd
  rw [hv] at hread
  exact hread

private theorem agrees_of_expected
    (hnames : ∀ k v : GoString, cluster.spec.postgresParameters[k]? = some v →
      isName k = true) : Agrees cluster cluster.spec.postgresParameters := by
  obtain ⟨hlisten, hport, hconnections, hreserved⟩ := defaultParams_required
  obtain ⟨hlisten', hport', hconnections', hreserved'⟩ := mem_requiredEntries cluster
  constructor
  case names => exact hnames
  case readable =>
    intro k v hv
    have hmem : (k, v) ∈ (fileParams cluster.spec.postgresParameters).toList := by
      rw [mem_toList_iff, getElem?_fileParams]
      show (cluster.spec.postgresParameters[k]?).or _ = _
      rw [hv]
      rfl
    obtain ⟨w, -, hread⟩ := exists_mem_of_readEntries h hmem
    exact isSome_iff_exists.2 ⟨w, hread⟩
  case listenAddresses =>
    exact fun v => readText_of_expected_of_set h hexpected hlisten' (by decide) hlisten
  case port => exact fun v => readText_of_expected_of_set h hexpected hport' (by decide) hport
  case maxConnections =>
    exact readText_of_expected h hexpected hconnections' (by decide) hconnections
  case reservedConnections =>
    have hlower : foldName (lit "superuser_reserved_connections") =
        lit "superuser_reserved_connections" := by decide
    have hread := effective_of_expected hexpected hreserved' hlower
    rw [effective_of_not_default h (by rw [hlower]; exact hreserved)] at hread
    exact bind_eq_some_iff.1 hread
  case spelling =>
    intro k v d hv hd hnone
    have hk := hexpected k
    rw [Expected, hnone, effective_of_default h hd] at hk
    cases hlower : cluster.spec.postgresParameters[foldName k]? with
    | some w => exact .inl rfl
    | none =>
      right
      rw [hlower] at hk
      rcases hk with ⟨w, value, hw, hread, heq⟩ | ⟨hnot, -⟩
      · exact ⟨w, hw, hread.trans heq.symm⟩
      · exact absurd ⟨v, k, hv, rfl⟩ hnot

end Expected

variable (h : readEntries wordBytes (fileParams cluster.spec.postgresParameters).toList = some out)

include h

private theorem required_of_agrees (hagrees : Agrees cluster cluster.spec.postgresParameters)
    {r : GoString} (hmem : (foldName name, r) ∈ requiredEntries cluster) :
    effective out name = some r := by
  obtain ⟨hlisten, hport, hconnections, hreserved⟩ := defaultParams_required
  simp only [requiredEntries, mem_cons, Prod.mk.injEq, not_mem_nil, or_false] at hmem
  rcases hmem with ⟨hname, rfl⟩ | ⟨hname, rfl⟩ | ⟨hname, rfl⟩ | ⟨hname, rfl⟩
  · rw [effective_of_default h (by rw [hname]; exact hlisten), hname]
    cases hv : cluster.spec.postgresParameters[lit "listen_addresses"]? with
    | none => decide
    | some v => exact hagrees.listenAddresses v hv
  · rw [effective_of_default h (by rw [hname]; exact hport), hname]
    cases hv : cluster.spec.postgresParameters[lit "port"]? with
    | none => decide
    | some v => exact hagrees.port v hv
  · rw [effective_of_default h (by rw [hname]; exact hconnections), hname]
    exact hagrees.maxConnections
  · obtain ⟨p, hlast, hread⟩ := hagrees.reservedConnections
    rw [effective_of_not_default h (by rw [hname]; exact hreserved)]
    have hlast' : lastNamed cluster.spec.postgresParameters.toList name = some p := by
      rw [← hlast, lastNamed, lastNamed, hname]
      rfl
    rw [hlast']
    exact hread

private theorem expected_of_agrees (hagrees : Agrees cluster cluster.spec.postgresParameters)
    (name : GoString) : Expected cluster name (effective out name) := by
  rw [Expected]
  cases hrequired : (requiredConnectionParams cluster)[foldName name]? with
  | some r => exact required_of_agrees h hagrees (getElem?_requiredConnectionParams.1 hrequired)
  | none =>
    cases hd : defaultParams[foldName name]? with
    | some d =>
      rw [effective_of_default h hd]
      cases hlower : cluster.spec.postgresParameters[foldName name]? with
      | some w =>
        obtain ⟨value, hvalue⟩ := isSome_iff_exists.1 (hagrees.readable _ _ hlower)
        exact .inl ⟨w, value, ⟨_, hlower, foldName_foldName name⟩, hvalue, hvalue⟩
      | none =>
        by_cases hsets : ∃ text, Sets cluster.spec.postgresParameters name text
        · left
          obtain ⟨v, k, hv, hk⟩ := hsets
          rw [← hk] at hd hrequired hlower
          rcases hagrees.spelling k v d hv hd hrequired with hsome | ⟨w, hw, hread⟩
          · rw [hlower] at hsome
            cases hsome
          · obtain ⟨k', hk', hfold⟩ := hw
            obtain ⟨value, hvalue⟩ := isSome_iff_exists.1 (hagrees.readable _ _ hk')
            exact ⟨w, value, ⟨k', hk', hfold.trans hk⟩, hvalue, hread.symm.trans hvalue⟩
        · exact .inr ⟨hsets, rfl⟩
    | none =>
      rw [effective_of_not_default h hd]
      cases hlast : lastNamed cluster.spec.postgresParameters.toList name with
      | some p =>
        obtain ⟨hp, hname, -⟩ :=
          (lastNamed_eq_some_iff ordered_keys_toList).1 hlast
        obtain ⟨value, hvalue⟩ := isSome_iff_exists.1
          (hagrees.readable _ _ (mem_toList_iff.1 hp))
        exact .inl ⟨p.2, value, ⟨p.1, mem_toList_iff.1 hp, hname⟩, hvalue, hvalue⟩
      | none =>
        refine .inr ⟨?_, rfl⟩
        rintro ⟨v, k, hv, hk⟩
        exact lastNamed_eq_none_iff.1 hlast (k, v) (mem_toList_iff.2 hv) hk

end Reading

/-- The server finds the expected values in the file exactly with such parameters. -/
theorem effective_configuration_iff (cluster : PostgresCluster)
    (hvalues : ∀ k v : GoString, cluster.spec.postgresParameters[k]? = some v → 0x0A ∉ v) :
    (∃ file assignments, (buildConfigMap cluster).spec.data[lit "postgresql.conf"]? = some file ∧
      readFile wordBytes file = some assignments ∧
      ∀ name, Expected cluster name (effective assignments name)) ↔
    Agrees cluster cluster.spec.postgresParameters := by
  constructor
  · rintro ⟨file, assignments, hfile, hassignments, hexpected⟩
    have hnames : ∀ k v : GoString, cluster.spec.postgresParameters[k]? = some v →
        isName k = true := fun k v hv => names_of_expected hassignments hexpected hv
    rw [getElem?_postgresConf, some.injEq] at hfile
    rw [← hfile, readFile_buildPostgresConf hnames hvalues] at hassignments
    exact agrees_of_expected hassignments hexpected hnames
  · intro hagrees
    have hread := readFile_buildPostgresConf hagrees.names hvalues
    have hreadable : ∀ p ∈ (fileParams cluster.spec.postgresParameters).toList,
        (readText p.2).isSome = true := by
      intro p hp
      rcases mem_fileParams (mem_toList_iff.1 hp) with h | h
      · exact hagrees.readable _ _ h
      · exact (defaultParams_spec h).2.2.2
    obtain ⟨out, hout⟩ := exists_readEntries hreadable
    exact ⟨_, out, getElem?_postgresConf cluster, hread.trans hout,
      expected_of_agrees hout hagrees⟩

/-- A cluster with one instance and some parameters. -/
def sampleTuned (parameters : List (GoString × GoString)) : PostgresCluster where
  metadata := { name := lit "db", namespace_ := lit "default" }
  spec :=
    { postgresVersion := 16
      instances := 1
      storage := { size := .ofBinary 10 30 }
      postgresParameters := mapOf parameters }
  status := ({} : PostgresClusterStatus)

/-- The user has to set the reserved connections. -/
theorem effective_configuration_reserved :
    ∃ file assignments, (buildConfigMap (sampleTuned
        [(lit "superuser_reserved_connections", lit "3")])).spec.data[lit "postgresql.conf"]? =
          some file ∧
      readFile wordBytes file = some assignments ∧
      ∀ name, Expected (sampleTuned [(lit "superuser_reserved_connections", lit "3")]) name
        (effective assignments name) := by
  have hmem : ∀ k v : GoString, (mapOf [(lit "superuser_reserved_connections", lit "3")])[k]? =
      some v ↔ k = lit "superuser_reserved_connections" ∧ v = lit "3" := by
    intro k v
    have hd : ([(lit "superuser_reserved_connections", lit "3")].map Prod.fst).Nodup :=
      pairwise_singleton _ _
    rw [getElem?_mapOf hd, mem_singleton, Prod.mk.injEq]
  apply (effective_configuration_iff
    (sampleTuned [(lit "superuser_reserved_connections", lit "3")]) ?_).2
  · constructor
    case names =>
      intro k v h
      obtain ⟨rfl, -⟩ := (hmem k v).1 h
      decide
    case readable =>
      intro k v h
      obtain ⟨-, rfl⟩ := (hmem k v).1 h
      decide
    case listenAddresses =>
      intro v h
      exact absurd ((hmem _ v).1 h).1 (by decide)
    case port =>
      intro v h
      exact absurd ((hmem _ v).1 h).1 (by decide)
    case maxConnections => decide +kernel
    case reservedConnections =>
      exact ⟨(lit "superuser_reserved_connections", lit "3"), by decide +kernel, by decide⟩
    case spelling =>
      intro k v d h
      obtain ⟨rfl, -⟩ := (hmem k v).1 h
      have hnone : defaultParams[foldName (lit "superuser_reserved_connections")]? = none := by
        decide +kernel
      rw [hnone]
      nofun
  · intro k v h
    obtain ⟨-, rfl⟩ := (hmem k v).1 h
    decide

/-- A cluster whose user moves the port and spells a parameter with capital letters. -/
def sampleMoved : PostgresCluster :=
  sampleTuned [(lit "Work_Mem", lit "64MB"), (lit "port", lit "6000")]

/-- The server listens on the user's port, works with the default memory, and has no reserved
connections from the file. -/
theorem effective_configuration_overridden :
    ∃ file assignments,
      (buildConfigMap sampleMoved).spec.data[lit "postgresql.conf"]? = some file ∧
      readFile wordBytes file = some assignments ∧
      effective assignments (lit "port") = some (lit "6000") ∧
      effective assignments (lit "work_mem") = some (lit "4MB") ∧
      effective assignments (lit "superuser_reserved_connections") = none ∧
      ¬ Expected sampleMoved (lit "port") (effective assignments (lit "port")) := by
  have hread : ((readFile wordBytes
      (buildPostgresConf (fileParams sampleMoved.spec.postgresParameters))).map fun assignments =>
        (effective assignments (lit "port"), effective assignments (lit "work_mem"),
          effective assignments (lit "superuser_reserved_connections"))) =
      some (some (lit "6000"), some (lit "4MB"), none) := by decide +kernel
  obtain ⟨assignments, hfile, heq⟩ := map_eq_some_iff.1 hread
  obtain ⟨hport, hmemory, hreserved⟩ := by simpa only [Prod.mk.injEq] using heq
  refine ⟨_, assignments, getElem?_postgresConf sampleMoved, hfile, hport, hmemory, hreserved, ?_⟩
  rw [hport, Expected]
  have hrequired : (requiredConnectionParams sampleMoved)[foldName (lit "port")]? =
      some (lit "5432") := getElem?_requiredConnectionParams.2 (mem_requiredEntries _).2.1
  rw [hrequired]
  decide

end Athos.Postgres
