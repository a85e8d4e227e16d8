import Athos.Base.Strings
import Athos.Kube.Object

/-!
# Memory settings from container resources

`AutoTune` of `src/internal/postgres/params.go`. Amounts are 64-bit integers whose arithmetic wraps,
and each is written in the largest unit that it has one of, rounded down.
-/

namespace Athos.Postgres

open Base Kube List

/-- `Quantity.Value`: the whole number away from zero. Parsing caps quantities at 64 bits. -/
def quantityValue (q : Quantity) : Int64 :=
  Int64.ofInt (q.nano.sign * ((q.nano.natAbs + 999999999) / 1000000000 : Nat))

/-- `ResourceList.Memory`; zero stands for a missing entry. -/
def memoryOf (l : ResourceList) : Quantity := l.getD (lit "memory") ⟨0⟩

/-- `containerMemoryBytes`; `params.go:115-126`. -/
def containerMemoryBytes (cluster : PostgresCluster) : Int64 :=
  let limit := memoryOf cluster.spec.resources.limits
  quantityValue (if limit.nano = 0 then memoryOf cluster.spec.resources.requests else limit)

/-- `fmtMemory`; `params.go:129-143`. -/
def fmtMemory (bytes : Int64) : GoString :=
  if 1073741824 ≤ bytes then decimal (bytes / 1073741824).toInt ++ lit "GB"
  else if 1048576 ≤ bytes then decimal (bytes / 1048576).toInt ++ lit "MB"
  else decimal (bytes / 1024).toInt ++ lit "kB"

/-- An amount with a cap. -/
def capped (bytes cap : Int64) : Int64 := if cap < bytes then cap else bytes

/-- The settings for so many bytes of memory; `params.go:53-81`. -/
def tunedParams (memBytes : Int64) : List (GoString × GoString) :=
  [ (lit "shared_buffers", fmtMemory (capped (memBytes / 4) 8589934592)),
    (lit "effective_cache_size", fmtMemory (memBytes * 3 / 4)),
    (lit "maintenance_work_mem", fmtMemory (capped (memBytes / 20) 2147483648)),
    (lit "work_mem", lit "4MB"),
    (lit "checkpoint_completion_target", lit "0.9"),
    (lit "wal_buffers", lit "-1"),
    (lit "default_statistics_target", lit "100"),
    (lit "random_page_cost", lit "1.1"),
    (lit "effective_io_concurrency", lit "200") ]

/-- `AutoTune`; `params.go:42-84`. -/
def autoTune (cluster : PostgresCluster) : StringMap :=
  let memBytes := containerMemoryBytes cluster
  if memBytes ≤ 0 then ∅ else mapOf (tunedParams memBytes)

/-- The bytes of a unit as PostgreSQL counts them. -/
def unitBytes (unit : GoString) : Option Int :=
  if unit = lit "kB" then some 1024
  else if unit = lit "MB" then some 1048576
  else if unit = lit "GB" then some 1073741824
  else none

/-- A number and a unit of two letters, as bytes. -/
def readMemory (s : GoString) : Option Int := do
  let unit ← unitBytes (s.drop (s.length - 2))
  let n ← atoi (s.take (s.length - 2))
  return n * unit

/-- The three settings that depend on the memory, in bytes. -/
structure Settings where
  sharedBuffers : Int
  effectiveCacheSize : Int
  maintenanceWorkMem : Int
  deriving DecidableEq

/-- The settings as the server reads them. -/
def readSettings (params : StringMap) : Option Settings := do
  let shared ← (params[lit "shared_buffers"]?).bind readMemory
  let cache ← (params[lit "effective_cache_size"]?).bind readMemory
  let maintenance ← (params[lit "maintenance_work_mem"]?).bind readMemory
  return ⟨shared, cache, maintenance⟩

/-- More than half of the value is left, if there was a unit of it. -/
def MostLeft (rounded value : Int) : Prop := 1024 ≤ value → value < 2 * rounded

/-- The settings keep to a container's memory. -/
structure WithinBudget (m : Int) (s : Settings) : Prop where
  shared_le : s.sharedBuffers ≤ min (m / 4) (8 * 2 ^ 30)
  maintenance_le : s.maintenanceWorkMem ≤ min (m / 20) (2 * 2 ^ 30)
  shared_le_cache : s.sharedBuffers ≤ s.effectiveCacheSize
  cache_le : s.effectiveCacheSize ≤ 3 * m / 4
  nonneg : 0 ≤ s.sharedBuffers ∧ 0 ≤ s.effectiveCacheSize ∧ 0 ≤ s.maintenanceWorkMem
  shared_left : MostLeft s.sharedBuffers (min (m / 4) (8 * 2 ^ 30))
  cache_left : MostLeft s.effectiveCacheSize (3 * m / 4)
  maintenance_left : MostLeft s.maintenanceWorkMem (min (m / 20) (2 * 2 ^ 30))

/-- No setting is larger. -/
def Settings.AtMost (s s' : Settings) : Prop :=
  s.sharedBuffers ≤ s'.sharedBuffers ∧ s.effectiveCacheSize ≤ s'.effectiveCacheSize ∧
    s.maintenanceWorkMem ≤ s'.maintenanceWorkMem

/-- The settings of a cluster can be read, keep to its memory, and are no smaller than those of
clusters with less. -/
def Tuned (cluster : PostgresCluster) : Prop :=
  ∃ s, readSettings (autoTune cluster) = some s ∧
    WithinBudget (containerMemoryBytes cluster).toInt s ∧
    ∀ cluster' s', 0 < containerMemoryBytes cluster' →
      containerMemoryBytes cluster' ≤ containerMemoryBytes cluster →
      readSettings (autoTune cluster') = some s' → s'.AtMost s

section

variable {v w m : Int}

/-- An amount in the largest unit that it has one of. -/
def roundDown (v : Int) : Int :=
  if 1073741824 ≤ v then v / 1073741824 * 1073741824
  else if 1048576 ≤ v then v / 1048576 * 1048576
  else v.tdiv 1024 * 1024

private theorem roundDown_le (h : 0 ≤ v) : roundDown v ≤ v ∧ 0 ≤ roundDown v := by
  unfold roundDown
  rw [Int.tdiv_eq_ediv_of_nonneg h]
  split_ifs <;> omega

private theorem tdiv_nonpos (h : v ≤ 0) {d : Int} (hd : 0 ≤ d) : v.tdiv d ≤ 0 := by
  have hneg := Int.tdiv_nonneg (Int.neg_nonneg_of_nonpos h) hd
  rw [Int.neg_tdiv] at hneg
  omega

private theorem roundDown_nonpos (h : v ≤ 0) : roundDown v ≤ 0 := by
  have hkb := tdiv_nonpos h (d := 1024) (by decide)
  rw [roundDown, if_neg (by omega), if_neg (by omega)]
  omega

private theorem mostLeft_roundDown (h : 0 ≤ v) : MostLeft (roundDown v) v := by
  intro hunit
  unfold roundDown
  rw [Int.tdiv_eq_ediv_of_nonneg h]
  split_ifs <;> omega

private theorem roundDown_le_roundDown (h : 0 ≤ v) (hvw : v ≤ w) : roundDown v ≤ roundDown w := by
  unfold roundDown
  rw [Int.tdiv_eq_ediv_of_nonneg h, Int.tdiv_eq_ediv_of_nonneg (Int.le_trans h hvw)]
  split_ifs <;> omega

private theorem readMemory_unit (b d : Int64) (hd : d ≠ -1) {unit : GoString}
    (hlength : unit.length = 2) (hunit : unitBytes unit = some d.toInt) :
    readMemory (decimal (b / d).toInt ++ unit) = some (b.toInt.tdiv d.toInt * d.toInt) := by
  have hlen : (decimal (b / d).toInt ++ unit).length - 2 = (decimal (b / d).toInt).length := by
    rw [length_append, hlength, Nat.add_sub_cancel]
  rw [readMemory, hlen, drop_left, take_left, hunit,
    atoi_decimal (b / d).le_toInt (b / d).toInt_lt, Int64.toInt_div_of_ne_right b d hd]
  rfl

private theorem readMemory_fmtMemory (b : Int64) :
    readMemory (fmtMemory b) = some (roundDown b.toInt) := by
  have hgb : (1073741824 : Int64).toInt = 1073741824 := by decide
  have hmb : (1048576 : Int64).toInt = 1048576 := by decide
  have hkb : (1024 : Int64).toInt = 1024 := by decide
  unfold fmtMemory roundDown
  simp only [Int64.le_iff_toInt_le, hgb, hmb]
  split_ifs with h h'
  · rw [readMemory_unit b 1073741824 (by decide) rfl (by decide), hgb,
      Int.tdiv_eq_ediv_of_nonneg (by omega)]
  · rw [readMemory_unit b 1048576 (by decide) rfl (by decide), hmb,
      Int.tdiv_eq_ediv_of_nonneg (by omega)]
  · rw [readMemory_unit b 1024 (by decide) rfl (by decide), hkb]

/-- What the settings are as numbers. -/
def settingsOf (m : Int) : Settings where
  sharedBuffers := roundDown (min (m / 4) (8 * 2 ^ 30))
  effectiveCacheSize := roundDown (((3 * m).bmod (2 ^ 64)).tdiv 4)
  maintenanceWorkMem := roundDown (min (m / 20) (2 * 2 ^ 30))

private theorem toInt_capped (b cap : Int64) : (capped b cap).toInt = min b.toInt cap.toInt := by
  unfold capped
  split_ifs with h
  · rw [Int64.lt_iff_toInt_lt] at h
    omega
  · rw [Int64.lt_iff_toInt_lt] at h
    omega

private theorem toInt_div_of_nonneg {b : Int64} (hb : 0 ≤ b.toInt) {d : Int64} (hd : d ≠ -1) :
    (b / d).toInt = b.toInt / d.toInt := by
  rw [Int64.toInt_div_of_ne_right b d hd, Int.tdiv_eq_ediv_of_nonneg hb]

private theorem readSettings_autoTune {cluster : PostgresCluster}
    (h : 0 < containerMemoryBytes cluster) :
    readSettings (autoTune cluster) = some (settingsOf (containerMemoryBytes cluster).toInt) := by
  have hpos : 0 < (containerMemoryBytes cluster).toInt := Int64.lt_iff_toInt_lt.1 h
  have hquarter : (containerMemoryBytes cluster / 4).toInt =
      (containerMemoryBytes cluster).toInt / 4 :=
    toInt_div_of_nonneg (Int.le_of_lt hpos) (by decide)
  have htwentieth : (containerMemoryBytes cluster / 20).toInt =
      (containerMemoryBytes cluster).toInt / 20 :=
    toInt_div_of_nonneg (Int.le_of_lt hpos) (by decide)
  have hcache : (containerMemoryBytes cluster * 3 / 4).toInt =
      ((3 * (containerMemoryBytes cluster).toInt).bmod (2 ^ 64)).tdiv 4 := by
    rw [Int64.toInt_div_of_ne_right _ 4 (by decide), Int64.toInt_mul, Int.mul_comm]
    rfl
  have hkeys : ((tunedParams (containerMemoryBytes cluster)).map Prod.fst).Nodup := by
    simp only [tunedParams, map_cons, map_nil]
    decide
  have hget : ∀ k v, (k, v) ∈ tunedParams (containerMemoryBytes cluster) →
      (mapOf (tunedParams (containerMemoryBytes cluster)))[k]? = some v :=
    fun k v hmem => (getElem?_mapOf hkeys).2 hmem
  rw [autoTune, if_neg (Int64.not_le.2 h), readSettings, hget (lit "shared_buffers") _ (.head _),
    hget (lit "effective_cache_size") _ (.tail _ (.head _)),
    hget (lit "maintenance_work_mem") _ (.tail _ (.tail _ (.head _)))]
  simp only [Option.bind_some, readMemory_fmtMemory, toInt_capped, hquarter, htwentieth, hcache]
  rfl

private theorem settingsOf_eq (hpos : 0 < m) (hm : 3 * m < 2 ^ 63) :
    settingsOf m =
      { sharedBuffers := roundDown (min (m / 4) (8 * 2 ^ 30))
        effectiveCacheSize := roundDown (3 * m / 4)
        maintenanceWorkMem := roundDown (min (m / 20) (2 * 2 ^ 30)) } := by
  rw [settingsOf, Int.bmod_eq_of_le (by omega) (by omega), Int.tdiv_eq_ediv_of_nonneg (by omega)]

private theorem withinBudget_settingsOf (hpos : 0 < m) (hm : 3 * m < 2 ^ 63) :
    WithinBudget m (settingsOf m) := by
  have hshared := roundDown_le (v := min (m / 4) (8 * 2 ^ 30)) (by omega)
  have hmaintenance := roundDown_le (v := min (m / 20) (2 * 2 ^ 30)) (by omega)
  have hsize := roundDown_le (v := 3 * m / 4) (by omega)
  rw [settingsOf_eq hpos hm]
  exact
    { shared_le := hshared.1
      maintenance_le := hmaintenance.1
      shared_le_cache := roundDown_le_roundDown (by omega) (by omega)
      cache_le := hsize.1
      nonneg := ⟨hshared.2, hsize.2, hmaintenance.2⟩
      shared_left := mostLeft_roundDown (by omega)
      cache_left := mostLeft_roundDown (by omega)
      maintenance_left := mostLeft_roundDown (by omega) }

private theorem settingsOf_atMost {m' : Int} (hpos : 0 < m') (hle : m' ≤ m) (hm : 3 * m < 2 ^ 63) :
    (settingsOf m').AtMost (settingsOf m) := by
  rw [settingsOf_eq hpos (by omega), settingsOf_eq (by omega) hm]
  refine ⟨?_, ?_, ?_⟩
  · exact roundDown_le_roundDown (by omega) (by omega)
  · exact roundDown_le_roundDown (by omega) (by omega)
  · exact roundDown_le_roundDown (by omega) (by omega)

private theorem not_withinBudget_settingsOf (hm : 2 ^ 63 ≤ 3 * m) (hlt : m < 2 ^ 63) :
    ¬ WithinBudget m (settingsOf m) := by
  intro h
  have hbmod : (3 * m).bmod (2 ^ 64) = 3 * m - 2 ^ 64 := by
    rw [Int.bmod_def]
    split_ifs <;> omega
  by_cases hneg : 3 * m < 2 ^ 64
  · have hshared : (settingsOf m).sharedBuffers = 8 * 2 ^ 30 := by
      have hcap : min (m / 4) (8 * 2 ^ 30) = 8 * 2 ^ 30 := by omega
      simp only [settingsOf, hcap]
      decide
    have hcache : (settingsOf m).effectiveCacheSize ≤ 0 := by
      rw [settingsOf, hbmod]
      exact roundDown_nonpos (tdiv_nonpos (by omega) (by decide))
    have hle := h.shared_le_cache
    omega
  · have hcache : (settingsOf m).effectiveCacheSize ≤ (3 * m - 2 ^ 64) / 4 := by
      rw [settingsOf, hbmod, Int.tdiv_eq_ediv_of_nonneg (by omega)]
      exact (roundDown_le (by omega)).1
    have hleft := h.cache_left (by omega)
    omega

/-- The settings are as they should be if three times the memory fits into 64 bits. -/
theorem autoTune_tuned_iff (cluster : PostgresCluster) (h : 0 < containerMemoryBytes cluster) :
    Tuned cluster ↔ 3 * (containerMemoryBytes cluster).toInt < 2 ^ 63 := by
  have hpos : 0 < (containerMemoryBytes cluster).toInt := Int64.lt_iff_toInt_lt.1 h
  have hlt := (containerMemoryBytes cluster).toInt_lt
  rw [Tuned, readSettings_autoTune h]
  constructor
  · rintro ⟨s, hs, hbudget, -⟩
    obtain rfl := Option.some.inj hs
    by_contra hover
    exact not_withinBudget_settingsOf (Int.not_lt.1 hover) hlt hbudget
  · intro hm
    refine ⟨_, rfl, withinBudget_settingsOf hpos hm, ?_⟩
    intro cluster' s' h' hle hs'
    rw [readSettings_autoTune h'] at hs'
    obtain rfl := Option.some.inj hs'
    exact settingsOf_atMost (Int64.lt_iff_toInt_lt.1 h') (Int64.le_iff_toInt_le.1 hle) hm

/-- A cluster whose containers may use so many bytes. -/
def sampleCluster (bytes : Int) : PostgresCluster where
  metadata := { name := lit "main", namespace_ := lit "db" }
  spec := {
    storage := { size := .ofBinary 10 30 }
    resources := {
      limits := (∅ : ResourceList).insert (lit "memory") ⟨bytes * 1000000000⟩ } }
  status := {}

/-- A cluster with one gibibyte. -/
theorem small_cluster_tuned :
    0 < containerMemoryBytes (sampleCluster 1073741824) ∧ Tuned (sampleCluster 1073741824) :=
  ⟨by decide, (autoTune_tuned_iff _ (by decide)).2 (by decide)⟩

/-- With four exbibytes the cache has a negative size. -/
theorem cache_size_negative :
    0 < containerMemoryBytes (sampleCluster 4611686018427387904) ∧
      (autoTune (sampleCluster 4611686018427387904))[lit "effective_cache_size"]? =
        some (lit "-1125899906842624kB") ∧
      readMemory (lit "-1125899906842624kB") = some (-2 ^ 60) := by
  decide

end

end Athos.Postgres
