import Athos.Base.Calendar
import Athos.Base.Decimal
import Athos.Kube.Meta

/-!
# Volume snapshots

`src/internal/snapshot/snapshot.go`: the manifest of a volume snapshot. Its name ends in the second
at which it was built, written with leading zeros, so that the byte order of names is the order of
time. All times are those of UTC.
-/

namespace Athos.Snapshot

open Base Kube List

/-- `SnapshotSpec`. -/
structure SnapshotSpec where
  clusterName : GoString
  namespace_ : GoString := []
  snapshotClassName : GoString := []
  sourcePVC : GoString
  suffix : GoString := []
  deriving DecidableEq

/-- `Manifest`. -/
structure Manifest where
  apiVersion : GoString
  kind : GoString
  name : GoString
  namespace_ : GoString
  labels : StringMap
  snapshotClassName : GoString
  sourcePVC : GoString
  creationTimestamp : GoTime
  deriving DecidableEq

/-- The date of a time in the layout `20060102`. -/
def dateStamp (t : GoTime) : GoString :=
  appendInt 4 t.date.year ++ (appendInt 2 t.date.month ++ appendInt 2 t.date.day)

/-- The clock of a time in the layout `150405`. -/
def clockStamp (t : GoTime) : GoString :=
  appendInt 2 t.hour ++ (appendInt 2 t.minute ++ appendInt 2 t.second)

/-- `Format` with the layout `20060102t150405`. -/
def stamp (t : GoTime) : GoString := dateStamp t ++ 0x74 :: clockStamp t

variable (L : LowerTable)

/-- `joinName`; `snapshot.go:82-89`. -/
def joinName (pvc suffix : GoString) : GoString :=
  let pvc := toLower L (trimSpace pvc)
  let suffix := toLower L (trimSpace suffix)
  if suffix = [] then pvc else pvc ++ lit "-snap-" ++ suffix

/-- `buildLabels`; `snapshot.go:91-98`. -/
def buildLabels (cluster pvc : GoString) : StringMap :=
  mapOf [(lit "pg.athos.io/cluster", cluster), (lit "pg.athos.io/source-pvc", pvc),
    (lit "app.kubernetes.io/component", lit "snapshot"),
    (lit "app.kubernetes.io/managed-by", lit "athos")]

/-- `Build`; `snapshot.go:59-80`. -/
def build (spec : SnapshotSpec) (now : GoTime) : Except GoString Manifest :=
  if spec.clusterName = [] then .error (lit "snapshot: cluster name is required")
  else if spec.sourcePVC = [] then .error (lit "snapshot: source PVC is required")
  else
    let suffix := if spec.suffix = [] then stamp now else spec.suffix
    .ok {
      apiVersion := lit "snapshot.storage.k8s.io/v1"
      kind := lit "VolumeSnapshot"
      name := joinName L spec.sourcePVC suffix
      namespace_ := spec.namespace_
      labels := buildLabels spec.clusterName spec.sourcePVC
      snapshotClassName := spec.snapshotClassName
      sourcePVC := spec.sourcePVC
      creationTimestamp := now }

section

variable {t t₁ t₂ : GoTime}

/-- The years that take four digits at most. -/
def InRange (t : GoTime) : Prop := 1 ≤ t.date.year ∧ t.date.year ≤ 9999

instance (t : GoTime) : Decidable (InRange t) := inferInstanceAs (Decidable (_ ∧ _))

private theorem padded_append_spec (width : Nat) {a b c : Nat} (hwidth : 0 < width)
    (ha : a < 10 ^ width) (hb : b < 100) (hc : c < 100) :
    let s := padded width a ++ (padded 2 b ++ padded 2 c)
    (∀ d ∈ s, isDigitByte d = true) ∧ s.length = width + 4 ∧
      digitsValue s = a * 10000 + b * 100 + c := by
  have hlb : (padded 2 b).length = 2 := length_padded (by decide) hb
  have hlc : (padded 2 c).length = 2 := length_padded (by decide) hc
  refine ⟨fun d hd => ?_, ?_, ?_⟩
  · rcases mem_append.1 hd with h | h
    · exact isDigitByte_of_mem_padded h
    · rcases mem_append.1 h with h | h
      · exact isDigitByte_of_mem_padded h
      · exact isDigitByte_of_mem_padded h
  · rw [length_append, length_append, length_padded hwidth ha, hlb, hlc]
  · rw [digitsValue_append, digitsValue_append, length_append, hlb, hlc, digitsValue_padded,
      digitsValue_padded, digitsValue_padded]
    omega

private theorem dateStamp_spec (h : InRange t) :
    (∀ b ∈ dateStamp t, isDigitByte b = true) ∧ (dateStamp t).length = 8 ∧
      (digitsValue (dateStamp t) : Int) =
        t.date.year * 10000 + t.date.month * 100 + t.date.day := by
  obtain ⟨yday, hyear, -⟩ := Date.inYear_ofDays t.dayNumber
  have hmonth : t.date.month < 100 := Nat.lt_of_le_of_lt hyear.month_le (by decide)
  have hday : t.date.day < 100 := Nat.lt_of_le_of_lt (Date.day_ofDays_le _) (by decide)
  obtain ⟨hpos, hle⟩ := h
  obtain ⟨year, hyear⟩ := Int.eq_ofNat_of_zero_le (show 0 ≤ t.date.year by omega)
  obtain ⟨hdigit, hlength, hvalue⟩ := padded_append_spec 4 (by decide)
    (show year < 10 ^ 4 by omega) hmonth hday
  rw [dateStamp, hyear, appendInt_natCast, appendInt_natCast, appendInt_natCast]
  refine ⟨hdigit, hlength, ?_⟩
  rw [hvalue]
  omega

private theorem clockStamp_spec (t : GoTime) :
    (∀ b ∈ clockStamp t, isDigitByte b = true) ∧ (clockStamp t).length = 6 ∧
      digitsValue (clockStamp t) = t.hour * 10000 + t.minute * 100 + t.second := by
  have hclock := t.clock_lt
  rw [clockStamp, appendInt_natCast, appendInt_natCast, appendInt_natCast]
  apply padded_append_spec 2 (by decide)
  · unfold GoTime.hour
    omega
  · unfold GoTime.minute
    omega
  · unfold GoTime.second
    omega

private theorem digitsValue_dateStamp_lt_iff (h₁ : InRange t₁) (h₂ : InRange t₂) :
    digitsValue (dateStamp t₁) < digitsValue (dateStamp t₂) ↔ t₁.dayNumber < t₂.dayNumber := by
  obtain ⟨-, -, hvalue₁⟩ := dateStamp_spec h₁
  obtain ⟨-, -, hvalue₂⟩ := dateStamp_spec h₂
  have bounds : ∀ t : GoTime, t.date.month ≤ 12 ∧ t.date.day ≤ 31 := by
    intro t
    obtain ⟨yday, hyear, -⟩ := Date.inYear_ofDays t.dayNumber
    exact ⟨hyear.month_le, Date.day_ofDays_le _⟩
  have hb₁ := bounds t₁
  have hb₂ := bounds t₂
  rw [← Date.before_ofDays_iff, Date.Before]
  change _ ↔ t₁.date.year < t₂.date.year ∨ t₁.date.year = t₂.date.year ∧
    (t₁.date.month < t₂.date.month ∨ t₁.date.month = t₂.date.month ∧ t₁.date.day < t₂.date.day)
  omega

private theorem less_stamp_iff (h₁ : InRange t₁) (h₂ : InRange t₂) :
    less (stamp t₁) (stamp t₂) = true ↔ t₁.sec.toInt < t₂.sec.toInt := by
  obtain ⟨hdate₁, hlength₁, -⟩ := dateStamp_spec h₁
  obtain ⟨hdate₂, hlength₂, -⟩ := dateStamp_spec h₂
  obtain ⟨hclock₁, hlength₁', hvalue₁⟩ := clockStamp_spec t₁
  obtain ⟨hclock₂, hlength₂', hvalue₂⟩ := clockStamp_spec t₂
  have hlength := hlength₁.trans hlength₂.symm
  have hbytes : less (stamp t₁) (stamp t₂) = true ↔
      less (dateStamp t₁) (dateStamp t₂) = true ∨
        dateStamp t₁ = dateStamp t₂ ∧ less (clockStamp t₁) (clockStamp t₂) = true := by
    rw [stamp, stamp, less_append hlength]
    simp [less]
  rw [hbytes, less_iff_digitsValue_lt hdate₁ hdate₂ hlength,
    eq_iff_digitsValue_eq hdate₁ hdate₂ hlength,
    less_iff_digitsValue_lt hclock₁ hclock₂ (hlength₁'.trans hlength₂'.symm), hvalue₁, hvalue₂]
  have hlt := digitsValue_dateStamp_lt_iff h₁ h₂
  have hgt := digitsValue_dateStamp_lt_iff h₂ h₁
  rw [t₁.sec_eq, t₂.sec_eq]
  have hc₁ := t₁.clock_lt
  have hc₂ := t₂.clock_lt
  have hclock : t₁.hour * 10000 + t₁.minute * 100 + t₁.second <
      t₂.hour * 10000 + t₂.minute * 100 + t₂.second ↔ t₁.clock < t₂.clock := by
    unfold GoTime.hour GoTime.minute GoTime.second
    omega
  rw [hclock]
  omega

private theorem stamp_eq_iff (h₁ : InRange t₁) (h₂ : InRange t₂) :
    stamp t₁ = stamp t₂ ↔ t₁.sec = t₂.sec := by
  constructor
  · intro heq
    have hnot : less (stamp t₁) (stamp t₁) = false := by
      simpa [less] using less_append_left (stamp t₁) [] []
    have h₁₂ := less_stamp_iff h₁ h₂
    have h₂₁ := less_stamp_iff h₂ h₁
    rw [← heq, hnot] at h₁₂ h₂₁
    apply Int64.toInt_inj.1
    simp only [Bool.false_eq_true, false_iff] at h₁₂ h₂₁
    omega
  · intro heq
    simp only [stamp, dateStamp, clockStamp, GoTime.date, GoTime.dayNumber, GoTime.hour,
      GoTime.minute, GoTime.second, GoTime.clock, heq]

private theorem mem_stamp (h : InRange t) {b : UInt8} (hb : b ∈ stamp t) :
    isDigitByte b = true ∨ b = 0x74 := by
  rcases mem_append.1 hb with hdate | hclock
  · exact .inl ((dateStamp_spec h).1 b hdate)
  · rcases mem_cons.1 hclock with heq | hclock
    · exact .inr heq
    · exact .inl ((clockStamp_spec t).1 b hclock)

private theorem joinName_stamp (h : InRange t) (pvc : GoString) :
    joinName L pvc (stamp t) = toLower L (trimSpace pvc) ++ lit "-snap-" ++ stamp t := by
  have hbytes : ∀ b ∈ stamp t, IsGraphic b ∧ b < 0x80 ∧ asciiLower b = b := by
    intro b hb
    have hrange : 0x30 ≤ b.toNat ∧ b.toNat ≤ 0x39 ∨ b.toNat = 0x74 :=
      (mem_stamp h hb).imp toNat_of_isDigitByte (congrArg UInt8.toNat)
    simp only [IsGraphic, asciiLower, UInt8.le_iff_toNat_le, UInt8.lt_iff_toNat_lt,
      UInt8.reduceToNat]
    refine ⟨by omega, by omega, if_neg (by omega)⟩
  have htrim : trimSpace (stamp t) = stamp t :=
    trimSpace_of_isGraphic fun b hb => (hbytes b hb).1
  have hlower : toLower L (stamp t) = stamp t := by
    rw [toLower_of_ascii L fun b hb => (hbytes b hb).2.1]
    exact (map_congr_left fun b hb => (hbytes b hb).2.2).trans (map_id _)
  have hne : stamp t ≠ [] := by simp [stamp]
  rw [joinName, htrim, hlower]
  exact if_neg hne

end

/-- Without a suffix of its own a snapshot is named after its second, and the byte order of
names is the order of time. -/
theorem build_name_chronological (spec : SnapshotSpec) (hsuffix : spec.suffix = [])
    (t₁ t₂ : GoTime) (h₁ : InRange t₁) (h₂ : InRange t₂) :
    ((spec.clusterName = [] ∨ spec.sourcePVC = []) ∧ ∃ e, ∀ t, build L spec t = .error e) ∨
      ∃ m₁ m₂, build L spec t₁ = .ok m₁ ∧ build L spec t₂ = .ok m₂ ∧
        (t₁.sec < t₂.sec → less m₁.name m₂.name = true) ∧
        (m₁.name = m₂.name ↔ t₁.sec = t₂.sec) := by
  by_cases hcluster : spec.clusterName = []
  · exact .inl ⟨.inl hcluster, _, fun t => by rw [build, if_pos hcluster]⟩
  by_cases hpvc : spec.sourcePVC = []
  · exact .inl ⟨.inr hpvc, _, fun t => by rw [build, if_neg hcluster, if_pos hpvc]⟩
  refine .inr ⟨_, _, by rw [build, if_neg hcluster, if_neg hpvc],
    by rw [build, if_neg hcluster, if_neg hpvc], ?_, ?_⟩
  · intro hlt
    simp only [if_pos hsuffix, joinName_stamp L h₁, joinName_stamp L h₂, less_append_left]
    exact (less_stamp_iff h₁ h₂).2 (Int64.lt_iff_toInt_lt.1 hlt)
  · simp only [if_pos hsuffix, joinName_stamp L h₁, joinName_stamp L h₂, append_cancel_left_eq]
    exact stamp_eq_iff h₁ h₂

/-- Across the end of a leap day. -/
theorem build_name_leap_day :
    let spec : SnapshotSpec := { clusterName := lit "pg", sourcePVC := lit "Data-pg-0 " }
    let t₁ := GoTime.ofDate 2024 2 29 23 59 59 999999999
    let t₂ := GoTime.ofDate 2024 3 1 0 0 0 0
    t₁.sec < t₂.sec ∧
      (build .basic spec t₁).map (·.name) = .ok (lit "data-pg-0-snap-20240229t235959") ∧
      (build .basic spec t₂).map (·.name) = .ok (lit "data-pg-0-snap-20240301t000000") ∧
      (((spec.clusterName = [] ∨ spec.sourcePVC = []) ∧
        ∃ e, ∀ t, build .basic spec t = .error e) ∨
      ∃ m₁ m₂, build .basic spec t₁ = .ok m₁ ∧ build .basic spec t₂ = .ok m₂ ∧
        (t₁.sec < t₂.sec → less m₁.name m₂.name = true) ∧
        (m₁.name = m₂.name ↔ t₁.sec = t₂.sec)) := by
  refine ⟨by decide +kernel, by decide +kernel, by decide +kernel, ?_⟩
  exact build_name_chronological .basic _ rfl _ _ (by decide +kernel) (by decide +kernel)

end Athos.Snapshot
