import Athos.Postgres.Naming
import Athos.Statefulset.Ordinal
import Athos.Workflows.OrphanPvc

/-!
# Ordinals at the end of pod names

`PodOrdinal` of `src/internal/ha/ha.go`. The digits at the end of a name are looked for from behind,
and the byte before them is read without a check that there is one. Every byte is read here with the
check of the index that Go makes at run time. The names that `PodName` makes are read back by this
function and by the two others of the operator that look for ordinals.
-/

namespace Athos.Ha

open Base Kube Postgres Statefulset Workflows List Option

/-- `s[i]`; there is no result if the index is out of range, where Go panics. -/
def byteAt (s : GoString) (i : Int) : Option UInt8 := if 0 ≤ i then s[i.toNat]? else none

/-- The first loop of `PodOrdinal`, with `i + 1` indices left; `ha.go:147-150`. -/
def scanDigits (podName : GoString) : Nat → Option Int
  | 0 => some (-1)
  | i + 1 => do
    let b ← byteAt podName i
    if isDigitByte b then scanDigits podName i else return i

/-- The second loop of `PodOrdinal`, with `j + 1` indices left; `ha.go:156-159`. -/
def addDigits (podName : GoString) (i : Int) : Nat → Int64 → Int64 → Option Int64
  | 0, ordinal, _ => some ordinal
  | j + 1, ordinal, mul =>
    if i < j then do
      let b ← byteAt podName j
      addDigits podName i j (ordinal + Int64.ofNat (b - 0x30).toNat * mul) (mul * 10)
    else some ordinal

/-- `PodOrdinal`; `ha.go:140-161`. There is no result if it panics. -/
def podOrdinal (podName : GoString) : Option Int64 :=
  if podName.length = 0 then some (-1)
  else do
    let i ← scanDigits podName podName.length
    if i = podName.length - 1 then return -1
    if (← byteAt podName i) ≠ 0x2D then return -1
    addDigits podName i podName.length 0 1

/-- The name ends in a dash and the digits of the number, which an `int` can hold. -/
def EndsInOrdinal (podName : GoString) (n : Nat) : Prop :=
  ∃ front digits, podName = front ++ 0x2D :: digits ∧ IsDigits digits ∧ digitsValue digits = n ∧
    n < 2 ^ 63

/-- No index is out of range, and names that end in an ordinal give it, and other names minus
one. -/
def Exact (podName : GoString) : Prop :=
  ∃ r, podOrdinal podName = some r ∧ Recognises r (EndsInOrdinal podName)

section

variable {front digits : GoString} {b : UInt8}

private theorem byteAt_append_cons (front rest : GoString) (b : UInt8) :
    byteAt (front ++ b :: rest) front.length = some b := by
  rw [byteAt, if_pos (Int.natCast_nonneg _), Int.toNat_natCast]
  simp

private theorem scanDigits_digits (hdigits : ∀ d ∈ digits, isDigitByte d = true)
    (front rest : GoString) :
    scanDigits (front ++ (digits ++ rest)) (front.length + digits.length) =
      scanDigits (front ++ (digits ++ rest)) front.length := by
  induction digits using List.reverseRecOn generalizing rest with
  | nil => rfl
  | append_singleton digits d ih =>
    rw [forall_mem_append, forall_mem_singleton] at hdigits
    have hbyte := byteAt_append_cons (front ++ digits) rest d
    rw [append_assoc, length_append] at hbyte
    have hlength : front.length + (digits ++ [d]).length = front.length + digits.length + 1 := by
      rw [length_append, length_singleton, Nat.add_assoc]
    rw [append_assoc, singleton_append, hlength, scanDigits, hbyte]
    simp only [bind_eq_bind, bind_some, hdigits.2, if_true]
    exact ih hdigits.1 (d :: rest)

private theorem scanDigits_of_forall (h : ∀ d ∈ digits, isDigitByte d = true) :
    scanDigits digits digits.length = some (-1) := by
  have hscan := scanDigits_digits h [] []
  rw [nil_append, append_nil, length_nil, Nat.zero_add] at hscan
  rw [hscan, scanDigits]

private theorem scanDigits_append_cons (hb : isDigitByte b = false)
    (hdigits : ∀ d ∈ digits, isDigitByte d = true) (front : GoString) :
    scanDigits (front ++ b :: digits) (front ++ b :: digits).length =
      some (front.length : Int) := by
  have hscan := scanDigits_digits hdigits (front ++ [b]) []
  rw [append_nil, ← length_append, ← append_cons] at hscan
  have hlength : (front ++ [b]).length = front.length + 1 := length_append
  rw [hscan, hlength, scanDigits, byteAt_append_cons]
  simp [hb]

private theorem addDigits_digits (hdigits : ∀ d ∈ digits, isDigitByte d = true)
    (front rest : GoString) (ordinal mul : Int64) :
    addDigits (front ++ b :: (digits ++ rest)) front.length (front.length + 1 + digits.length)
        ordinal mul = some (ordinal + mul * Int64.ofNat (digitsValue digits)) := by
  induction digits using List.reverseRecOn generalizing rest ordinal mul with
  | nil =>
    have hstop : ¬ (front.length : Int) < (front.length : Nat) := Int.lt_irrefl _
    rw [length_nil, Nat.add_zero, addDigits, if_neg hstop]
    simp [digitsValue]
  | append_singleton digits d ih =>
    rw [forall_mem_append, forall_mem_singleton] at hdigits
    have hbyte := byteAt_append_cons (front ++ b :: digits) rest d
    have hlength : (front ++ b :: digits).length = front.length + 1 + digits.length := by
      simp only [length_append, length_cons]
      omega
    rw [append_assoc, cons_append, hlength] at hbyte
    have hgo : (front.length : Int) < (front.length + 1 + digits.length : Nat) := by omega
    have hdigit : (d - 0x30).toNat = d.toNat - 0x30 := by
      have hle := (toNat_of_isDigitByte hdigits.2).1
      exact UInt8.toNat_sub_of_le _ _ (UInt8.le_iff_toNat_le.2 hle)
    rw [append_assoc, singleton_append, length_append, length_singleton,
      ← Nat.add_assoc, addDigits, if_pos hgo, hbyte]
    simp only [bind_eq_bind, bind_some, hdigit]
    rw [ih hdigits.1 (d :: rest), digitsValue_concat, int64_digit_add]

end

section

variable {front digits podName : GoString} {b : UInt8}

private theorem podOrdinal_of_isDigits (h : IsDigits podName) : podOrdinal podName = none := by
  have hpos : podName.length ≠ 0 := fun hzero => h.ne_nil (length_eq_zero_iff.1 hzero)
  have hend : ¬ (-1 : Int) = podName.length - 1 := by omega
  rw [podOrdinal, if_neg hpos, scanDigits_of_forall h.digit]
  simp [hend, byteAt]

private theorem podOrdinal_append_cons (hb : isDigitByte b = false)
    (hdigits : ∀ d ∈ digits, isDigitByte d = true) (front : GoString) :
    podOrdinal (front ++ b :: digits) =
      some (if digits ≠ [] ∧ b = 0x2D then Int64.ofNat (digitsValue digits) else -1) := by
  have hlength : (front ++ b :: digits).length = front.length + 1 + digits.length := by
    simp only [length_append, length_cons]
    omega
  have hpos : (front ++ b :: digits).length ≠ 0 := by omega
  have hend : ((front.length : Int) = (front ++ b :: digits).length - 1) ↔ digits = [] := by
    rw [hlength, ← length_eq_zero_iff]
    omega
  rw [podOrdinal, if_neg hpos, scanDigits_append_cons hb hdigits]
  rw [bind_eq_bind, bind_some]
  by_cases hnil : digits = []
  · rw [if_pos (hend.2 hnil), if_neg fun h => h.1 hnil]
    rfl
  · rw [if_neg (mt hend.1 hnil), byteAt_append_cons]
    by_cases hdash : b = 0x2D
    · have hadd := addDigits_digits (b := b) hdigits front [] 0 1
      rw [append_nil, ← hlength, Int64.zero_add, Int64.one_mul] at hadd
      subst hdash
      simpa [hnil] using hadd
    · simp [hdash]

private theorem endsInOrdinal_append_cons (hb : isDigitByte b = false)
    (hdigits : ∀ d ∈ digits, isDigitByte d = true) (front : GoString) (n : Nat) :
    EndsInOrdinal (front ++ b :: digits) n ↔
      (digits ≠ [] ∧ b = 0x2D) ∧ digitsValue digits = n ∧ n < 2 ^ 63 := by
  constructor
  · rintro ⟨front', digits', hname, hdigits', hvalue, hlt⟩
    obtain ⟨-, rfl, rfl⟩ := append_cons_inj_of_forall hb (by decide) hdigits hdigits'.digit hname
    exact ⟨⟨hdigits'.ne_nil, rfl⟩, hvalue, hlt⟩
  · rintro ⟨⟨hnil, rfl⟩, hvalue, hlt⟩
    exact ⟨front, digits, rfl, ⟨hnil, hdigits⟩, hvalue, hlt⟩

variable (podName) in
/-- The ordinal of a name is read exactly unless the name is all digits, or the number that it ends
in does not fit and does not happen to wrap to minus one. -/
theorem podOrdinal_exact_iff :
    Exact podName ↔
      ¬ IsDigits podName ∧ ∀ front digits, podName = front ++ 0x2D :: digits → IsDigits digits →
        digitsValue digits < 2 ^ 63 ∨ digitsValue digits % 2 ^ 64 = 2 ^ 64 - 1 := by
  rcases exists_trailing_digits podName with hall | ⟨front, b, digits, rfl, hb, hdigits⟩
  · by_cases hnil : podName = []
    · subst hnil
      have hnone : ∀ n, ¬ EndsInOrdinal [] n := by
        rintro n ⟨front, digits, hname, -⟩
        simp at hname
      refine iff_of_true ⟨-1, rfl, (recognises_iff_of_forall_not hnone).2 rfl⟩ ⟨?_, ?_⟩
      · exact fun h => h.ne_nil rfl
      · intro front digits hname
        simp at hname
    · have hname : IsDigits podName := ⟨hnil, hall⟩
      refine iff_of_false ?_ fun h => h.1 hname
      rintro ⟨r, hr, -⟩
      rw [podOrdinal_of_isDigits hname] at hr
      cases hr
  · have hnot : ¬ IsDigits (front ++ b :: digits) := by
      intro h
      have hdigit := h.digit b (mem_append_right front mem_cons_self)
      rw [hb] at hdigit
      cases hdigit
    have hends := endsInOrdinal_append_cons hb hdigits front
    rw [Exact, podOrdinal_append_cons hb hdigits, and_iff_right hnot]
    simp only [some.injEq, exists_eq_left']
    by_cases hdash : digits ≠ [] ∧ b = 0x2D
    · rw [if_pos hdash, recognises_ofNat_iff hends, and_iff_right hdash]
      constructor
      · intro h front' digits' hname hdigits'
        obtain ⟨-, -, rfl⟩ :=
          append_cons_inj_of_forall hb (by decide) hdigits hdigits'.digit hname
        exact h
      · intro h
        exact h front digits (by rw [hdash.2]) ⟨hdash.1, hdigits⟩
    · have hnone : ∀ n, ¬ EndsInOrdinal (front ++ b :: digits) n := fun n hn =>
        hdash ((hends n).1 hn).1
      rw [if_neg hdash, recognises_iff_of_forall_not hnone]
      refine iff_of_true rfl fun front' digits' hname hdigits' => ?_
      obtain ⟨-, rfl, rfl⟩ := append_cons_inj_of_forall hb (by decide) hdigits hdigits'.digit hname
      exact absurd ⟨hdigits'.ne_nil, rfl⟩ hdash

/-- A name that is all digits panics, and a number that 64 bits do not hold wraps. -/
theorem podOrdinal_panics :
    podOrdinal (lit "5") = none ∧
      podOrdinal (lit "db-9223372036854775808") = some (Int64.ofInt (-2 ^ 63)) ∧
      podOrdinal (lit "db-18446744073709551616") = some 0 := by
  decide

end

private theorem isDigits_decimalNat (n : Nat) : IsDigits (decimalNat n) :=
  ⟨decimalNat_ne_nil n, fun _ => isDigitByte_of_mem_decimalNat⟩

private theorem podName_eq (cluster : PostgresCluster) (n : Nat) :
    podName cluster n = cluster.metadata.name ++ 0x2D :: decimalNat n := by
  have hdash : lit "-" = [0x2D] := rfl
  rw [podName, hdash, append_assoc, singleton_append]
  rfl

private theorem exists_ofNat_of_nonneg {n : Int64} (h : 0 ≤ n) :
    ∃ k : Nat, k < 2 ^ 63 ∧ n.toInt = k ∧ n = Int64.ofNat k := by
  have hnonneg : 0 ≤ n.toInt := Int64.le_iff_toInt_le.1 h
  have hlt := n.toInt_lt
  obtain ⟨k, hk⟩ := Int.eq_ofNat_of_zero_le hnonneg
  have hfits : k < 2 ^ 63 := by omega
  refine ⟨k, hfits, hk, Int64.toInt_inj.1 ?_⟩
  rw [Int64.toInt_ofNat_of_lt hfits, hk]

private theorem podOrdinal_podName (cluster : PostgresCluster) (k : Nat) :
    podOrdinal (podName cluster k) = some (Int64.ofNat k) := by
  have hdigits := isDigits_decimalNat k
  rw [podName_eq, podOrdinal_append_cons (by decide) hdigits.digit, if_pos ⟨hdigits.ne_nil, rfl⟩,
    digitsValue_decimalNat]

private theorem ordinalFromName_podName (cluster : PostgresCluster) (k : Nat) :
    ordinalFromName (podName cluster k) cluster.metadata.name = Int64.ofNat k := by
  have hdrop : (podName cluster k).drop (cluster.metadata.name.length + 1) = decimalNat k := by
    rw [podName_eq, drop_append]
    simp
  have hord := ordinalFromName_of_isDigits (hdrop ▸ isDigits_decimalNat k)
  rw [hord, hdrop, digitsValue_decimalNat]

private theorem pvcOrdinal_podName (cluster : PostgresCluster) (k : Nat) :
    pvcOrdinal (lit "pgdata-" ++ podName cluster k) cluster.metadata.name = Int64.ofNat k := by
  have hcut : cutOrdinal (lit "pgdata-" ++ podName cluster k) =
      some (lit "pgdata-" ++ cluster.metadata.name, decimalNat k) := by
    rw [cutOrdinal_eq_some, podName_eq, append_assoc]
    exact ⟨rfl, (isDigits_decimalNat k).digit⟩
  have hread := toInt_pvcOrdinal (lit "pgdata-" ++ podName cluster k) cluster.metadata.name
  rw [hcut] at hread
  dsimp only at hread
  rw [digitsValue_decimalNat] at hread
  rw [← Int64.toInt_inj, hread, Int64.toInt_ofNat']
  rfl

/-- The names that `PodName` makes are read back by the three parsers, so they are different for
different clusters and instances. -/
theorem ordinals_read_back (cluster : PostgresCluster) (n : Int64) (h : 0 ≤ n) :
    podOrdinal (podName cluster n.toInt) = some n ∧
      ordinalFromName (podName cluster n.toInt) cluster.metadata.name = n ∧
      pvcOrdinal (lit "pgdata-" ++ podName cluster n.toInt) cluster.metadata.name = n ∧
      ∀ (cluster' : PostgresCluster) (n' : Int64), 0 ≤ n' →
        podName cluster' n'.toInt = podName cluster n.toInt →
        cluster'.metadata.name = cluster.metadata.name ∧ n' = n := by
  obtain ⟨k, -, hk, rfl⟩ := exists_ofNat_of_nonneg h
  rw [hk]
  refine ⟨podOrdinal_podName cluster k, ordinalFromName_podName cluster k,
    pvcOrdinal_podName cluster k, fun cluster' n' h' hname => ?_⟩
  obtain ⟨k', -, hk', rfl⟩ := exists_ofNat_of_nonneg h'
  rw [hk'] at hname
  have hordinal : Int64.ofNat k' = Int64.ofNat k := by
    have hread := podOrdinal_podName cluster' k'
    rw [hname, podOrdinal_podName] at hread
    exact (some.inj hread).symm
  rw [podName_eq, podName_eq] at hname
  have hcut := append_cons_inj_of_forall (by decide) (by decide) (isDigits_decimalNat k').digit
    (isDigits_decimalNat k).digit hname
  exact ⟨hcut.1, hordinal⟩

/-- The largest ordinal. -/
theorem last_ordinal_read_back :
    0 ≤ Int64.maxValue ∧
      podOrdinal (podName sampleScaled Int64.maxValue.toInt) = some Int64.maxValue :=
  ⟨by decide, (ordinals_read_back sampleScaled Int64.maxValue (by decide)).1⟩

end Athos.Ha
