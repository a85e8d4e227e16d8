import Athos.Base.Sorting
import Athos.Snapshot.Manifest

/-!
# Retention of snapshots

`RetentionPolicy.Apply` of `src/internal/snapshot/snapshot.go` copies the snapshots, sorts the copy
with two nested loops, newest first, and returns what is to be deleted: what comes after the first
`MaxCount` and what is older than `MaxAge`. A slice is the address of its array in memory; a nil
slice has an address at which there is none.

Ages are measured by `Time.Sub`, which returns the greatest duration for every age that does
not fit. No age exceeds that limit.
-/

namespace Athos.Snapshot

open Base List

/-- `RetentionPolicy`. -/
structure RetentionPolicy where
  maxCount : Int := 0
  maxAge : Int64 := 0
  deriving DecidableEq

/-- The arrays of manifests by address. -/
abbrev Memory := List (List Manifest)

/-- What a slice holds. -/
def Memory.read (mem : Memory) (slice : Nat) : List Manifest := mem.getD slice []

/-- The comparison of the loops. -/
def newer (s u : Manifest) : Bool := s.creationTimestamp.after u.creationTimestamp

namespace RetentionPolicy

/-- The test for age; `snapshot.go:128`. -/
def expired (p : RetentionPolicy) (now : GoTime) (s : Manifest) : Bool :=
  0 < p.maxAge && p.maxAge < now.sub s.creationTimestamp

/-- The last loop of `Apply`, from an index on; `snapshot.go:123-131`. -/
def deletions (p : RetentionPolicy) (now : GoTime) : Nat → List Manifest → List Manifest
  | _, [] => []
  | i, s :: rest =>
    if 0 < p.maxCount ∧ p.maxCount ≤ i then s :: deletions p now (i + 1) rest
    else if p.expired now s then s :: deletions p now (i + 1) rest
    else deletions p now (i + 1) rest

/-- `RetentionPolicy.Apply`; `snapshot.go:110-133`. -/
def apply (p : RetentionPolicy) (mem : Memory) (snaps : Nat) (now : GoTime) :
    Memory × List Manifest :=
  let sorted := mem.length
  let mem : Memory := mem ++ [mem.read snaps]
  let mem : Memory := mem.set sorted (exchangeSort newer (mem.read sorted))
  (mem, p.deletions now 0 (mem.read sorted))

end RetentionPolicy

/-- The nanoseconds since a snapshot was made. -/
def age (now : GoTime) (s : Manifest) : Int := now.instant - s.creationTimestamp.instant

/-- Older than the policy allows. -/
def Overdue (p : RetentionPolicy) (now : GoTime) (s : Manifest) : Prop :=
  0 < p.maxAge.toInt ∧ p.maxAge.toInt < age now s

instance (p : RetentionPolicy) (now : GoTime) : DecidablePred (Overdue p now) :=
  fun _ => inferInstanceAs (Decidable (_ ∧ _))

/-- Made no earlier. -/
def atLeastAsNew (s u : Manifest) : Bool :=
  u.creationTimestamp.instant ≤ s.creationTimestamp.instant

/-- The snapshots kept and deleted are those that the policy asks for. -/
structure Retained (p : RetentionPolicy) (now : GoTime) (snaps kept deleted : List Manifest) :
    Prop where
  count_le : 0 < p.maxCount → kept.length ≤ p.maxCount
  not_overdue : ∀ s ∈ kept, ¬ Overdue p now s
  not_newer : ∀ d ∈ deleted, ∀ s ∈ kept, atLeastAsNew s d = true
  -- The snapshot itself is one of those that are at least as new.
  needed : ∀ d ∈ deleted,
    (0 < p.maxCount ∧ p.maxCount < snaps.countP (atLeastAsNew · d)) ∨ Overdue p now d
  stable : ∀ (mem : Memory) (slice : Nat), mem.read slice = kept →
    (p.apply mem slice now).2 = []

/-- `Apply` is correct: it leaves memory as it is and returns some of the snapshots, and the
rest are those to be kept. -/
structure Correct (p : RetentionPolicy) (mem : Memory) (snaps : Nat) (now : GoTime) : Prop where
  unchanged : ∀ slice < mem.length, (p.apply mem snaps now).1[slice]? = mem[slice]?
  subset : ∃ kept, (kept ++ (p.apply mem snaps now).2).Perm (mem.read snaps)
  retained : ∀ kept, (kept ++ (p.apply mem snaps now).2).Perm (mem.read snaps) →
    Retained p now (mem.read snaps) kept (p.apply mem snaps now).2

section

variable {p : RetentionPolicy} {now : GoTime} {mem : Memory} {snaps i : Nat}
  {s u : Manifest} {l kept : List Manifest}

private theorem strictWeak_newer : StrictWeak newer := by
  have heq : newer = fun s u =>
      decide (u.creationTimestamp.instant < s.creationTimestamp.instant) := by
    funext s u
    rw [Bool.eq_iff_iff, newer, GoTime.after_iff, decide_eq_true_eq]
  rw [heq]
  exact strictWeak_of_key fun s : Manifest => s.creationTimestamp.instant

private theorem atLeastAsNew_iff : atLeastAsNew s u = true ↔ newer u s = false := by
  rw [atLeastAsNew, decide_eq_true_eq, Bool.eq_false_iff, newer, Ne, GoTime.after_iff]
  omega

/-- Newest first. -/
def IsSorted (l : List Manifest) : Prop := l.Pairwise fun s u => atLeastAsNew s u = true

private theorem exchangeSort_newer (l : List Manifest) :
    (exchangeSort newer l).Perm l ∧ IsSorted (exchangeSort newer l) := by
  obtain ⟨hperm, hsorted⟩ := exchangeSort_spec strictWeak_newer l
  exact ⟨hperm, hsorted.imp atLeastAsNew_iff.2⟩

private theorem apply_eq (p : RetentionPolicy) (mem : Memory) (snaps : Nat) (now : GoTime) :
    p.apply mem snaps now = (mem ++ [exchangeSort newer (mem.read snaps)],
      p.deletions now 0 (exchangeSort newer (mem.read snaps))) := by
  simp [RetentionPolicy.apply, Memory.read]

private theorem expired_iff :
    p.expired now s = true ↔ Overdue p now s ∧ p.maxAge.toInt < 2 ^ 63 - 1 := by
  have hzero : (0 : Int64).toInt = 0 := rfl
  simp only [RetentionPolicy.expired, Bool.and_eq_true, decide_eq_true_eq, Int64.lt_iff_toInt_lt,
    GoTime.toInt_sub, Overdue, age, hzero]
  omega

private theorem overdue_of_atLeastAsNew (h : atLeastAsNew s u = true) (hs : Overdue p now s) :
    Overdue p now u := by
  rw [atLeastAsNew, decide_eq_true_eq] at h
  obtain ⟨hpos, hlt⟩ := hs
  unfold age at hlt
  refine ⟨hpos, ?_⟩
  unfold age
  omega

private theorem expired_of_atLeastAsNew (h : atLeastAsNew s u = true)
    (hs : p.expired now s = true) :
    p.expired now u = true := by
  rw [expired_iff] at hs ⊢
  exact ⟨overdue_of_atLeastAsNew h hs.1, hs.2⟩

private theorem deletions_eq_self
    (h : ∀ s ∈ l, (0 < p.maxCount ∧ p.maxCount ≤ i) ∨ p.expired now s = true) :
    p.deletions now i l = l := by
  induction l generalizing i with
  | nil => rfl
  | cons s l ih =>
    obtain ⟨hs, hl⟩ := forall_mem_cons.1 h
    have hrest : p.deletions now (i + 1) l = l := by
      refine ih fun u hu => (hl u hu).imp_left fun hlimit => ⟨hlimit.1, ?_⟩
      omega
    rw [RetentionPolicy.deletions, hrest]
    rcases hs with hlimit | hexpired
    · rw [if_pos hlimit]
    · rw [if_pos hexpired, ite_self]

private theorem deletions_eq_nil (hcount : 0 < p.maxCount → i + l.length ≤ p.maxCount)
    (h : ∀ s ∈ l, p.expired now s = false) : p.deletions now i l = [] := by
  induction l generalizing i with
  | nil => rfl
  | cons s l ih =>
    obtain ⟨hs, hl⟩ := forall_mem_cons.1 h
    rw [length_cons] at hcount
    rw [RetentionPolicy.deletions, if_neg (by omega), hs, if_neg Bool.false_ne_true]
    exact ih (by omega) hl

private theorem deletions_spec (p : RetentionPolicy) (now : GoTime) (i : Nat) (hl : IsSorted l) :
    ∃ k ≤ l.length, p.deletions now i l = l.drop k ∧
      (∀ s ∈ l.take k, p.expired now s = false) ∧
      (0 < p.maxCount → k = 0 ∨ i + k ≤ p.maxCount) ∧
      (∀ s ∈ l.drop k, (0 < p.maxCount ∧ p.maxCount ≤ i + k) ∨ p.expired now s = true) := by
  induction l generalizing i with
  | nil => exact ⟨0, Nat.zero_le _, rfl, by simp, fun _ => .inl rfl, by simp⟩
  | cons s l ih =>
    obtain ⟨hs, hl⟩ := pairwise_cons.1 hl
    by_cases hdelete : (0 < p.maxCount ∧ p.maxCount ≤ i) ∨ p.expired now s = true
    · have hall : ∀ u ∈ s :: l, (0 < p.maxCount ∧ p.maxCount ≤ i) ∨ p.expired now u = true := by
        refine forall_mem_cons.2 ⟨hdelete, fun u hu => ?_⟩
        exact hdelete.imp_right (expired_of_atLeastAsNew (hs u hu))
      exact ⟨0, Nat.zero_le _, deletions_eq_self hall, by simp, fun _ => .inl rfl, hall⟩
    · obtain ⟨hlimit, hexpired⟩ := not_or.1 hdelete
      obtain ⟨k, hk, heq, hkept, hcount, hdeleted⟩ := ih (i := i + 1) hl
      refine ⟨k + 1, Nat.succ_le_succ hk, ?_, ?_, ?_, ?_⟩
      · rw [RetentionPolicy.deletions, if_neg hlimit, if_neg hexpired, heq, drop_succ_cons]
      · rw [take_succ_cons]
        exact forall_mem_cons.2 ⟨Bool.eq_false_iff.2 hexpired, hkept⟩
      · intro hpos
        have := hcount hpos
        omega
      · rw [drop_succ_cons]
        intro u hu
        refine (hdeleted u hu).imp_left fun hlimit => ⟨hlimit.1, ?_⟩
        omega

/-- The snapshots in order, split into those that `Apply` keeps and those that it deletes. -/
structure IsSplit (p : RetentionPolicy) (now : GoTime) (snaps kept deleted : List Manifest) :
    Prop where
  perm : (kept ++ deleted).Perm snaps
  sorted : IsSorted (kept ++ deleted)
  not_expired : ∀ s ∈ kept, p.expired now s = false
  length_le : 0 < p.maxCount → kept.length ≤ p.maxCount
  deleted : ∀ s ∈ deleted, (0 < p.maxCount ∧ p.maxCount ≤ kept.length) ∨ p.expired now s = true

private theorem exists_isSplit (p : RetentionPolicy) (mem : Memory) (snaps : Nat) (now : GoTime) :
    ∃ kept, IsSplit p now (mem.read snaps) kept (p.apply mem snaps now).2 := by
  obtain ⟨hperm, hsorted⟩ := exchangeSort_newer (mem.read snaps)
  obtain ⟨k, hk, heq, hkept, hcount, hdeleted⟩ := deletions_spec p now 0 hsorted
  have hlength := length_take_of_le hk
  refine ⟨(exchangeSort newer (mem.read snaps)).take k, ?_⟩
  rw [apply_eq, heq]
  refine ⟨?_, ?_, hkept, ?_, ?_⟩
  · rwa [take_append_drop]
  · rwa [take_append_drop]
  · omega
  · intro s hs
    exact (hdeleted s hs).imp_left fun hlimit => ⟨hlimit.1, by omega⟩

variable {l deleted other : List Manifest} (h : IsSplit p now l kept deleted)

include h

private theorem IsSplit.atLeastAsNew (hs : s ∈ kept) (hu : u ∈ deleted) : atLeastAsNew s u = true :=
  (pairwise_append.1 h.sorted).2.2 s hs u hu

/-- What is deleted has to be. -/
theorem IsSplit.needed (hu : u ∈ deleted) :
    (0 < p.maxCount ∧ p.maxCount < l.countP (Snapshot.atLeastAsNew · u)) ∨ Overdue p now u := by
  refine (h.deleted u hu).imp (fun hlimit => ⟨hlimit.1, ?_⟩) fun hold => (expired_iff.1 hold).1
  have hkept : kept.countP (Snapshot.atLeastAsNew · u) = kept.length :=
    countP_eq_length.2 fun s hs => h.atLeastAsNew hs hu
  have hself : 0 < deleted.countP (Snapshot.atLeastAsNew · u) := by
    refine countP_pos_iff.2 ⟨u, hu, ?_⟩
    exact decide_eq_true (Int.le_refl _)
  rw [← h.perm.countP_eq, List.countP_append]
  omega

private theorem IsSplit.stable (hmem : (mem.read snaps).Perm kept) :
    (p.apply mem snaps now).2 = [] := by
  have hperm := (exchangeSort_newer (mem.read snaps)).1.trans hmem
  rw [apply_eq]
  apply deletions_eq_nil
  · rw [hperm.length_eq]
    have := h.length_le
    omega
  · intro s hs
    exact h.not_expired s (hperm.mem_iff.1 hs)

private theorem IsSplit.retained (hkept : ∀ s ∈ kept, ¬ Overdue p now s)
    (hother : other.Perm kept) : Retained p now l other deleted where
  count_le := by
    rw [hother.length_eq]
    exact h.length_le
  not_overdue s hs := hkept s (hother.mem_iff.1 hs)
  not_newer u hu s hs := h.atLeastAsNew (hother.mem_iff.1 hs) hu
  needed u hu := h.needed hu
  stable mem slice hmem := h.stable (hmem ▸ hother)

private theorem IsSplit.length_le_countP (hkept : ∀ s ∈ kept, ¬ Overdue p now s) :
    kept.length ≤ l.countP fun s => ¬ Overdue p now s := by
  have hcount : (kept.countP fun s => ¬ Overdue p now s) = kept.length :=
    countP_eq_length.2 fun s hs => decide_eq_true (hkept s hs)
  rw [← h.perm.countP_eq, List.countP_append]
  omega

private theorem IsSplit.countP_lt_length (hs : s ∈ kept) (hoverdue : Overdue p now s) :
    (l.countP fun s => ¬ Overdue p now s) < kept.length := by
  have hdeleted : (deleted.countP fun s => ¬ Overdue p now s) = 0 := by
    refine List.countP_eq_zero.2 fun u hu => ?_
    simpa using overdue_of_atLeastAsNew (h.atLeastAsNew hs hu) hoverdue
  have hkept : (kept.countP fun s => ¬ Overdue p now s) < kept.length := by
    refine Nat.lt_of_le_of_ne countP_le_length fun heq => ?_
    exact of_decide_eq_true (countP_eq_length.1 heq s hs) hoverdue
  rw [← h.perm.countP_eq, List.countP_append]
  omega

private theorem IsSplit.not_overdue_iff :
    (∀ s ∈ kept, ¬ Overdue p now s) ↔
      (p.maxAge.toInt = 2 ^ 63 - 1 → (∀ s ∈ l, ¬ Overdue p now s) ∨
        0 < p.maxCount ∧ p.maxCount ≤ l.countP fun s => ¬ Overdue p now s) := by
  have hlast := p.maxAge.toInt_lt
  constructor
  · intro hkept hage
    have hfits : ∀ s, p.expired now s = false := by
      intro s
      rw [Bool.eq_false_iff, Ne, expired_iff]
      omega
    cases hdeleted : deleted with
    | nil =>
      left
      intro s hs
      refine hkept s ?_
      have := h.perm.mem_iff.2 hs
      rwa [hdeleted, append_nil] at this
    | cons u rest =>
      right
      rcases h.deleted u (hdeleted ▸ mem_cons_self) with ⟨hpos, hle⟩ | hexpired
      · exact ⟨hpos, hle.trans (Int.ofNat_le.2 (h.length_le_countP hkept))⟩
      · rw [hfits u] at hexpired
        cases hexpired
  · intro hcond s hs hoverdue
    by_cases hage : p.maxAge.toInt = 2 ^ 63 - 1
    · rcases hcond hage with hnone | ⟨hpos, hle⟩
      · exact hnone s (h.perm.mem_iff.1 (mem_append_left _ hs)) hoverdue
      · have hlimit := h.length_le hpos
        have hlt := h.countP_lt_length hs hoverdue
        omega
    · have hexpired := expired_iff.2 ⟨hoverdue, by omega⟩
      rw [h.not_expired s hs] at hexpired
      cases hexpired

end

/-- `Apply` is correct unless the policy allows the greatest duration for an age: then it is
exactly if no snapshot is older than that, or there are enough others to reach the limit. -/
theorem retention_correct_iff (p : RetentionPolicy) (mem : Memory) (snaps : Nat) (now : GoTime) :
    Correct p mem snaps now ↔
      (p.maxAge.toInt = 2 ^ 63 - 1 → (∀ s ∈ mem.read snaps, ¬ Overdue p now s) ∨
        0 < p.maxCount ∧ p.maxCount ≤ (mem.read snaps).countP fun s => ¬ Overdue p now s) := by
  obtain ⟨kept, hsplit⟩ := exists_isSplit p mem snaps now
  rw [← hsplit.not_overdue_iff]
  constructor
  · intro hcorrect
    exact (hcorrect.retained kept hsplit.perm).not_overdue
  · intro hkept
    refine ⟨fun slice hslice => ?_, ⟨kept, hsplit.perm⟩, fun other hother => ?_⟩
    · rw [apply_eq, getElem?_append_left hslice]
    · have hperm := hother.trans hsplit.perm.symm
      exact hsplit.retained hkept ((perm_append_right_iff _).1 hperm)

/-- A snapshot without a creation time counts from the year one. -/
def undated : Manifest where
  apiVersion := lit "snapshot.storage.k8s.io/v1"
  kind := lit "VolumeSnapshot"
  name := lit "undated"
  namespace_ := lit "default"
  labels := ∅
  snapshotClassName := lit "csi-snap"
  sourcePVC := lit "pgdata-pg-0"
  creationTimestamp := GoTime.ofDate 1 1 1 0 0 0 0

/-- Two thousand years are more than the greatest duration, and the snapshot is kept. -/
theorem retention_keeps_undated :
    let p : RetentionPolicy := { maxAge := 9223372036854775807 }
    let now := GoTime.ofDate 2026 1 10 0 0 0 0
    p.maxAge.toInt < age now undated ∧ (p.apply [[undated]] 0 now).2 = [] ∧
      ¬ Correct p [[undated]] 0 now := by
  intro p now
  have hage : p.maxAge.toInt < age now undated := by decide +kernel
  have hnone : (p.apply [[undated]] 0 now).2 = [] := by decide +kernel
  refine ⟨hage, hnone, fun hcorrect => ?_⟩
  have hperm : ([undated] ++ (p.apply [[undated]] 0 now).2).Perm (Memory.read [[undated]] 0) := by
    rw [hnone]
    exact .refl _
  exact (hcorrect.retained [undated] hperm).not_overdue undated mem_cons_self
    ⟨by decide, hage⟩

end Athos.Snapshot
