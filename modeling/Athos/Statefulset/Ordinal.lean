import Athos.Base.Decimal

/-!
# Ordinals of pods

`OrdinalFromName` of `src/internal/statefulset/builder.go`. The name of the set is measured and not
compared, and the number is read in a 64-bit integer.
-/

namespace Athos.Statefulset

open Base List

/-- `OrdinalFromName`; `builder.go:354-370`. -/
def ordinalFromName (podName stsName : GoString) : Int64 :=
  let start := stsName ++ lit "-"
  if podName.length ≤ start.length then -1
  else
    ((runes (podName.drop start.length)).foldlM (fun (ordinal : Int64) c =>
      if c < 0x30 ∨ 0x39 < c then none
      else some (ordinal * 10 + Int64.ofNat (c - 0x30))) 0).getD (-1)

/-- The name of the pod of a set with the given ordinal, which an `int` can hold. -/
def IsPodName (podName stsName : GoString) (n : Nat) : Prop :=
  ∃ digits, podName = stsName ++ 0x2D :: digits ∧ IsDigits digits ∧ digitsValue digits = n ∧
    n < 2 ^ 63

/-- The names of pods of the set give their ordinals, and other names minus one. -/
def Recognised (podName stsName : GoString) : Prop :=
  Recognises (ordinalFromName podName stsName) (IsPodName podName stsName)

section

variable {podName stsName : GoString}

private theorem foldl_int64 (s : GoString) (v : Nat) :
    s.foldl (fun (n : Int64) b => n * 10 + Int64.ofNat (b.toNat - 0x30)) (Int64.ofNat v) =
      Int64.ofNat (s.foldl (fun v b => 10 * v + (b.toNat - 0x30)) v) := by
  induction s generalizing v with
  | nil => rfl
  | cons b s ih =>
    have hstep : Int64.ofNat v * 10 + Int64.ofNat (b.toNat - 0x30) =
        Int64.ofNat (10 * v + (b.toNat - 0x30)) := by
      rw [Int64.ofNat_add, Nat.mul_comm, Int64.ofNat_mul]
      rfl
    rw [foldl_cons, foldl_cons, hstep, ih]

/-- Digits at the place of the ordinal are read. -/
theorem ordinalFromName_of_isDigits (h : IsDigits (podName.drop (stsName.length + 1))) :
    ordinalFromName podName stsName =
      Int64.ofNat (digitsValue (podName.drop (stsName.length + 1))) := by
  have hlength : (stsName ++ lit "-").length = stsName.length + 1 := length_append
  have hlong : ¬ podName.length ≤ stsName.length + 1 := fun hle =>
    h.ne_nil (drop_eq_nil_iff.2 hle)
  simp only [ordinalFromName, hlength, if_neg hlong]
  rw [foldlM_digits (fun (n : Int64) d => n * 10 + Int64.ofNat d),
    if_pos (all_eq_true.2 h.digit), Option.getD_some]
  exact foldl_int64 _ 0

private theorem ordinalFromName_of_not_isDigits
    (h : ¬ IsDigits (podName.drop (stsName.length + 1))) :
    ordinalFromName podName stsName = -1 := by
  have hlength : (stsName ++ lit "-").length = stsName.length + 1 := length_append
  simp only [ordinalFromName, hlength]
  split_ifs with hshort
  · rfl
  · rw [foldlM_digits (fun (n : Int64) d => n * 10 + Int64.ofNat d), if_neg, Option.getD_none]
    intro hall
    refine h ⟨fun hnil => hshort (drop_eq_nil_iff.1 hnil), all_eq_true.1 hall⟩

private theorem isPodName_iff {n : Nat} :
    IsPodName podName stsName n ↔
      stsName ++ [0x2D] <+: podName ∧ IsDigits (podName.drop (stsName.length + 1)) ∧
        digitsValue (podName.drop (stsName.length + 1)) = n ∧ n < 2 ^ 63 := by
  constructor
  · rintro ⟨digits, rfl, hdigits, hvalue, hlt⟩
    have hdrop : (stsName ++ 0x2D :: digits).drop (stsName.length + 1) = digits := by
      rw [drop_append]
      simp
    rw [hdrop]
    exact ⟨⟨digits, by simp⟩, hdigits, hvalue, hlt⟩
  · rintro ⟨hstart, hdigits, hvalue, hlt⟩
    refine ⟨_, ?_, hdigits, hvalue, hlt⟩
    have heq := prefix_iff_eq_append.1 hstart
    rw [length_append, append_assoc] at heq
    exact heq.symm

variable (podName stsName) in
/-- The pods of a set are told from all other names where the digits at their place belong to
a pod of the set, or happen to wrap to minus one. -/
theorem ordinalFromName_recognised_iff :
    Recognised podName stsName ↔
      (IsDigits (podName.drop (stsName.length + 1)) →
        stsName ++ [0x2D] <+: podName ∧
            digitsValue (podName.drop (stsName.length + 1)) < 2 ^ 63 ∨
          digitsValue (podName.drop (stsName.length + 1)) % 2 ^ 64 = 2 ^ 64 - 1) := by
  unfold Recognised
  by_cases hdigits : IsDigits (podName.drop (stsName.length + 1))
  · rw [forall_prop_of_true hdigits, ordinalFromName_of_isDigits hdigits]
    refine recognises_ofNat_iff fun n => ?_
    rw [isPodName_iff, and_iff_right hdigits]
  · have hnone : ∀ n, ¬ IsPodName podName stsName n := fun n hn =>
      hdigits (isPodName_iff.1 hn).2.1
    rw [recognises_iff_of_forall_not hnone]
    exact iff_of_true (ordinalFromName_of_not_isDigits hdigits) fun h => absurd h hdigits

end

/-- The pod of another set has an ordinal, and so has a number that 64 bits do not hold. -/
theorem foreign_pod_has_ordinal :
    (ordinalFromName (lit "db-prod-3") (lit "db-test")).toInt = 3 ∧
      ¬ lit "db-test-" <+: lit "db-prod-3" ∧
      (ordinalFromName (lit "db-9223372036854775808") (lit "db")).toInt = -2 ^ 63 := by
  decide

end Athos.Statefulset
