import Athos.Rolerollout.Rollout

/-!
# What a plan leaves out

`Plan` keeps the pending primary in one variable, so that of several pods with the mark it keeps the
last. With at most one it is an order of all pending pods.
-/

namespace Athos.Rolerollout

open Base List

/-- The pods that still need an update. -/
def pendingPods (pods : List Pod) : List Pod := pods.filter (!·.onDesiredImage)

/-- The pending pods with the mark of the primary. -/
def pendingPrimaries (pods : List Pod) : List Pod :=
  pods.filter fun p => !p.onDesiredImage && p.isPrimary

/-- An order of all pending pods: replicas first, from the highest ordinal down, then those with
the mark of the primary. -/
structure Orders (pods plan : List Pod) : Prop where
  perm : plan.Perm (pendingPods pods)
  length : plan.length = pendingCount pods
  split : ∃ replicas primaries, plan = replicas ++ primaries ∧
    (∀ p ∈ replicas, p.isPrimary = false) ∧
    (replicas.Pairwise fun p q => q.ordinal ≤ p.ordinal) ∧ ∀ p ∈ primaries, p.isPrimary = true

private theorem perm_pendingPods (pods : List Pod) :
    ((pods.filter fun p => !p.onDesiredImage && !p.isPrimary) ++ pendingPrimaries pods).Perm
      (pendingPods pods) := by
  have hreplicas : (pods.filter fun p => !p.onDesiredImage && !p.isPrimary) =
      (pendingPods pods).filter (!·.isPrimary) := by
    rw [pendingPods, filter_filter]
    exact filter_congr fun p _ => Bool.and_comm _ _
  have hprimaries : pendingPrimaries pods = (pendingPods pods).filter (·.isPrimary) := by
    rw [pendingPods, filter_filter]
    exact filter_congr fun p _ => Bool.and_comm _ _
  rw [hreplicas, hprimaries]
  exact perm_append_comm.trans (filter_append_perm _ _)

private theorem pendingCount_eq_length (pods : List Pod) :
    pendingCount pods = (pendingPods pods).length := countP_eq_length_filter

private theorem length_plan (S : SliceSort) (pods : List Pod) :
    (plan S pods).length + (pendingPrimaries pods).length =
      pendingCount pods + min (pendingPrimaries pods).length 1 := by
  have hperm := (perm_pendingPods pods).length_eq
  have hlast : ((pendingPrimaries pods).getLast?.toList).length =
      min (pendingPrimaries pods).length 1 := by
    cases pendingPrimaries pods with
    | nil => rfl
    | cons p ps => simp [getLast?_cons]
  rw [pendingCount_eq_length, ← hperm, length_append, plan, length_append, (S.perm _ _).length_eq]
  change _ + (pendingPrimaries pods).getLast?.toList.length + _ = _
  omega

private theorem plan_eq (S : SliceSort) {pods : List Pod} (h : (pendingPrimaries pods).length ≤ 1) :
    plan S pods = S.sort (fun p q => decide (q.ordinal < p.ordinal))
      (pods.filter fun p => !p.onDesiredImage && !p.isPrimary) ++ pendingPrimaries pods := by
  have hlast : (pendingPrimaries pods).getLast?.toList = pendingPrimaries pods := by
    match pendingPrimaries pods, h with
    | [], _ => rfl
    | [p], _ => rfl
  rw [plan]
  exact congrArg _ hlast

/-- A plan orders all pending pods exactly if at most one of them has the mark of the primary. -/
theorem plan_orders_iff (S : SliceSort) (pods : List Pod) :
    Orders pods (plan S pods) ↔ (pendingPrimaries pods).length ≤ 1 := by
  have hlength := length_plan S pods
  constructor
  · intro h
    have heq := h.length
    omega
  · intro hone
    have hsort := S.perm (fun p q : Pod => decide (q.ordinal < p.ordinal))
      (pods.filter fun p => !p.onDesiredImage && !p.isPrimary)
    have hsorted := S.sorted (strictWeak_of_key Pod.ordinal)
      (pods.filter fun p => !p.onDesiredImage && !p.isPrimary)
    refine ⟨?_, by omega, _, _, plan_eq S hone, ?_, ?_, ?_⟩
    · rw [plan_eq S hone]
      exact (hsort.append_right _).trans (perm_pendingPods pods)
    · intro p hp
      have hkept := (mem_filter.1 (hsort.mem_iff.1 hp)).2
      simpa using (Bool.and_eq_true_iff.1 hkept).2
    · refine hsorted.imp ?_
      intro p q hle
      simpa using hle
    · intro p hp
      exact (Bool.and_eq_true_iff.1 (mem_filter.1 hp).2).2

/-- Two pods with the mark of the primary, neither updated. -/
def samplePrimaries : List Pod :=
  [⟨lit "db-0", 0, true, true, false⟩, ⟨lit "db-1", 1, true, true, false⟩]

/-- The first of them is left out. -/
theorem plan_loses_samplePrimaries :
    plan .insertion samplePrimaries = [⟨lit "db-1", 1, true, true, false⟩] ∧
      pendingCount samplePrimaries = 2 ∧
      ¬ Orders samplePrimaries (plan .insertion samplePrimaries) := by
  have hplan : plan .insertion samplePrimaries = [⟨lit "db-1", 1, true, true, false⟩] := by decide
  refine ⟨hplan, by decide, fun h => ?_⟩
  have hlength := h.length
  rw [hplan] at hlength
  exact absurd hlength (by decide)

end Athos.Rolerollout
