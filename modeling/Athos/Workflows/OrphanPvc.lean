import Athos.Base.Decimal
import Athos.Kube.Server

/-!
# Cleanup of orphaned volume claims

`CleanupOrphanedPVCs` and `pvcOrdinal` of `src/internal/workflows/reconcile.go`. The function lists
the claims of a cluster and deletes those whose ordinal is not below the number of instances; its
two requests have a request type of their own. Go's `int` has 64 bits here.
-/

namespace Athos.Workflows

open Base Kube Api List

/-- `corev1.PersistentVolumeClaim`, as far as the cleanup reads it. -/
structure PersistentVolumeClaim where
  metadata : ObjectMeta
  deriving DecidableEq

/-- What the cleanup asks of the API server. -/
inductive PvcOp where
  | list (namespace_ : GoString) (labels : StringMap)
  | delete (n : NamespacedName)

/-- The answers. -/
abbrev PvcRes : PvcOp → Type
  | .list .. => Except ApiError (List PersistentVolumeClaim)
  | .delete _ => Except ApiError Unit

/-- The loop of `pvcOrdinal` from the last digit on; `reconcile.go:211-216`. -/
def accumulate : GoString → Int64 → Int64 → Int64
  | [], n, _ => n
  | b :: digits, n, mul => accumulate digits (n + Int64.ofNat (b.toNat - 0x30) * mul) (mul * 10)

/-- `pvcOrdinal`; `reconcile.go:201-218`. The text before the number is computed from the
cluster name and dropped, so the name has no effect. -/
def pvcOrdinal (pvcName _clusterName : GoString) : Int64 :=
  match pvcName.reverse.dropWhile isDigitByte with
  | 0x2D :: _ => accumulate (pvcName.reverse.takeWhile isDigitByte) 0 1
  | _ => -1

variable (T : RuneTables)

/-- The loop of `CleanupOrphanedPVCs`; `reconcile.go:158-170`. -/
def deleteOrphans (cluster : PostgresCluster) :
    List PersistentVolumeClaim → Prog PvcOp PvcRes (Option GoError)
  | [] => return none
  | pvc :: items => do
    if pvc.metadata.deletionTimestamp.isSome then deleteOrphans cluster items
    else if cluster.spec.instances ≤
        (pvcOrdinal pvc.metadata.name cluster.metadata.name).toInt then
      match ← Prog.perform (PvcOp.delete pvc.metadata.key) with
      | .ok () | .error .notFound => deleteOrphans cluster items
      | .error e =>
        return some (.wrapped (lit "deleting PVC " ++ goQuote T pvc.metadata.name) (.api e))
    else deleteOrphans cluster items

/-- `CleanupOrphanedPVCs`; `reconcile.go:143-172`. -/
def cleanupOrphanedPVCs (cluster : PostgresCluster) (labelSelector : StringMap) :
    Prog PvcOp PvcRes (Option GoError) := do
  match ← Prog.perform (PvcOp.list cluster.metadata.namespace_ labelSelector) with
  | .error e => return some (.wrapped (lit "listing PVCs") (.api e))
  | .ok items => deleteOrphans T cluster items

/-- Text, a dash, and the digits up to the end of a name. -/
def cutOrdinal (name : GoString) : Option (GoString × GoString) :=
  match name.reverse.dropWhile isDigitByte with
  | 0x2D :: text => some (text.reverse, (name.reverse.takeWhile isDigitByte).reverse)
  | _ => none

/-- The name is `<volume>-<cluster>-<n>` with a decimal ordinal of that value. -/
def HasOrdinal (cluster name : GoString) (n : Nat) : Prop :=
  ∃ volume digits : GoString, name = volume ++ lit "-" ++ cluster ++ lit "-" ++ digits ∧
    digits ≠ [] ∧ (∀ b ∈ digits, isDigitByte b = true) ∧ digitsValue digits = n

/-- The claim belongs to an instance that the cluster no longer has. -/
def Orphaned (cluster : PostgresCluster) (name : GoString) : Prop :=
  ∃ n : Nat, HasOrdinal cluster.metadata.name name n ∧ cluster.spec.instances ≤ n

/-- A name is taken for what it is. Without a dash and digits at its end it reads as −1, and with
a dash only as 0. Digits after the dash are read modulo 2⁶⁴, in the upper half as a negative number:
for a claim of the cluster a number from 2⁶³ on has to be below the number of instances, or to be
read as one that is not; for any other name it has to be read as one that is. -/
def ReadsExactly (cluster : PostgresCluster) (name : GoString) : Prop :=
  match cutOrdinal name with
  | none => 0 ≤ cluster.spec.instances
  | some (_, []) => 0 < cluster.spec.instances
  | some (text, digits@(_ :: _)) =>
    if lit "-" ++ cluster.metadata.name <:+ text then
      digitsValue digits < 2 ^ 63 ∨ digitsValue digits < cluster.spec.instances ∨
        (digitsValue digits % 2 ^ 64 < 2 ^ 63 ∧
          cluster.spec.instances ≤ digitsValue digits % 2 ^ 64) ∨
        cluster.spec.instances + 2 ^ 64 ≤ digitsValue digits % 2 ^ 64
    else
      digitsValue digits % 2 ^ 64 < cluster.spec.instances ∨
        (2 ^ 63 ≤ digitsValue digits % 2 ^ 64 ∧
          digitsValue digits % 2 ^ 64 < cluster.spec.instances + 2 ^ 64)

instance (cluster : PostgresCluster) (name : GoString) : Decidable (ReadsExactly cluster name) := by
  unfold ReadsExactly
  split <;> infer_instance

/-- The digits after the last dash are what is cut off. -/
theorem cutOrdinal_eq_some {name text digits : GoString} :
    cutOrdinal name = some (text, digits) ↔
      name = text ++ 0x2D :: digits ∧ ∀ b ∈ digits, isDigitByte b = true := by
  constructor
  · intro h
    have hsplit := takeWhile_append_dropWhile (p := isDigitByte) (l := name.reverse)
    simp only [cutOrdinal] at h
    split at h
    · rename_i rest hrest
      obtain ⟨rfl, rfl⟩ : rest.reverse = text ∧
          (name.reverse.takeWhile isDigitByte).reverse = digits := by simpa using h
      constructor
      · rw [hrest] at hsplit
        have hname := congrArg List.reverse hsplit
        simpa using hname.symm
      · intro b hb
        exact mem_takeWhile_imp (mem_reverse.1 hb)
    · cases h
  · rintro ⟨rfl, hd⟩
    have hr : ∀ b ∈ digits.reverse, isDigitByte b = true := by simpa using hd
    have hrev : (text ++ 0x2D :: digits).reverse = digits.reverse ++ 0x2D :: text.reverse := by
      simp
    have hdash : ¬ isDigitByte 0x2D = true := by decide
    simp only [cutOrdinal, hrev, dropWhile_append_of_pos hr, takeWhile_append_of_pos hr,
      dropWhile_cons_of_neg hdash, takeWhile_cons_of_neg hdash, append_nil, reverse_reverse]

private theorem accumulate_eq (digits : GoString) (n mul : Int64) :
    accumulate digits n mul = n + mul * Int64.ofNat (digitsValue digits.reverse) := by
  induction digits generalizing n mul with
  | nil => simp [accumulate, digitsValue]
  | cons b digits ih =>
    rw [accumulate, ih, reverse_cons, digitsValue_concat, int64_digit_add]

/-- The function reads the number after the last dash into a 64-bit integer. -/
theorem toInt_pvcOrdinal (name cluster : GoString) :
    (pvcOrdinal name cluster).toInt =
      match cutOrdinal name with
      | some (_, digits) => (digitsValue digits : Int).bmod (2 ^ 64)
      | none => -1 := by
  simp only [pvcOrdinal, cutOrdinal]
  split
  · rw [accumulate_eq]
    simp [Int64.toInt_ofNat']
  · rfl

-- An ordinal that does not fit into 64 bits reads as zero, so its claim stays.
example : (pvcOrdinal (lit "pgdata-db-18446744073709551616") (lit "db")).toInt = 0 := by decide

private theorem hasOrdinal_iff {cluster name : GoString} {n : Nat} :
    HasOrdinal cluster name n ↔ ∃ text digits, cutOrdinal name = some (text, digits) ∧
      digits ≠ [] ∧ lit "-" ++ cluster <:+ text ∧ digitsValue digits = n := by
  have hdash : lit "-" = [0x2D] := rfl
  constructor
  · rintro ⟨volume, digits, rfl, hne, hd, hn⟩
    refine ⟨volume ++ (lit "-" ++ cluster), digits, ?_, hne, ⟨volume, rfl⟩, hn⟩
    apply cutOrdinal_eq_some.2
    refine ⟨?_, hd⟩
    simp [hdash]
  · rintro ⟨text, digits, hcut, hne, ⟨volume, rfl⟩, hn⟩
    obtain ⟨rfl, hd⟩ := cutOrdinal_eq_some.1 hcut
    refine ⟨volume, digits, ?_, hne, hd, hn⟩
    simp [hdash]

private theorem le_bmod_iff (c : Int) (v : Nat) :
    c ≤ (v : Int).bmod (2 ^ 64) ↔
      ((v % 2 ^ 64 : Nat) < 2 ^ 63 ∧ c ≤ (v % 2 ^ 64 : Nat)) ∨ c + 2 ^ 64 ≤ (v % 2 ^ 64 : Nat) := by
  rw [Int.bmod_def]
  push_cast
  split <;> omega

private theorem readsExactly_iff (cluster : PostgresCluster) (name : GoString) :
    ReadsExactly cluster name ↔
      (cluster.spec.instances ≤ (pvcOrdinal name cluster.metadata.name).toInt ↔
        Orphaned cluster name) := by
  rw [toInt_pvcOrdinal]
  cases hcut : cutOrdinal name with
  | none =>
    have hno : ¬ Orphaned cluster name := by
      rintro ⟨n, hn, -⟩
      obtain ⟨text, digits, h, -⟩ := hasOrdinal_iff.1 hn
      rw [hcut] at h
      cases h
    simp only [ReadsExactly, hcut, hno, iff_false]
    omega
  | some p =>
    obtain ⟨text, digits⟩ := p
    have ho : Orphaned cluster name ↔ digits ≠ [] ∧
        lit "-" ++ cluster.metadata.name <:+ text ∧
          cluster.spec.instances ≤ digitsValue digits := by
      simp only [Orphaned, hasOrdinal_iff, hcut, Option.some.injEq, Prod.mk.injEq]
      constructor
      · rintro ⟨n, ⟨_, _, ⟨rfl, rfl⟩, hne, hs, rfl⟩, hle⟩
        exact ⟨hne, hs, hle⟩
      · rintro ⟨hne, hs, hle⟩
        exact ⟨_, ⟨_, _, ⟨rfl, rfl⟩, hne, hs, rfl⟩, hle⟩
    rw [ho]
    cases digits with
    | nil =>
      simp only [ReadsExactly, hcut, ne_eq, not_true_eq_false, false_and, iff_false]
      exact Int.not_le.symm
    | cons b digits =>
      have hvalue := le_bmod_iff cluster.spec.instances (digitsValue (b :: digits))
      by_cases hown : lit "-" ++ cluster.metadata.name <:+ text
      · simp only [ReadsExactly, hcut, hown, ↓reduceIte, hvalue, ne_eq, reduceCtorEq,
          not_false_eq_true, true_and]
        omega
      · simp only [ReadsExactly, hcut, hown, ↓reduceIte, hvalue, false_and, and_false, iff_false]
        omega

/-- The claims that the loop deletes. -/
def Selected (cluster : PostgresCluster) (pvc : PersistentVolumeClaim) : Prop :=
  pvc.metadata.deletionTimestamp = none ∧
    cluster.spec.instances ≤ (pvcOrdinal pvc.metadata.name cluster.metadata.name).toInt

/-- A delete request for the claim was made and left no claim behind. -/
def Removed (tr : List ((op : PvcOp) × PvcRes op)) (pvc : PersistentVolumeClaim) : Prop :=
  ⟨.delete pvc.metadata.key, .ok ()⟩ ∈ tr ∨ ⟨.delete pvc.metadata.key, .error .notFound⟩ ∈ tr

/-- Only claims of instances that no longer exist are deleted, and all of them if the cleanup
succeeds. -/
structure CleansUp (cluster : PostgresCluster) (items : List PersistentVolumeClaim)
    (tr : List ((op : PvcOp) × PvcRes op)) (res : Option GoError) : Prop where
  only : ∀ n r, ⟨.delete n, r⟩ ∈ tr → ∃ pvc ∈ items, pvc.metadata.key = n ∧
    pvc.metadata.deletionTimestamp = none ∧ Orphaned cluster pvc.metadata.name
  all : res = none → ∀ pvc ∈ items, pvc.metadata.deletionTimestamp = none →
    Orphaned cluster pvc.metadata.name → Removed tr pvc

section Traces

variable {T} {cluster : PostgresCluster} {pvc : PersistentVolumeClaim}
  {items : List PersistentVolumeClaim} {tr : List ((op : PvcOp) × PvcRes op)}
  {res : Option GoError}

private theorem deleteOrphans_of_not_selected (h : ¬ Selected cluster pvc) :
    deleteOrphans T cluster (pvc :: items) = deleteOrphans T cluster items := by
  simp only [Selected, not_and] at h
  simp only [deleteOrphans]
  split
  · rfl
  · rename_i ht
    rw [if_neg (h (by simpa using ht))]

private theorem deleteOrphans_of_selected (h : Selected cluster pvc) :
    deleteOrphans T cluster (pvc :: items) =
      .call (.delete pvc.metadata.key) fun
        | .ok () | .error .notFound => deleteOrphans T cluster items
        | .error e => .ret (some
          (.wrapped (lit "deleting PVC " ++ goQuote T pvc.metadata.name) (.api e))) := by
  have ht : ¬ pvc.metadata.deletionTimestamp.isSome = true := by simp [h.1]
  simp only [deleteOrphans, if_neg ht, if_pos h.2]
  refine congrArg (Prog.call _) (funext fun r => ?_)
  rcases r with e | ⟨⟩
  · cases e <;> rfl
  · rfl

private theorem Removed.cons {x : (op : PvcOp) × PvcRes op} (h : Removed tr pvc) :
    Removed (x :: tr) pvc :=
  h.imp (mem_cons_of_mem _) (mem_cons_of_mem _)

private theorem Removed.requested (h : Removed tr pvc) :
    ∃ r, ⟨.delete pvc.metadata.key, r⟩ ∈ tr := by
  rcases h with h | h
  · exact ⟨_, h⟩
  · exact ⟨_, h⟩

private theorem completes_of_selected (hs : Selected cluster pvc)
    (h : (deleteOrphans T cluster (pvc :: items)).Completes tr res) :
    ∃ answer rest, tr = ⟨.delete pvc.metadata.key, answer⟩ :: rest ∧
      ((Removed tr pvc ∧ (deleteOrphans T cluster items).Completes rest res) ∨
        (rest = [] ∧ res ≠ none)) := by
  rw [deleteOrphans_of_selected hs] at h
  obtain ⟨answer, rest, rfl, h⟩ := h
  refine ⟨answer, rest, rfl, ?_⟩
  rcases answer with e | ⟨⟩
  · cases e with
    | notFound => exact .inl ⟨.inr mem_cons_self, h⟩
    | alreadyExists | conflict | invalid | other =>
      obtain ⟨rfl, rfl⟩ := h
      exact .inr ⟨rfl, nofun⟩
  · exact .inl ⟨.inl mem_cons_self, h⟩

private theorem selected_of_mem_completes (h : (deleteOrphans T cluster items).Completes tr res)
    {n : NamespacedName} {r : PvcRes (.delete n)} (hx : ⟨.delete n, r⟩ ∈ tr) :
    ∃ pvc ∈ items, pvc.metadata.key = n ∧ Selected cluster pvc := by
  induction items generalizing tr with
  | nil =>
    obtain ⟨rfl, rfl⟩ := h
    cases hx
  | cons pvc items ih =>
    have hlater {tr'} (h' : (deleteOrphans T cluster items).Completes tr' res)
        (hx' : ⟨.delete n, r⟩ ∈ tr') :
        ∃ q ∈ pvc :: items, q.metadata.key = n ∧ Selected cluster q := by
      obtain ⟨q, hq, hk⟩ := ih h' hx'
      exact ⟨q, mem_cons_of_mem _ hq, hk⟩
    by_cases hs : Selected cluster pvc
    · obtain ⟨answer, rest, rfl, hstep⟩ := completes_of_selected hs h
      rcases mem_cons.1 hx with hx | hx
      · cases hx
        exact ⟨pvc, mem_cons_self, rfl, hs⟩
      · rcases hstep with ⟨-, hrest⟩ | ⟨rfl, -⟩
        · exact hlater hrest hx
        · cases hx
    · rw [deleteOrphans_of_not_selected hs] at h
      exact hlater h hx

private theorem removed_of_completes (h : (deleteOrphans T cluster items).Completes tr none)
    (hp : pvc ∈ items) (hs : Selected cluster pvc) : Removed tr pvc := by
  induction items generalizing tr with
  | nil => cases hp
  | cons q items ih =>
    by_cases hq : Selected cluster q
    · obtain ⟨answer, rest, rfl, ⟨hr, hrest⟩ | ⟨-, hres⟩⟩ := completes_of_selected hq h
      · rcases mem_cons.1 hp with rfl | hp
        · exact hr
        · exact (ih hrest hp).cons
      · exact absurd rfl hres
    · rw [deleteOrphans_of_not_selected hq] at h
      rcases mem_cons.1 hp with rfl | hp
      · exact absurd hs hq
      · exact ih h hp

private theorem exists_completes (T : RuneTables) (cluster : PostgresCluster)
    (items : List PersistentVolumeClaim) :
    ∃ tr, (deleteOrphans T cluster items).Completes tr none := by
  induction items with
  | nil => exact ⟨[], rfl, rfl⟩
  | cons pvc items ih =>
    obtain ⟨tr, h⟩ := ih
    by_cases hs : Selected cluster pvc
    · rw [deleteOrphans_of_selected hs]
      exact ⟨_, .ok (), tr, rfl, h⟩
    · rw [deleteOrphans_of_not_selected hs]
      exact ⟨tr, h⟩

private theorem completes_cleanup_iff {labelSelector : StringMap} :
    (cleanupOrphanedPVCs T cluster labelSelector).Completes
        (⟨.list cluster.metadata.namespace_ labelSelector, .ok items⟩ :: tr) res ↔
      (deleteOrphans T cluster items).Completes tr res := by
  constructor
  · rintro ⟨r, tr', heq, h⟩
    cases heq
    exact h
  · intro h
    exact ⟨.ok items, tr, rfl, h⟩

end Traces

/-- On a list of claims, every execution of the cleanup deletes only orphans, and all of them
if it succeeds, exactly if the name of every claim that is not terminating reads exactly. -/
theorem cleansUp_iff (cluster : PostgresCluster) (labelSelector : StringMap)
    (items : List PersistentVolumeClaim) :
    (∀ tr res, (cleanupOrphanedPVCs T cluster labelSelector).Completes
        (⟨.list cluster.metadata.namespace_ labelSelector, .ok items⟩ :: tr) res →
      CleansUp cluster items tr res) ↔
    ∀ pvc ∈ items, pvc.metadata.deletionTimestamp = none →
      ReadsExactly cluster pvc.metadata.name := by
  simp only [completes_cleanup_iff]
  constructor
  · intro h pvc hp ht
    obtain ⟨tr, htr⟩ := exists_completes T cluster items
    have hclean := h tr none htr
    rw [readsExactly_iff]
    constructor
    · intro hle
      obtain ⟨r, hx⟩ := (removed_of_completes htr hp ⟨ht, hle⟩).requested
      obtain ⟨q, -, hk, -, ho⟩ := hclean.only _ r hx
      have hname : q.metadata.name = pvc.metadata.name := congrArg NamespacedName.name hk
      rwa [← hname]
    · intro ho
      obtain ⟨r, hx⟩ := (hclean.all rfl pvc hp ht ho).requested
      obtain ⟨q, -, hk, -, hle⟩ := selected_of_mem_completes htr hx
      have hname : q.metadata.name = pvc.metadata.name := congrArg NamespacedName.name hk
      rwa [← hname]
  · intro h tr res htr
    constructor
    · intro n r hx
      obtain ⟨pvc, hp, hk, ht, hle⟩ := selected_of_mem_completes htr hx
      exact ⟨pvc, hp, hk, ht, ((readsExactly_iff _ _).1 (h pvc hp ht)).1 hle⟩
    · intro hnone pvc hp ht ho
      subst hnone
      exact removed_of_completes htr hp ⟨ht, ((readsExactly_iff _ _).1 (h pvc hp ht)).2 ho⟩

/-- A cluster with three instances. -/
def sampleScaled : PostgresCluster where
  metadata := { name := lit "db", namespace_ := lit "default" }
  spec := { postgresVersion := 16, instances := 3, storage := { size := .ofBinary 10 30 } }
  status := ({} : PostgresClusterStatus)

/-- A volume claim by its name. -/
def sampleClaim (name : GoString) : PersistentVolumeClaim :=
  ⟨{ name := name, namespace_ := lit "default" }⟩

/-- The cleanup for one cluster deletes the claim of an instance of another one. -/
theorem cleanup_deletes_foreign :
    (cleanupOrphanedPVCs .basic sampleScaled ∅).Completes
      [⟨.list (lit "default") ∅, .ok [sampleClaim (lit "pgdata-other-7")]⟩,
        ⟨.delete ⟨lit "default", lit "pgdata-other-7"⟩, .ok ()⟩] none ∧
    ¬ Orphaned sampleScaled (lit "pgdata-other-7") := by
  have hs : Selected sampleScaled (sampleClaim (lit "pgdata-other-7")) := ⟨rfl, by decide⟩
  constructor
  · apply completes_cleanup_iff.2
    rw [deleteOrphans_of_selected hs]
    exact ⟨.ok (), [], rfl, rfl, rfl⟩
  · intro ho
    have hexact := (readsExactly_iff sampleScaled _).2 ⟨fun _ => ho, fun _ => hs.2⟩
    exact absurd hexact (by decide)

end Athos.Workflows
