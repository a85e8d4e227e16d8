import Athos.Base.Calendar
import Athos.Base.GoMap
import Athos.Kube.Meta
import Mathlib.Data.List.ReduceOption

/-!
# Pods by phase

`Classify`, `SplitByPhase` and `OldestHealthy` of `src/internal/podmanager/podmanager.go`. Entries
of a list of pods are pointers and may be nil.
-/

namespace Athos.Podmanager

open Base Kube List

/-- `corev1.PodPhase`. The type is a text; one that nobody has set is empty. -/
inductive PodPhase where
  | pending
  | running
  | succeeded
  | failed
  | unknown
  | other (text : GoString)
  deriving DecidableEq

/-- The parts of a `corev1.PodCondition` that are read. -/
structure PodCondition where
  type : GoString
  status : ConditionStatus
  deriving DecidableEq

/-- A `corev1.ContainerStatus`, by the time since which the container runs if it does. -/
structure ContainerStatus where
  running : Option GoTime
  deriving DecidableEq

/-- The parts of a `corev1.Pod` that are read. -/
structure Pod where
  name : GoString
  creationTimestamp : GoTime
  deletionTimestamp : Option GoTime
  phase : PodPhase
  conditions : List PodCondition
  containerStatuses : List ContainerStatus
  deriving DecidableEq

/-- `Phase`; `podmanager.go:30-45`. -/
inductive Phase where
  | pending
  | starting
  | healthy
  | unhealthy
  | terminating
  | failed
  deriving DecidableEq

/-- `isReady`; `podmanager.go:70-77`. -/
def isReady (p : Pod) : Bool :=
  p.conditions.any fun c => c.type == lit "Ready" && c.status == .true

/-- `hasRunningContainer`; `podmanager.go:79-86`. -/
def hasRunningContainer (p : Pod) : Bool := p.containerStatuses.any fun cs => cs.running.isSome

/-- `Classify`; `podmanager.go:47-68`. -/
def classify : Option Pod → Phase
  | none => .pending
  | some p =>
    if p.deletionTimestamp.isSome then .terminating
    else match p.phase with
      | .pending => .pending
      | .failed => .failed
      | .running | .succeeded | .unknown | .other _ =>
        if !isReady p then if hasRunningContainer p then .unhealthy else .starting
        else .healthy

/-- `Group`; `podmanager.go:90-97`. -/
structure Group where
  healthy : List (Option Pod) := []
  unhealthy : List (Option Pod) := []
  starting : List (Option Pod) := []
  terminating : List (Option Pod) := []
  pending : List (Option Pod) := []
  failed : List (Option Pod) := []
  deriving DecidableEq

/-- `Group.Total`; `podmanager.go:100-103`. -/
def Group.total (g : Group) : Nat :=
  g.healthy.length + g.unhealthy.length + g.starting.length +
    g.terminating.length + g.pending.length + g.failed.length

/-- `Group.IsAllHealthy`; `podmanager.go:107-112`. -/
def Group.isAllHealthy (g : Group) : Bool :=
  if g.total = 0 then false else g.healthy.length == g.total

/-- The body of the loop of `SplitByPhase`. -/
def Group.add (g : Group) (p : Option Pod) : Group :=
  match classify p with
  | .healthy => { g with healthy := g.healthy ++ [p] }
  | .unhealthy => { g with unhealthy := g.unhealthy ++ [p] }
  | .starting => { g with starting := g.starting ++ [p] }
  | .terminating => { g with terminating := g.terminating ++ [p] }
  | .failed => { g with failed := g.failed ++ [p] }
  | .pending => { g with pending := g.pending ++ [p] }

/-- `SplitByPhase`; `podmanager.go:118-137`. -/
def splitByPhase (pods : List (Option Pod)) : Group := pods.foldl Group.add {}

/-- The comparison of `SortByCreation`; `podmanager.go:142-149`. -/
def createdBefore (p q : Pod) : Bool :=
  if p.creationTimestamp ≠ q.creationTimestamp then q.creationTimestamp.after p.creationTimestamp
  else less p.name q.name

/-- `SortByCreation`; `podmanager.go:141-150`. -/
def sortByCreation (S : SliceSort) (pods : List Pod) : List Pod := S.sort createdBefore pods

/-- The healthy pods. A nil entry is never healthy, so that sorting them follows no nil. -/
def healthyPods (pods : List (Option Pod)) : List Pod :=
  pods.filterMap fun p => if classify p = .healthy then p else none

/-- `OldestHealthy`; `podmanager.go:153-165`. -/
def oldestHealthy (S : SliceSort) (pods : List (Option Pod)) : Option Pod :=
  (sortByCreation S (healthyPods pods)).head?

section

variable {g : Group} {p : Option Pod} {pods pods' : List (Option Pod)} {phase : Phase}

/-- The group of a phase. -/
def Group.of (g : Group) : Phase → List (Option Pod)
  | .healthy => g.healthy
  | .unhealthy => g.unhealthy
  | .starting => g.starting
  | .terminating => g.terminating
  | .failed => g.failed
  | .pending => g.pending

private theorem Group.of_add (g : Group) (p : Option Pod) (phase : Phase) :
    (g.add p).of phase = g.of phase ++ if classify p = phase then [p] else [] := by
  unfold Group.add
  cases classify p <;> cases phase <;> simp [Group.of]

private theorem Group.total_add (g : Group) (p : Option Pod) : (g.add p).total = g.total + 1 := by
  unfold Group.add Group.total
  cases classify p <;> simp only [length_append, length_singleton] <;> omega

private theorem of_foldl_add (g : Group) (phase : Phase) :
    (pods.foldl Group.add g).of phase =
      g.of phase ++ pods.filter fun p => classify p = phase := by
  induction pods generalizing g with
  | nil => simp
  | cons p pods ih =>
    rw [foldl_cons, ih, Group.of_add, append_assoc, filter_cons]
    by_cases hp : classify p = phase <;> simp [hp]

private theorem total_foldl_add (g : Group) :
    (pods.foldl Group.add g).total = g.total + pods.length := by
  induction pods generalizing g with
  | nil => simp
  | cons p pods ih =>
    rw [foldl_cons, ih, Group.total_add, length_cons]
    omega

variable (pods) in
private theorem of_splitByPhase (phase : Phase) :
    (splitByPhase pods).of phase = pods.filter fun p => classify p = phase := by
  rw [splitByPhase, of_foldl_add]
  cases phase <;> rfl

variable (pods) in
private theorem total_splitByPhase : (splitByPhase pods).total = pods.length := by
  rw [splitByPhase, total_foldl_add]
  exact Nat.zero_add _

private theorem isAllHealthy_iff :
    (splitByPhase pods).isAllHealthy = true ↔
      pods ≠ [] ∧ ∀ p ∈ pods, classify p = .healthy := by
  have hhealthy : (splitByPhase pods).healthy = _ := of_splitByPhase pods .healthy
  rw [Group.isAllHealthy, total_splitByPhase, hhealthy]
  by_cases hnil : pods = []
  · simp [hnil]
  · simp [hnil, length_filter_eq_length_iff]

/-- Created earlier, or at the same time with a lesser name. -/
def Older (p q : Pod) : Prop :=
  p.creationTimestamp.instant < q.creationTimestamp.instant ∨
    p.creationTimestamp.instant = q.creationTimestamp.instant ∧ less p.name q.name = true

/-- No two pods have one name. -/
def DistinctNames (pods : List (Option Pod)) : Prop := (pods.reduceOption.map Pod.name).Nodup

instance : Decidable (DistinctNames pods) := inferInstanceAs (Decidable (List.Nodup _))

/-- Healthy, and older than all other healthy pods. -/
structure IsOldestHealthy (pods : List (Option Pod)) (p : Pod) : Prop where
  mem : some p ∈ pods
  healthy : classify (some p) = .healthy
  older : ∀ q, some q ∈ pods → classify (some q) = .healthy → q ≠ p → Older p q

private theorem createdBefore_eq :
    createdBefore = fun p q =>
      if p.creationTimestamp.instant ≠ q.creationTimestamp.instant then
        decide (p.creationTimestamp.instant < q.creationTimestamp.instant)
      else less p.name q.name := by
  funext p q
  simp only [createdBefore, ne_eq, GoTime.instant_inj]
  congr 1
  rw [Bool.eq_iff_iff, GoTime.after_iff, decide_eq_true_iff]

private theorem strictWeak_createdBefore : StrictWeak createdBefore := by
  rw [createdBefore_eq]
  apply StrictWeak.lex
  exact ⟨fun p q => strictWeak_less.asymm p.name q.name,
    fun p q r => strictWeak_less.trans p.name q.name r.name⟩

private theorem createdBefore_iff {p q : Pod} : createdBefore p q = true ↔ Older p q := by
  simp only [createdBefore_eq, Older]
  split_ifs with h
  · simp [h]
  · simp [not_not.1 h]

private theorem eq_name_of_not_createdBefore {p q : Pod} (hpq : createdBefore p q = false)
    (hqp : createdBefore q p = false) : p.name = q.name := by
  rw [Bool.eq_false_iff, Ne, createdBefore_iff, Older, not_or] at hpq hqp
  have htime : p.creationTimestamp.instant = q.creationTimestamp.instant := by omega
  apply eq_of_not_less
  · exact Bool.eq_false_iff.2 fun hless => hpq.2 ⟨htime, hless⟩
  · exact Bool.eq_false_iff.2 fun hless => hqp.2 ⟨htime.symm, hless⟩

private theorem mem_healthyPods {q : Pod} :
    q ∈ healthyPods pods ↔ some q ∈ pods ∧ classify (some q) = .healthy := by
  rw [healthyPods, mem_filterMap]
  constructor
  · rintro ⟨p, hp, hq⟩
    split_ifs at hq with h
    exact ⟨hq ▸ hp, hq ▸ h⟩
  · rintro ⟨hq, h⟩
    exact ⟨some q, hq, if_pos h⟩

private theorem eq_of_not_createdBefore (h : DistinctNames pods) :
    ∀ p ∈ healthyPods pods, ∀ q ∈ healthyPods pods,
      createdBefore p q = false → createdBefore q p = false → p = q := by
  intro p hp q hq hpq hqp
  have hmem : ∀ r ∈ healthyPods pods, r ∈ pods.reduceOption := fun r hr =>
    reduceOption_mem_iff.2 (mem_healthyPods.1 hr).1
  exact inj_on_of_nodup_map h (hmem p hp) (hmem q hq) (eq_name_of_not_createdBefore hpq hqp)

private theorem oldestHealthy_eq_some_iff (S : SliceSort) (h : DistinctNames pods) {p : Pod} :
    oldestHealthy S pods = some p ↔ IsOldestHealthy pods p := by
  have hanti := eq_of_not_createdBefore h
  rw [oldestHealthy, sortByCreation, S.head?_sort_eq_some_iff strictWeak_createdBefore hanti]
  constructor
  · rintro ⟨hp, hleast⟩
    obtain ⟨hmem, hhealthy⟩ := mem_healthyPods.1 hp
    refine ⟨hmem, hhealthy, fun q hq hqhealthy hne => createdBefore_iff.1 ?_⟩
    have hq' := mem_healthyPods.2 ⟨hq, hqhealthy⟩
    by_contra hnot
    exact hne (hanti q hq' p hp (hleast q hq') (Bool.eq_false_iff.2 hnot))
  · rintro ⟨hmem, hhealthy, holder⟩
    refine ⟨mem_healthyPods.2 ⟨hmem, hhealthy⟩, fun q hq => ?_⟩
    obtain ⟨hq, hqhealthy⟩ := mem_healthyPods.1 hq
    by_cases hne : q = p
    · subst hne
      by_contra htrue
      have := strictWeak_createdBefore.asymm q q (by simpa using htrue)
      exact htrue this
    · exact strictWeak_createdBefore.asymm _ _ (createdBefore_iff.2 (holder q hq hqhealthy hne))

private theorem oldestHealthy_eq_none_iff (S : SliceSort) :
    oldestHealthy S pods = none ↔ ∀ p ∈ pods, classify p ≠ .healthy := by
  rw [oldestHealthy, head?_eq_none_iff, sortByCreation]
  have hnil : S.sort createdBefore (healthyPods pods) = [] ↔ healthyPods pods = [] := by
    rw [← length_eq_zero_iff, (S.perm _ _).length_eq, length_eq_zero_iff]
  rw [hnil, eq_nil_iff_forall_not_mem]
  constructor
  · intro hall p hp hhealthy
    cases p with
    | none => cases hhealthy
    | some p => exact hall p (mem_healthyPods.2 ⟨hp, hhealthy⟩)
  · intro hall p hp
    obtain ⟨hmem, hhealthy⟩ := mem_healthyPods.1 hp
    exact hall (some p) hmem hhealthy

/-- The groups are those of the phases, and the oldest healthy pod is the oldest one for every
order of the pods and every sorting algorithm. -/
theorem grouping_exact (pods : List (Option Pod)) :
    (∀ phase, (splitByPhase pods).of phase = pods.filter fun p => classify p = phase) ∧
      (splitByPhase pods).total = pods.length ∧
      ((splitByPhase pods).isAllHealthy = true ↔
        pods ≠ [] ∧ ∀ p ∈ pods, classify p = .healthy) ∧
      (DistinctNames pods → ∀ S : SliceSort, ∀ pods', pods'.Perm pods →
        (oldestHealthy S pods' = none ↔ ∀ p ∈ pods, classify p ≠ .healthy) ∧
          ∀ p, oldestHealthy S pods' = some p ↔ IsOldestHealthy pods p) := by
  refine ⟨of_splitByPhase pods, total_splitByPhase pods, isAllHealthy_iff, ?_⟩
  intro hdistinct S pods' hperm
  have hdistinct' : DistinctNames pods' := by
    have hnames := (hperm.filterMap id).map Pod.name
    exact hnames.nodup_iff.2 hdistinct
  constructor
  · rw [oldestHealthy_eq_none_iff]
    simp only [hperm.mem_iff]
  · intro p
    rw [oldestHealthy_eq_some_iff S hdistinct']
    exact ⟨fun ⟨hmem, hhealthy, holder⟩ =>
        ⟨hperm.mem_iff.1 hmem, hhealthy, fun q hq => holder q (hperm.mem_iff.2 hq)⟩,
      fun ⟨hmem, hhealthy, holder⟩ =>
        ⟨hperm.mem_iff.2 hmem, hhealthy, fun q hq => holder q (hperm.mem_iff.1 hq)⟩⟩

end

/-- A ready pod, created so many seconds into the first of May 2026. -/
def samplePod (name : GoString) (created : Int64) : Pod where
  name := name
  creationTimestamp := GoTime.ofDate 2026 5 1 0 0 created.toInt 0
  deletionTimestamp := none
  phase := .running
  conditions := [⟨lit "Ready", .true⟩]
  containerStatuses := []

/-- Two pods of one age, and the younger one in front. -/
theorem oldest_by_name :
    let pods := [some (samplePod (lit "c") 2), none, some (samplePod (lit "b") 1),
      some (samplePod (lit "a") 1)]
    DistinctNames pods ∧ (splitByPhase pods).total = 4 ∧
      ∀ S, oldestHealthy S pods = some (samplePod (lit "a") 1) := by
  intro pods
  have hdistinct : DistinctNames pods := by decide
  obtain ⟨-, htotal, -, holdest⟩ := grouping_exact pods
  refine ⟨hdistinct, htotal, fun S => ((holdest hdistinct S pods (.refl pods)).2 _).2 ?_⟩
  refine ⟨by decide, by decide, fun q hq _ hne => ?_⟩
  have hcases : q = samplePod (lit "c") 2 ∨ q = samplePod (lit "b") 1 := by
    simpa [pods, hne] using hq
  rcases hcases with rfl | rfl
  · exact .inl (by decide)
  · exact .inr ⟨rfl, by decide⟩

end Athos.Podmanager
