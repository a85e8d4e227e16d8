import Athos.Base.GoString
import Athos.Base.Sorting

/-!
# Rolling updates

`src/internal/rolerollout/rolerollout.go`: which pod is updated next. A rollout is a sequence of
moves: the next pod, if there is one, gets the desired image, or the health of some pod changes.
-/

namespace Athos.Rolerollout

open Base List

/-- `Pod`; `rolerollout.go:30-36`. -/
structure Pod where
  name : GoString
  ordinal : Int
  isPrimary : Bool
  healthyOK : Bool
  onDesiredImage : Bool
  deriving DecidableEq

variable (S : SliceSort)

/-- `Plan`; `rolerollout.go:42-67`. Of several primaries the loop keeps the last. -/
def plan (pods : List Pod) : List Pod :=
  let pending := pods.filter fun p => !p.onDesiredImage && !p.isPrimary
  let primary := (pods.filter fun p => !p.onDesiredImage && p.isPrimary).getLast?
  S.sort (fun p q => decide (q.ordinal < p.ordinal)) pending ++ primary.toList

/-- `CanProceed`; `rolerollout.go:73-80`. -/
def canProceed (pods : List Pod) : Bool := pods.all fun p => !(p.onDesiredImage && !p.healthyOK)

/-- `IsComplete`; `rolerollout.go:83-93`. -/
def isComplete (pods : List Pod) : Bool :=
  !pods.isEmpty && pods.all fun p => p.onDesiredImage && p.healthyOK

/-- `PendingCount`; `rolerollout.go:96-104`. -/
def pendingCount (pods : List Pod) : Nat := pods.countP fun p => !p.onDesiredImage

/-- `Next`; `rolerollout.go:107-117`. -/
def next (pods : List Pod) : Option Pod :=
  match plan S pods with
  | [] => none
  | first :: _ => if canProceed pods then some first else none

/-! ### Runs -/

/-- What happens during a rollout. -/
inductive Move where
  | update (healthy : Bool)
  | health (name : GoString) (healthy : Bool)
  deriving DecidableEq

/-- The pods of that name change. -/
def touch (name : GoString) (f : Pod → Pod) (pods : List Pod) : List Pod :=
  pods.map fun p => if p.name = name then f p else p

/-- A pod after its update. -/
def Pod.updated (healthy : Bool) (p : Pod) : Pod :=
  { p with onDesiredImage := true, healthyOK := healthy }

/-- A pod with another health. -/
def Pod.withHealth (healthy : Bool) (p : Pod) : Pod := { p with healthyOK := healthy }

/-- One move. -/
def step (pods : List Pod) : Move → List Pod
  | .update healthy =>
    match next S pods with
    | some p => touch p.name (Pod.updated healthy) pods
    | none => pods
  | .health name healthy => touch name (Pod.withHealth healthy) pods

/-- The pods after some moves. -/
def after (pods : List Pod) (moves : List Move) : List Pod := moves.foldl (step S) pods

/-- An update: the pods before, the pod that was chosen, and the pods after. -/
structure Update where
  before : List Pod
  pod : Pod
  after : List Pod
  deriving DecidableEq

/-- The updates of a run, in order. -/
def updates : List Pod → List Move → List Update
  | _, [] => []
  | pods, .update healthy :: moves =>
    match next S pods with
    | some p =>
      let pods' := touch p.name (Pod.updated healthy) pods
      ⟨pods, p, pods'⟩ :: updates pods' moves
    | none => updates pods moves
  | pods, .health name healthy :: moves =>
    updates (touch name (Pod.withHealth healthy) pods) moves

/-- Pods with distinct names and ordinals, at most one of them the primary. -/
structure WellFormed (pods : List Pod) : Prop where
  names : (pods.map (·.name)).Nodup
  ordinals : (pods.map (·.ordinal)).Nodup
  primaries : (pods.filter (·.isPrimary)).length ≤ 1

/-- What a rollout promises of its updates. -/
structure Safe (us : List Update) : Prop where
  once : (us.map (·.pod.name)).Nodup
  settled : ∀ u ∈ us, ∀ q ∈ u.before, q.onDesiredImage = true → q.healthyOK = true
  descending : ((us.map (·.pod)).filter (!·.isPrimary)).Pairwise fun p q => q.ordinal < p.ordinal
  primaryLast : ∀ u ∈ us, u.pod.isPrimary = true → ∀ q ∈ u.before, q.name ≠ u.pod.name →
    q.onDesiredImage = true ∧ q.healthyOK = true
  drops : ∀ u ∈ us, pendingCount u.after + 1 = pendingCount u.before

/-! ### One call -/

section Calls

variable {S} {pods : List Pod} {p q : Pod}

/-- What the choice of a pod guarantees. -/
structure Chosen (pods : List Pod) (p : Pod) : Prop where
  mem : p ∈ pods
  pending : p.onDesiredImage = false
  settled : ∀ q ∈ pods, q.onDesiredImage = true → q.healthyOK = true
  highest : p.isPrimary = false → ∀ q ∈ pods, q.onDesiredImage = false → q.isPrimary = false →
    q.ordinal ≤ p.ordinal
  last : p.isPrimary = true → ∀ q ∈ pods, q.onDesiredImage = false → q.isPrimary = true

private theorem canProceed_iff :
    canProceed pods = true ↔ ∀ q ∈ pods, q.onDesiredImage = true → q.healthyOK = true := by
  simp only [canProceed, all_eq_true, Bool.not_eq_true', Bool.and_eq_false_iff, Bool.not_eq_false']
  constructor
  · intro h q hq hon
    rcases h q hq with hoff | hok
    · rw [hoff] at hon
      cases hon
    · exact hok
  · intro h q hq
    cases hon : q.onDesiredImage with
    | false => exact .inl rfl
    | true => exact .inr (h q hq hon)

private theorem mem_plan (h : p ∈ plan S pods) : p ∈ pods ∧ p.onDesiredImage = false := by
  simp only [plan, mem_append, Option.mem_toList] at h
  rcases h with h | h
  · have hp := mem_filter.1 ((S.perm _ _).mem_iff.1 h)
    exact ⟨hp.1, by simpa using (Bool.and_eq_true_iff.1 hp.2).1⟩
  · have hp := mem_filter.1 (mem_of_getLast? h)
    exact ⟨hp.1, by simpa using (Bool.and_eq_true_iff.1 hp.2).1⟩

private theorem plan_head {rest : List Pod} (h : plan S pods = p :: rest) :
    (p.isPrimary = false ∧ ∀ q ∈ pods, q.onDesiredImage = false → q.isPrimary = false →
      q.ordinal ≤ p.ordinal) ∨
    (p.isPrimary = true ∧ ∀ q ∈ pods, q.onDesiredImage = false → q.isPrimary = true) := by
  simp only [plan] at h
  set replicas := pods.filter fun p => !p.onDesiredImage && !p.isPrimary with hreplicas
  have hmem : ∀ q, q ∈ replicas ↔
      q ∈ pods ∧ q.onDesiredImage = false ∧ q.isPrimary = false := by
    intro q
    simp [hreplicas]
  have hperm := S.perm (fun p q : Pod => decide (q.ordinal < p.ordinal)) replicas
  have hsorted := S.sorted (strictWeak_of_key Pod.ordinal) replicas
  cases hs : S.sort (fun p q : Pod => decide (q.ordinal < p.ordinal)) replicas with
  | cons first others =>
    rw [hs] at h hperm hsorted
    obtain ⟨rfl, -⟩ : first = p ∧ _ := by simpa using h
    refine .inl ⟨((hmem first).1 (hperm.mem_iff.1 mem_cons_self)).2.2, ?_⟩
    intro q hq hpend hrep
    have hq' := hperm.mem_iff.2 ((hmem q).2 ⟨hq, hpend, hrep⟩)
    rcases mem_cons.1 hq' with rfl | hq'
    · exact Int.le_refl _
    · have hle := (pairwise_cons.1 hsorted).1 q hq'
      simp only [decide_eq_false_iff_not] at hle
      omega
  | nil =>
    rw [hs, nil_append] at h
    have hlast : (pods.filter fun p => !p.onDesiredImage && p.isPrimary).getLast? = some p := by
      cases hl : (pods.filter fun p => !p.onDesiredImage && p.isPrimary).getLast? with
      | none => simp [hl] at h
      | some p' =>
        obtain ⟨rfl, -⟩ : p' = p ∧ rest = [] := by simpa [hl] using h
        rfl
    have hp := mem_filter.1 (mem_of_getLast? hlast)
    refine .inr ⟨(Bool.and_eq_true_iff.1 hp.2).2, ?_⟩
    intro q hq hpend
    rw [hs] at hperm
    by_contra hrep
    have hnone := List.Perm.nil_eq hperm
    have hq' := (hmem q).2 ⟨hq, hpend, by simpa using hrep⟩
    rw [← hnone] at hq'
    cases hq'

private theorem chosen_of_next (h : next S pods = some p) : Chosen pods p := by
  simp only [next] at h
  split at h
  · cases h
  · rename_i first rest hplan
    split at h
    · rename_i hgo
      cases h
      obtain ⟨hmem, hpend⟩ := mem_plan (hplan ▸ mem_cons_self)
      refine ⟨hmem, hpend, canProceed_iff.1 hgo, ?_, ?_⟩
      · intro hrep
        rcases plan_head hplan with ⟨-, hmax⟩ | ⟨hprim, -⟩
        · exact hmax
        · rw [hprim] at hrep
          cases hrep
      · intro hprim
        rcases plan_head hplan with ⟨hrep, -⟩ | ⟨-, hlast⟩
        · rw [hprim] at hrep
          cases hrep
        · exact hlast
    · cases h

private theorem pendingCount_eq_zero :
    pendingCount pods = 0 ↔ ∀ q ∈ pods, q.onDesiredImage = true := by
  simp only [pendingCount, List.countP_eq_zero, Bool.not_eq_true', Bool.not_eq_false]

private theorem plan_eq_nil : plan S pods = [] ↔ pendingCount pods = 0 := by
  rw [pendingCount_eq_zero]
  constructor
  · intro h q hq
    simp only [plan, append_eq_nil_iff, Option.toList_eq_nil_iff, getLast?_eq_none_iff] at h
    have hreplicas := List.Perm.eq_nil (h.1 ▸ (S.perm _ _).symm)
    have hreplica := filter_eq_nil_iff.1 hreplicas q hq
    have hprimary := filter_eq_nil_iff.1 h.2 q hq
    cases hon : q.onDesiredImage <;> cases hp : q.isPrimary <;> simp_all
  · intro h
    refine eq_nil_iff_forall_not_mem.2 fun p hp => ?_
    obtain ⟨hmem, hpend⟩ := mem_plan hp
    rw [h p hmem] at hpend
    cases hpend

private theorem next_eq_none_iff :
    next S pods = none ↔ pendingCount pods = 0 ∨ canProceed pods = false := by
  rw [← plan_eq_nil (S := S), next]
  cases plan S pods with
  | nil => simp
  | cons first rest => cases canProceed pods <;> simp

private theorem isComplete_iff (hne : pods ≠ []) :
    isComplete pods = true ↔ pendingCount pods = 0 ∧ ∀ q ∈ pods, q.healthyOK = true := by
  simp only [isComplete, Bool.and_eq_true, Bool.not_eq_true', isEmpty_eq_false_iff,
    all_eq_true, pendingCount_eq_zero]
  constructor
  · rintro ⟨-, h⟩
    exact ⟨fun q hq => (h q hq).1, fun q hq => (h q hq).2⟩
  · rintro ⟨hon, hok⟩
    exact ⟨hne, fun q hq => ⟨hon q hq, hok q hq⟩⟩

end Calls

/-! ### Moves -/

section Moves

variable {S} {pods : List Pod} {p q : Pod} {name : GoString} {f : Pod → Pod} {healthy : Bool}

/-- The two pods are one pod at different times. -/
structure Pod.Same (p q : Pod) : Prop where
  name : p.name = q.name
  ordinal : p.ordinal = q.ordinal
  isPrimary : p.isPrimary = q.isPrimary

private theorem Pod.Same.trans {p q r : Pod} (h : p.Same q) (h' : q.Same r) : p.Same r :=
  ⟨h.name.trans h'.name, h.ordinal.trans h'.ordinal, h.isPrimary.trans h'.isPrimary⟩

/-- Nothing takes a pod off the desired image, and pods keep what identifies them. -/
def Keeps (f : Pod → Pod) : Prop :=
  ∀ p, (f p).Same p ∧ (p.onDesiredImage = true → (f p).onDesiredImage = true)

private theorem keeps_updated (healthy : Bool) : Keeps (Pod.updated healthy) :=
  fun _ => ⟨⟨rfl, rfl, rfl⟩, fun _ => rfl⟩

private theorem keeps_withHealth (healthy : Bool) : Keeps (Pod.withHealth healthy) :=
  fun _ => ⟨⟨rfl, rfl, rfl⟩, fun h => h⟩

private theorem map_touch {α : Type} {g : Pod → α} (hg : ∀ p, g (f p) = g p) :
    (touch name f pods).map g = pods.map g := by
  rw [touch, map_map]
  apply map_congr_left
  intro p _
  simp only [Function.comp_apply]
  split
  · exact hg p
  · rfl

private theorem WellFormed.touch (h : WellFormed pods) (hf : Keeps f) :
    WellFormed (touch name f pods) where
  names := by
    rw [map_touch fun p => (hf p).1.name]
    exact h.names
  ordinals := by
    rw [map_touch fun p => (hf p).1.ordinal]
    exact h.ordinals
  primaries := by
    have hcount (xs : List Pod) :
        (xs.filter (·.isPrimary)).length = ((xs.map (·.isPrimary)).filter id).length := by
      rw [filter_map, length_map]
      rfl
    rw [hcount, map_touch fun p => (hf p).1.isPrimary, ← hcount]
    exact h.primaries

private theorem pending_of_touch (hf : Keeps f) (hq : q ∈ touch name f pods)
    (hpend : q.onDesiredImage = false) :
    ∃ q₀ ∈ pods, q₀.onDesiredImage = false ∧ q.Same q₀ := by
  obtain ⟨q₀, hmem, rfl⟩ := mem_map.1 hq
  refine ⟨q₀, hmem, ?_, ?_⟩
  · cases hon : q₀.onDesiredImage with
    | false => rfl
    | true =>
      split at hpend
      · rw [(hf q₀).2 hon] at hpend
        cases hpend
      · rw [hon] at hpend
        cases hpend
  · split
    · exact (hf q₀).1
    · exact ⟨rfl, rfl, rfl⟩

private theorem name_ne_of_pending (hq : q ∈ touch name (Pod.updated healthy) pods)
    (hpend : q.onDesiredImage = false) : q.name ≠ name := by
  obtain ⟨q₀, -, rfl⟩ := mem_map.1 hq
  split at hpend
  · cases hpend
  · rename_i hne
    rwa [if_neg hne]

private theorem pendingCount_updated (hn : (pods.map (·.name)).Nodup) (hp : p ∈ pods)
    (hpend : p.onDesiredImage = false) :
    pendingCount (touch p.name (Pod.updated healthy) pods) + 1 = pendingCount pods := by
  induction pods with
  | nil => cases hp
  | cons x pods ih =>
    obtain ⟨hx, hn⟩ := nodup_cons.1 hn
    simp only [touch, pendingCount, map_cons, countP_cons] at ih ⊢
    rcases mem_cons.1 hp with rfl | hp
    · -- No other pod has the name, so the rest of the list stays.
      have hrest : (pods.map fun q => if q.name = p.name then q.updated healthy else q) = pods := by
        conv_rhs => rw [← map_id pods]
        apply map_congr_left
        intro q hq
        apply if_neg
        intro he
        exact hx (mem_map.2 ⟨q, hq, he⟩)
      rw [hrest, if_pos rfl]
      simp [Pod.updated, hpend]
    · have hne : x.name ≠ p.name := fun he => hx (mem_map.2 ⟨p, hp, he.symm⟩)
      rw [if_neg hne]
      have := ih hn hp
      omega

private theorem WellFormed.eq_of_ordinal (h : WellFormed pods) (hp : p ∈ pods) (hq : q ∈ pods)
    (he : p.ordinal = q.ordinal) : p = q :=
  inj_on_of_nodup_map h.ordinals hp hq he

private theorem WellFormed.eq_of_isPrimary (h : WellFormed pods) (hp : p ∈ pods) (hq : q ∈ pods)
    (hpp : p.isPrimary = true) (hqp : q.isPrimary = true) : p = q := by
  have hp' := mem_filter.2 ⟨hp, hpp⟩
  have hq' := mem_filter.2 ⟨hq, hqp⟩
  have hlen := h.primaries
  cases hl : pods.filter (·.isPrimary) with
  | nil =>
    rw [hl] at hp'
    cases hp'
  | cons x rest =>
    rw [hl] at hp' hq' hlen
    obtain rfl : rest = [] := eq_nil_of_length_eq_zero (by simpa using hlen)
    exact (mem_singleton.1 hp').trans (mem_singleton.1 hq').symm

end Moves

/-! ### Whole runs -/

section Runs

variable {S} {pods : List Pod} {p q : Pod} {moves : List Move}

private theorem step_cases (S : SliceSort) (pods : List Pod) (m : Move) :
    step S pods m = pods ∨ ∃ name f, Keeps f ∧ step S pods m = touch name f pods := by
  cases m with
  | update healthy =>
    simp only [step]
    split
    · exact .inr ⟨_, _, keeps_updated healthy, rfl⟩
    · exact .inl rfl
  | health name healthy => exact .inr ⟨name, _, keeps_withHealth healthy, rfl⟩

private theorem WellFormed.step (h : WellFormed pods) (m : Move) : WellFormed (step S pods m) := by
  rcases step_cases S pods m with hs | ⟨name, f, hf, hs⟩
  · rwa [hs]
  · rw [hs]
    exact h.touch hf

private theorem pending_of_step {m : Move} (hq : q ∈ step S pods m)
    (hpend : q.onDesiredImage = false) :
    ∃ q₀ ∈ pods, q₀.onDesiredImage = false ∧ q.Same q₀ := by
  rcases step_cases S pods m with hs | ⟨name, f, hf, hs⟩
  · rw [hs] at hq
    exact ⟨q, hq, hpend, rfl, rfl, rfl⟩
  · rw [hs] at hq
    exact pending_of_touch hf hq hpend

private theorem onDesiredImage_after (h : ∀ q ∈ pods, q.onDesiredImage = true) (moves : List Move) :
    ∀ q ∈ after S pods moves, q.onDesiredImage = true := by
  induction moves generalizing pods with
  | nil => exact h
  | cons m moves ih =>
    apply ih
    intro q hq
    by_contra hoff
    obtain ⟨q₀, hq₀, hpend, -⟩ := pending_of_step hq (by simpa using hoff)
    rw [h q₀ hq₀] at hpend
    cases hpend

private theorem updates_cons (S : SliceSort) (pods : List Pod) (m : Move) (moves : List Move) :
    updates S pods (m :: moves) = updates S (step S pods m) moves ∨
    ∃ p healthy, Chosen pods p ∧ step S pods m = touch p.name (Pod.updated healthy) pods ∧
      updates S pods (m :: moves) =
        ⟨pods, p, step S pods m⟩ :: updates S (step S pods m) moves := by
  cases m with
  | health name healthy => exact .inl rfl
  | update healthy =>
    cases hn : next S pods with
    | none =>
      left
      simp only [updates, step, hn]
    | some p =>
      right
      refine ⟨p, healthy, chosen_of_next hn, ?_, ?_⟩
      · simp only [step, hn]
      · simp only [updates, step, hn]

private theorem pending_of_mem_updates {u : Update} (hu : u ∈ updates S pods moves) :
    ∃ q ∈ pods, q.onDesiredImage = false ∧ u.pod.Same q := by
  induction moves generalizing pods with
  | nil => cases hu
  | cons m moves ih =>
    have hrest (hu : u ∈ updates S (step S pods m) moves) :
        ∃ q ∈ pods, q.onDesiredImage = false ∧ u.pod.Same q := by
      obtain ⟨q, hq, hpend, hsame⟩ := ih hu
      obtain ⟨q₀, hq₀, hpend₀, hsame₀⟩ := pending_of_step hq hpend
      exact ⟨q₀, hq₀, hpend₀, hsame.trans hsame₀⟩
    rcases updates_cons S pods m moves with he | ⟨p, _, hc, -, he⟩
    · exact hrest (he ▸ hu)
    · rw [he] at hu
      rcases mem_cons.1 hu with rfl | hu
      · exact ⟨p, hc.mem, hc.pending, rfl, rfl, rfl⟩
      · exact hrest hu

private theorem Safe.cons {healthy : Bool} {pods' : List Pod} (hw : WellFormed pods)
    (hc : Chosen pods p) (hs : pods' = touch p.name (Pod.updated healthy) pods)
    (h : Safe (updates S pods' moves)) : Safe (⟨pods, p, pods'⟩ :: updates S pods' moves) := by
  subst hs
  -- What is updated later is pending now, and has another name.
  have hlater : ∀ u ∈ updates S (touch p.name (Pod.updated healthy) pods) moves,
      u.pod.name ≠ p.name ∧ ∃ q ∈ pods, q.onDesiredImage = false ∧ u.pod.Same q := by
    intro u hu
    obtain ⟨q, hq, hpend, hsame⟩ := pending_of_mem_updates hu
    obtain ⟨q₀, hq₀, hpend₀, hsame₀⟩ := pending_of_touch (keeps_updated healthy) hq hpend
    exact ⟨hsame.name ▸ name_ne_of_pending hq hpend, q₀, hq₀, hpend₀, hsame.trans hsame₀⟩
  constructor
  case once =>
    rw [map_cons, nodup_cons]
    refine ⟨?_, h.once⟩
    intro hmem
    obtain ⟨u, hu, hname⟩ := mem_map.1 hmem
    exact (hlater u hu).1 hname
  case settled => exact forall_mem_cons.2 ⟨hc.settled, h.settled⟩
  case descending =>
    rw [map_cons]
    cases hprim : p.isPrimary with
    | true =>
      rw [filter_cons_of_neg (by simp [hprim])]
      exact h.descending
    | false =>
      rw [filter_cons_of_pos (by simp [hprim]), pairwise_cons]
      refine ⟨?_, h.descending⟩
      intro x hx
      obtain ⟨hx, hrep⟩ := mem_filter.1 hx
      obtain ⟨u, hu, rfl⟩ := mem_map.1 hx
      obtain ⟨hne, q, hq, hpend, hsame⟩ := hlater u hu
      have hle := hc.highest hprim q hq hpend (by simpa [← hsame.isPrimary] using hrep)
      have hord : q.ordinal ≠ p.ordinal := by
        intro he
        obtain rfl := hw.eq_of_ordinal hq hc.mem he
        exact hne hsame.name
      rw [hsame.ordinal]
      exact lt_of_le_of_ne hle hord
  case primaryLast =>
    refine forall_mem_cons.2 ⟨?_, h.primaryLast⟩
    intro hprim q hq hne
    cases hon : q.onDesiredImage with
    | true => exact ⟨rfl, hc.settled q hq hon⟩
    | false =>
      have heq := hw.eq_of_isPrimary hq hc.mem (hc.last hprim q hq hon) hprim
      exact absurd (congrArg Pod.name heq) hne
  case drops =>
    exact forall_mem_cons.2 ⟨pendingCount_updated hw.names hc.mem hc.pending, h.drops⟩

private theorem safe_updates (hw : WellFormed pods) : Safe (updates S pods moves) := by
  induction moves generalizing pods with
  | nil =>
    exact ⟨nodup_nil, forall_mem_nil _, List.Pairwise.nil, forall_mem_nil _,
      forall_mem_nil _⟩
  | cons m moves ih =>
    rcases updates_cons S pods m moves with he | ⟨p, _, hc, hs, he⟩
    · rw [he]
      exact ih (hw.step m)
    · rw [he]
      exact (ih (hw.step m)).cons hw hc hs

end Runs

/-- Every rollout from pods with distinct names and ordinals and at most one primary updates
each pod at most once, only with all updated pods healthy, the replicas by decreasing ordinal
and the primary after all others; each update takes one off the pending count. A rollout is
complete exactly if no pod is pending and all are healthy, and then no update follows. -/
theorem rollout_safe (S : SliceSort) (pods : List Pod) (hw : WellFormed pods)
    (moves : List Move) :
    Safe (updates S pods moves) ∧
    (after S pods moves ≠ [] → (isComplete (after S pods moves) = true ↔
      pendingCount (after S pods moves) = 0 ∧
        ∀ q ∈ after S pods moves, q.healthyOK = true)) ∧
    ∀ more, isComplete (after S pods moves) = true →
      next S (after S pods (moves ++ more)) = none := by
  refine ⟨safe_updates hw, isComplete_iff, ?_⟩
  intro more hcomplete
  have hne : after S pods moves ≠ [] := by
    intro he
    rw [he] at hcomplete
    cases hcomplete
  have hnone := pendingCount_eq_zero.1 ((isComplete_iff hne).1 hcomplete).1
  rw [after, foldl_append]
  exact next_eq_none_iff.2 (.inl (pendingCount_eq_zero.2 (onDesiredImage_after hnone more)))

/-- Three pods before an update of all of them. -/
def samplePods : List Pod :=
  [⟨lit "pg-0", 0, true, true, false⟩, ⟨lit "pg-1", 1, false, true, false⟩,
    ⟨lit "pg-2", 2, false, true, false⟩]

/-- They are updated from the last replica to the primary, with a pause while one is unhealthy. -/
theorem rollout_safe_samplePods :
    (updates .insertion samplePods [.update false, .update true, .health (lit "pg-2") true,
      .update true, .update true]).map (·.pod.ordinal) = [2, 1, 0] ∧
    Safe (updates .insertion samplePods [.update false, .update true,
      .health (lit "pg-2") true, .update true, .update true]) :=
  ⟨by decide, (rollout_safe .insertion samplePods ⟨by decide, by decide, by decide⟩ _).1⟩

/-! ### Completion -/

section Progress

variable {S : SliceSort} {pods : List Pod}

private theorem step_update (hn : (pods.map (·.name)).Nodup) (hgo : canProceed pods = true) :
    pendingCount (step S pods (.update true)) = pendingCount pods - 1 ∧
      canProceed (step S pods (.update true)) = true := by
  cases hnext : next S pods with
  | none =>
    have hzero : pendingCount pods = 0 := by simpa [hgo] using next_eq_none_iff.1 hnext
    simp only [step, hnext, hzero, hgo, and_self]
  | some p =>
    have hc := chosen_of_next hnext
    simp only [step, hnext]
    have hcount : pendingCount (touch p.name (Pod.updated true) pods) + 1 = pendingCount pods :=
      pendingCount_updated hn hc.mem hc.pending
    refine ⟨by omega, canProceed_iff.2 fun q hq hon => ?_⟩
    obtain ⟨q₀, hq₀, rfl⟩ := mem_map.1 hq
    split
    · rfl
    · rename_i hne
      rw [if_neg hne] at hon
      exact hc.settled q₀ hq₀ hon

private theorem names_step (m : Move) : (step S pods m).map (·.name) = pods.map (·.name) := by
  rcases step_cases S pods m with hs | ⟨name, f, hf, hs⟩
  · rw [hs]
  · rw [hs, map_touch fun p => (hf p).1.name]

private theorem names_after (moves : List Move) :
    (after S pods moves).map (·.name) = pods.map (·.name) := by
  induction moves generalizing pods with
  | nil => rfl
  | cons m moves ih => exact ih.trans (names_step m)

private theorem after_updates (hn : (pods.map (·.name)).Nodup) (hgo : canProceed pods = true)
    (k : Nat) :
    pendingCount (after S pods (List.replicate k (.update true))) = pendingCount pods - k ∧
      canProceed (after S pods (List.replicate k (.update true))) = true := by
  induction k generalizing pods with
  | zero => exact ⟨rfl, hgo⟩
  | succ k ih =>
    obtain ⟨hcount, hgo'⟩ := step_update (S := S) hn hgo
    have hn' : ((step S pods (.update true)).map (·.name)).Nodup := by rwa [names_step]
    obtain ⟨hcounts, hgoes⟩ := ih hn' hgo'
    refine ⟨?_, hgoes⟩
    change pendingCount (after S (step S pods (.update true)) _) = _
    omega

private theorem isComplete_of_canProceed (hne : pods ≠ []) (hgo : canProceed pods = true) :
    isComplete pods = true ↔ pendingCount pods = 0 := by
  rw [isComplete_iff hne]
  refine and_iff_left_of_imp fun hzero q hq => ?_
  exact canProceed_iff.1 hgo q hq (pendingCount_eq_zero.1 hzero q hq)

end Progress

/-- At every moment of a rollout there is a pod to update unless none is pending or an updated
pod is unhealthy; and while all updated pods are healthy, the rollout is completed by as many
successful updates as pods are pending, and not by fewer. -/
theorem rollout_completes (S : SliceSort) (pods : List Pod) (hw : WellFormed pods)
    (hne : pods ≠ []) (moves : List Move) :
    let now := after S pods moves
    (next S now = none ↔ pendingCount now = 0 ∨
      ∃ q ∈ now, q.onDesiredImage = true ∧ q.healthyOK = false) ∧
    (canProceed now = true → ∀ k,
      isComplete (after S now (List.replicate k (.update true))) = true ↔
        pendingCount now ≤ k) := by
  intro now
  have hnames : now.map (·.name) = pods.map (·.name) := names_after moves
  constructor
  · rw [next_eq_none_iff, ← Bool.not_eq_true, canProceed_iff]
    simp only [not_forall, Bool.not_eq_true, exists_prop]
  · intro hgo k
    obtain ⟨hcount, hgo'⟩ := after_updates (S := S) (hnames ▸ hw.names) hgo k
    have hend : after S now (List.replicate k (.update true)) ≠ [] := by
      intro he
      have hnil := (names_after (S := S) (List.replicate k (.update true))).trans hnames
      rw [he] at hnil
      exact hne (map_eq_nil_iff.1 hnil.symm)
    rw [isComplete_of_canProceed hend hgo', hcount]
    omega

/-- After an update that leaves its pod unhealthy for a while, two more complete it. -/
theorem rollout_completes_samplePods :
    next .insertion (after .insertion samplePods [.update false]) = none ∧
      isComplete (after .insertion
        (after .insertion samplePods [.update false, .health (lit "pg-2") true])
        (List.replicate 2 (.update true))) = true := by
  have hw : WellFormed samplePods := ⟨by decide, by decide, by decide⟩
  have hwait := rollout_completes .insertion samplePods hw (by decide) [.update false]
  have hgo := rollout_completes .insertion samplePods hw (by decide)
    [.update false, .health (lit "pg-2") true]
  exact ⟨hwait.1.2 (by decide), (hgo.2 (by decide) 2).2 (by decide)⟩

end Athos.Rolerollout
