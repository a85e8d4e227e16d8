import Athos.Postgres.Status
import Mathlib.Data.List.Nodup

/-!
# Conditions along a history of calls

`Set` of `src/internal/conditions/conditions.go` and the three setters of
`src/internal/postgres/status.go`, called any number of times with any arguments. What they leave
behind is told by the calls of each type alone.
-/

namespace Athos.Conditions

open Base Base.Prog Kube Api Postgres List

/-- The zero `metav1.Time`: the first second of the year one. -/
def zeroTime : Time := -62135596800

/-- The loop of `Set`. -/
def upsert (c : Condition) : List Condition → List Condition
  | [] => [c]
  | existing :: conds =>
    if existing.type ≠ c.type then existing :: upsert c conds
    else
      (if existing.status = c.status then
        { c with lastTransitionTime := existing.lastTransitionTime } else c) :: conds

/-- `Set`; `conditions.go:31-46`. -/
def set (now : Time) (conds : List Condition) (c : Condition) : List Condition :=
  let c := if c.lastTransitionTime = zeroTime then { c with lastTransitionTime := now } else c
  upsert c conds

/-- A call of a setter: its arguments, the generation of the object and the clock. -/
structure Call where
  type : GoString
  status : ConditionStatus
  reason : GoString
  message : GoString
  generation : Int
  time : Time
  deriving DecidableEq

/-- What a call does to the conditions. -/
def step (cs : List Condition) (x : Call) : List Condition :=
  setCondition x.generation x.time x.type x.status x.reason x.message cs

/-- What a call of `Set` with a zero time does. -/
def setZero (cs : List Condition) (x : Call) : List Condition :=
  set x.time cs ⟨x.type, x.status, x.generation, zeroTime, x.reason, x.message⟩

/-- A condition tells the last of the calls of its type, and since when the status has been the
same: the call of that time is the first one, or differs in status from the one before it, and
all later ones agree with it. -/
def Reflects (calls : List Call) (c : Condition) : Prop :=
  ∃ earlier transition later last, calls = earlier ++ transition :: later ∧
    (∀ previous, earlier.getLast? = some previous → previous.status ≠ transition.status) ∧
    (∀ x ∈ later, x.status = transition.status) ∧
    c.lastTransitionTime = transition.time ∧
    (transition :: later).getLast? = some last ∧
    c.status = last.status ∧ c.reason = last.reason ∧ c.message = last.message ∧
    c.observedGeneration = last.generation

/-- Each type that was used has one condition, in the order of first use, and it tells the calls
of its type. -/
structure Law (h : List Call) (cs : List Condition) : Prop where
  once : (cs.map (·.type)).Nodup
  order : cs.map (·.type) = (h.map (·.type)).eraseDups
  reflects : ∀ c ∈ cs, Reflects (h.filter (·.type = c.type)) c

section Steps

variable {h : List Call} {cs : List Condition} {c : Condition} {x : Call} {calls : List Call}

private theorem step_cases (cs : List Condition) (x : Call) :
    (x.type ∉ cs.map (·.type) ∧
      step cs x = cs ++ [⟨x.type, x.status, x.generation, x.time, x.reason, x.message⟩]) ∨
    ∃ front c back, cs = front ++ c :: back ∧ c.type = x.type ∧
      step cs x = front ++ ⟨x.type, x.status, x.generation,
        if c.status = x.status then c.lastTransitionTime else x.time, x.reason,
        x.message⟩ :: back := by
  induction cs with
  | nil => exact .inl ⟨not_mem_nil, rfl⟩
  | cons d cs ih =>
    by_cases hd : d.type = x.type
    · refine .inr ⟨[], d, cs, rfl, hd, ?_⟩
      simp only [step, setCondition, if_pos hd, nil_append]
    · have hstep : step (d :: cs) x = d :: step cs x := by
        simp only [step, setCondition, if_neg hd]
      rw [hstep]
      rcases ih with ⟨hnot, heq⟩ | ⟨front, c, back, rfl, hc, heq⟩
      · left
        rw [heq, map_cons, mem_cons, not_or]
        exact ⟨⟨Ne.symm hd, hnot⟩, rfl⟩
      · right
        rw [heq]
        exact ⟨d :: front, c, back, rfl, hc, rfl⟩

private theorem filter_append_of_ne {type : GoString} (hne : type ≠ x.type) :
    (h ++ [x]).filter (·.type = type) = h.filter (·.type = type) := by
  simp [Ne.symm hne]

private theorem filter_append_self :
    (h ++ [x]).filter (·.type = x.type) = h.filter (·.type = x.type) ++ [x] := by
  simp

private theorem reflects_singleton (x : Call) :
    Reflects [x] ⟨x.type, x.status, x.generation, x.time, x.reason, x.message⟩ :=
  ⟨[], x, [], x, rfl, nofun, nofun, rfl, rfl, rfl, rfl, rfl, rfl⟩

private theorem Reflects.append (hr : Reflects calls c) (x : Call) :
    Reflects (calls ++ [x]) ⟨x.type, x.status, x.generation,
      if c.status = x.status then c.lastTransitionTime else x.time, x.reason, x.message⟩ := by
  obtain ⟨earlier, transition, later, last, rfl, hprev, hlater, htime, hlast, hstatus, -⟩ := hr
  -- The last call has the status of the transition, whether it is that or a later one.
  have hsame : last.status = transition.status := by
    rcases mem_cons.1 (mem_of_getLast? hlast) with rfl | hmem
    · rfl
    · exact hlater last hmem
  by_cases hx : c.status = x.status
  · refine ⟨earlier, transition, later ++ [x], x, by simp, hprev, ?_, ?_, ?_, rfl, rfl, rfl, rfl⟩
    · intro y hy
      rcases mem_append.1 hy with hy | hy
      · exact hlater y hy
      · rw [mem_singleton.1 hy, ← hx, hstatus, hsame]
    · rw [if_pos hx]
      exact htime
    · rw [← cons_append, getLast?_concat]
  · refine ⟨earlier ++ transition :: later, x, [], x, rfl, ?_, nofun, if_neg hx, rfl, rfl, rfl,
      rfl, rfl⟩
    intro previous hp
    rw [getLast?_append_of_ne_nil _ (cons_ne_nil _ _), hlast] at hp
    obtain rfl := Option.some.inj hp
    rwa [← hstatus]

private theorem mem_types_iff (hl : Law h cs) {type : GoString} :
    type ∈ cs.map (·.type) ↔ type ∈ h.map (·.type) := by
  rw [hl.order, mem_eraseDups]

private theorem Law.eraseDups_append (hl : Law h cs) (x : Call) :
    ((h ++ [x]).map (·.type)).eraseDups =
      if x.type ∈ cs.map (·.type) then cs.map (·.type) else cs.map (·.type) ++ [x.type] := by
  rw [map_append, List.eraseDups_append, ← hl.order, map_singleton]
  by_cases hx : x.type ∈ cs.map (·.type)
  · have hremove : [x.type].removeAll (h.map (·.type)) = [] := by
      simpa [List.removeAll] using (mem_types_iff hl).1 hx
    rw [if_pos hx, hremove, eraseDups_nil, append_nil]
  · have hremove : [x.type].removeAll (h.map (·.type)) = [x.type] := by
      simpa [List.removeAll] using fun hm => hx ((mem_types_iff hl).2 hm)
    rw [if_neg hx, hremove]
    rfl

private theorem Law.append (hl : Law h cs) (hnew : x.type ∉ cs.map (·.type)) :
    Law (h ++ [x])
      (cs ++ [⟨x.type, x.status, x.generation, x.time, x.reason, x.message⟩]) := by
  have hfilter : h.filter (·.type = x.type) = [] := by
    apply filter_eq_nil_iff.2
    intro y hy he
    exact hnew ((mem_types_iff hl).2 (mem_map.2 ⟨y, hy, by simpa using he⟩))
  constructor
  case once =>
    rw [map_append]
    exact hl.once.append (nodup_singleton _) (by simpa using hnew)
  case order => rw [hl.eraseDups_append, if_neg hnew, map_append, map_singleton]
  case reflects =>
    intro d hd
    rcases mem_append.1 hd with hd | hd
    · have hne : d.type ≠ x.type := fun he => hnew (mem_map.2 ⟨d, hd, he⟩)
      rw [filter_append_of_ne hne]
      exact hl.reflects d hd
    · obtain rfl := mem_singleton.1 hd
      rw [filter_append_self, hfilter]
      exact reflects_singleton x

private theorem Law.replace {front back : List Condition} (hl : Law h (front ++ c :: back))
    (hc : c.type = x.type) :
    Law (h ++ [x]) (front ++ ⟨x.type, x.status, x.generation,
      if c.status = x.status then c.lastTransitionTime else x.time, x.reason,
      x.message⟩ :: back) := by
  have hmem : x.type ∈ (front ++ c :: back).map (·.type) := by
    rw [← hc]
    exact mem_map_of_mem (mem_append_right _ mem_cons_self)
  have htypes : ∀ d : Condition, d.type = x.type →
      (front ++ d :: back).map (·.type) = (front ++ c :: back).map (·.type) := by
    intro d hd
    simp only [map_append, map_cons, hc, hd]
  -- The conditions around the replaced one are of other types.
  have hother : ∀ d, d ∈ front ∨ d ∈ back → d.type ≠ x.type := by
    have hn := hl.once
    simp only [map_append, map_cons, nodup_append, nodup_cons] at hn
    intro d hd he
    rcases hd with hd | hd
    · exact hn.2.2 d.type (mem_map_of_mem hd) c.type mem_cons_self (he.trans hc.symm)
    · exact hn.2.1.1 (hc ▸ he ▸ mem_map_of_mem hd)
  constructor
  case once =>
    rw [htypes _ rfl]
    exact hl.once
  case order => rw [hl.eraseDups_append, if_pos hmem, htypes _ rfl]
  case reflects =>
    intro d hd
    rcases mem_append.1 hd with hd | hd
    · rw [filter_append_of_ne (hother d (.inl hd))]
      exact hl.reflects d (mem_append_left _ hd)
    · rcases mem_cons.1 hd with rfl | hd
      · rw [filter_append_self, ← hc]
        exact (hl.reflects c (mem_append_right _ mem_cons_self)).append x
      · rw [filter_append_of_ne (hother d (.inr hd))]
        exact hl.reflects d (mem_append_right _ (mem_cons_of_mem _ hd))

/-- One more call. -/
theorem Law.step (hl : Law h cs) (x : Call) : Law (h ++ [x]) (step cs x) := by
  rcases step_cases cs x with ⟨hnew, heq⟩ | ⟨front, c, back, rfl, hc, heq⟩
  · rw [heq]
    exact hl.append hnew
  · rw [heq]
    exact hl.replace hc

end Steps

/-- Along every history, from no conditions. -/
theorem law_foldl (h : List Call) : Law h (h.foldl step []) := by
  induction h using List.reverseRecOn with
  | nil => exact ⟨nodup_nil, rfl, nofun⟩
  | append_singleton h x ih =>
    rw [foldl_append]
    exact ih.step x

private theorem setZero_eq_step (cs : List Condition) (x : Call) : setZero cs x = step cs x := by
  simp only [setZero, set, ↓reduceIte, step]
  induction cs with
  | nil => rfl
  | cons c cs ih =>
    rw [upsert, setCondition]
    by_cases hc : c.type = x.type
    · rw [if_neg (not_not.2 hc), if_pos hc]
      by_cases hs : c.status = x.status
      · rw [if_pos hs, if_pos hs]
      · rw [if_neg hs, if_neg hs]
    · rw [if_pos hc, if_neg hc, ih]

/-- A setter of `status.go`: it asks for the time and puts conditions into the status. -/
structure Setter (k : Kind) where
  run : Object k → GoString → ConditionStatus → GoString → GoString → Action (Object k)
  conditions : Object k → List Condition
  put : Object k → List Condition → Object k
  run_eq : ∀ o type status reason message, run o type status reason message =
    .call .now fun now => .ret (put o (setCondition o.metadata.generation now type status reason
      message (conditions o)))
  conditions_put : ∀ o cs, conditions (put o cs) = cs
  conditions_metadata : ∀ o m, conditions { o with metadata := m } = conditions o

/-- `SetClusterCondition` as a setter. -/
def clusterSetter : Setter .postgresCluster where
  run := setClusterCondition
  conditions cluster := cluster.status.conditions
  put cluster cs := { cluster with status := { cluster.status with conditions := cs } }
  run_eq _ _ _ _ _ := rfl
  conditions_put _ _ := rfl
  conditions_metadata _ _ := rfl

/-- `SetBackupCondition` as a setter. -/
def backupSetter : Setter .postgresBackup where
  run := setBackupCondition
  conditions backup := backup.status.conditions
  put backup cs := { backup with status := { backup.status with conditions := cs } }
  run_eq _ _ _ _ _ := rfl
  conditions_put _ _ := rfl
  conditions_metadata _ _ := rfl

/-- `SetUserCondition` as a setter. -/
def userSetter : Setter .postgresUser where
  run := setUserCondition
  conditions user := user.status.conditions
  put user cs := { user with status := { user.status with conditions := cs } }
  run_eq _ _ _ _ _ := rfl
  conditions_put _ _ := rfl
  conditions_metadata _ _ := rfl

/-- The object at another generation. -/
def atGeneration {k : Kind} (o : Object k) (generation : Int) : Object k :=
  { o with metadata := { o.metadata with generation } }

/-- The calls of a history, one after the other. -/
def Setter.runAll {k : Kind} (S : Setter k) : List Call → Object k → Action (Object k)
  | [], o => return o
  | x :: h, o => do
    let o ← S.run (atGeneration o x.generation) x.type x.status x.reason x.message
    S.runAll h o

/-- The clock at each call. -/
def clock (h : List Call) : List ((op : Op) × Res op) := h.map fun x => ⟨.now, x.time⟩

private theorem Setter.runAll_completes {k : Kind} (S : Setter k) (h : List Call) (o : Object k) :
    ∃ o', (S.runAll h o).Completes (clock h) o' ∧
      S.conditions o' = h.foldl step (S.conditions o) := by
  induction h generalizing o with
  | nil => exact ⟨o, ⟨rfl, rfl⟩, rfl⟩
  | cons x h ih =>
    let next := S.put (atGeneration o x.generation) (step (S.conditions o) x)
    obtain ⟨o', hrun, hcs⟩ := ih next
    refine ⟨o', ?_, ?_⟩
    · rw [Setter.runAll, S.run_eq, atGeneration, S.conditions_metadata]
      exact ⟨x.time, clock h, rfl, hrun⟩
    · rw [hcs, S.conditions_put, foldl_cons]

private theorem Setter.runAll_completes_nil {k : Kind} (S : Setter k) (h : List Call) {o : Object k}
    (ho : S.conditions o = []) :
    ∃ o', (S.runAll h o).Completes (clock h) o' ∧ S.conditions o' = h.foldl step [] := by
  obtain ⟨o', hrun, hcs⟩ := S.runAll_completes h o
  rw [ho] at hcs
  exact ⟨o', hrun, hcs⟩

/-- Objects that start with no conditions end with those that the history tells, the same for
the three setters and for `Set`. -/
theorem condition_history (h : List Call) (cluster : PostgresCluster) (backup : PostgresBackup)
    (user : PostgresUser) (hcluster : cluster.status.conditions = [])
    (hbackup : backup.status.conditions = []) (huser : user.status.conditions = []) :
    ∃ cs, Law h cs ∧ h.foldl setZero [] = cs ∧
      (∃ cluster', (clusterSetter.runAll h cluster).Completes (clock h) cluster' ∧
        cluster'.status.conditions = cs) ∧
      (∃ backup', (backupSetter.runAll h backup).Completes (clock h) backup' ∧
        backup'.status.conditions = cs) ∧
      ∃ user', (userSetter.runAll h user).Completes (clock h) user' ∧
        user'.status.conditions = cs := by
  have hstep : setZero = step := by
    ext1 cs
    ext1 x
    exact setZero_eq_step cs x
  refine ⟨h.foldl step [], law_foldl h, by rw [hstep], ?_, ?_, ?_⟩
  · exact clusterSetter.runAll_completes_nil h hcluster
  · exact backupSetter.runAll_completes_nil h hbackup
  · exact userSetter.runAll_completes_nil h huser

/-- A cluster that becomes ready at the third call and stays so. -/
def sampleCalls : List Call :=
  [⟨lit "Ready", .false, lit "Starting", [], 1, 10⟩,
    ⟨lit "Progressing", .true, lit "Reconciling", [], 1, 10⟩,
    ⟨lit "Ready", .true, lit "Available", [], 1, 20⟩,
    ⟨lit "Ready", .true, lit "Available", [], 2, 30⟩]

/-- Ready changes its status at the third of four calls. -/
theorem condition_history_ready :
    Law sampleCalls [⟨lit "Ready", .true, 2, 20, lit "Available", []⟩,
      ⟨lit "Progressing", .true, 1, 10, lit "Reconciling", []⟩] := by
  obtain ⟨cs, hlaw, hset, -⟩ := condition_history sampleCalls
    ⟨{ name := lit "db", namespace_ := lit "default" },
      { postgresVersion := 16, instances := 1, storage := { size := .ofBinary 10 30 } },
      ({} : PostgresClusterStatus)⟩
    ⟨{ name := lit "nightly", namespace_ := lit "default" }, { clusterName := lit "db" },
      ({} : PostgresBackupStatus)⟩
    ⟨{ name := lit "app", namespace_ := lit "default" }, { clusterName := lit "db" },
      ({} : PostgresUserStatus)⟩ rfl rfl rfl
  have hcs : sampleCalls.foldl setZero [] = [⟨lit "Ready", .true, 2, 20, lit "Available", []⟩,
      ⟨lit "Progressing", .true, 1, 10, lit "Reconciling", []⟩] := by decide
  rwa [← hcs, hset]

end Athos.Conditions
