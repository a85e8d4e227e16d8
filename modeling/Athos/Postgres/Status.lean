import Athos.Kube.Server

/-!
# Status conditions

`src/internal/postgres/status.go`. The three setters of the source differ only in the object they
work on; `setCondition` is their common body.
-/

namespace Athos.Postgres

open Base Kube Api List

/-- Replace the first condition of a type, or append one. The transition time is kept
when the status is the same. -/
def setCondition (generation : Int) (now : Time) (type : GoString) (status : ConditionStatus)
    (reason message : GoString) : List Condition → List Condition
  | [] => [⟨type, status, generation, now, reason, message⟩]
  | c :: cs =>
    if c.type = type then
      ⟨type, status, generation, if c.status = status then c.lastTransitionTime else now,
        reason, message⟩ :: cs
    else c :: setCondition generation now type status reason message cs

/-- `SetClusterCondition`; `status.go:29-63`. -/
def setClusterCondition (cluster : PostgresCluster) (type : GoString) (status : ConditionStatus)
    (reason message : GoString) : Action PostgresCluster := do
  let now ← Client.now
  return { cluster with status := { cluster.status with
    conditions := setCondition cluster.metadata.generation now type status reason message
      cluster.status.conditions } }

/-- `SetBackupCondition`; `status.go:81-114`. -/
def setBackupCondition (backup : PostgresBackup) (type : GoString) (status : ConditionStatus)
    (reason message : GoString) : Action PostgresBackup := do
  let now ← Client.now
  return { backup with status := { backup.status with
    conditions := setCondition backup.metadata.generation now type status reason message
      backup.status.conditions } }

/-- `SetUserCondition`; `status.go:117-150`. -/
def setUserCondition (user : PostgresUser) (type : GoString) (status : ConditionStatus)
    (reason message : GoString) : Action PostgresUser := do
  let now ← Client.now
  return { user with status := { user.status with
    conditions := setCondition user.metadata.generation now type status reason message
      user.status.conditions } }

/-- `IsClusterRunning`; `status.go:76-78`. -/
def isClusterRunning (cluster : PostgresCluster) : Bool := cluster.status.phase = .running

/-- The condition of a type that readers see. -/
def currentCondition (cs : List Condition) (type : GoString) : Option Condition :=
  cs.find? fun c => c.type = type

section

variable {generation : Int} {now : Time} {type type' : GoString} {status : ConditionStatus}
  {reason message : GoString} {cs : List Condition} {c : Condition}

/-- After setting a condition readers see it. -/
theorem currentCondition_setCondition_self :
    ∃ t, currentCondition (setCondition generation now type status reason message cs) type =
      some ⟨type, status, generation, t, reason, message⟩ := by
  induction cs with
  | nil => exact ⟨now, by simp [currentCondition, setCondition]⟩
  | cons c cs ih =>
    rw [setCondition]
    split
    · exact ⟨_, find?_cons_of_pos (by simp)⟩
    · next h =>
      obtain ⟨t, ht⟩ := ih
      exact ⟨t, by rw [currentCondition, find?_cons_of_neg (by simpa using h)]; exact ht⟩

/-- Setting a condition leaves those of other types. -/
theorem currentCondition_setCondition_of_ne (hne : type' ≠ type) :
    currentCondition (setCondition generation now type status reason message cs) type' =
      currentCondition cs type' := by
  induction cs with
  | nil => simp [currentCondition, setCondition, hne.symm]
  | cons c cs ih =>
    rw [setCondition]
    split
    · next h => simp [currentCondition, h, hne.symm]
    · rw [currentCondition, currentCondition, find?_cons, find?_cons]
      split
      · rfl
      · exact ih

/-- Setting a condition that readers already see changes nothing, at any time. -/
theorem setCondition_of_current {t : Time}
    (h : currentCondition cs type = some ⟨type, status, generation, t, reason, message⟩) :
    setCondition generation now type status reason message cs = cs := by
  induction cs with
  | nil => cases h
  | cons c cs ih =>
    rw [currentCondition, find?_cons] at h
    rw [setCondition]
    split
    · next hc =>
      rw [decide_eq_true hc, Option.some.injEq] at h
      subst h
      simp only [↓reduceIte]
    · next hc =>
      rw [decide_eq_false hc] at h
      rw [ih h]

end

/-- What a condition says, apart from when and in which words. -/
abbrev Mark := GoString × ConditionStatus × GoString

/-- The marks of a list of conditions. -/
def marks (cs : List Condition) : List Mark := cs.map fun c => (c.type, c.status, c.reason)

/-- Replace the first mark of a type, or append it. -/
def putMark (m : Mark) : List Mark → List Mark
  | [] => [m]
  | x :: xs => if x.1 = m.1 then m :: xs else x :: putMark m xs

/-- Setting a condition puts its mark. -/
theorem marks_setCondition (generation : Int) (now : Time) (type : GoString)
    (status : ConditionStatus) (reason message : GoString) (cs : List Condition) :
    marks (setCondition generation now type status reason message cs) =
      putMark (type, status, reason) (marks cs) := by
  induction cs with
  | nil => rfl
  | cons c cs ih =>
    rw [setCondition]
    by_cases h : c.type = type
    · simp [h, marks, putMark]
    · simp only [h, ↓reduceIte, marks, map_cons, putMark]
      exact congrArg _ ih

/-- A mark is the one that is put or was there before. -/
theorem mem_putMark {m x : Mark} {ms : List Mark} (h : x ∈ putMark m ms) : x = m ∨ x ∈ ms := by
  induction ms with
  | nil => exact .inl (mem_singleton.1 h)
  | cons y ys ih =>
    rw [putMark] at h
    split at h
    · exact (mem_cons.1 h).imp_right (mem_cons_of_mem y)
    · rcases mem_cons.1 h with rfl | h
      · exact .inr mem_cons_self
      · exact (ih h).imp_right (mem_cons_of_mem y)

/-- Marks are those of the conditions. -/
theorem mem_marks {cs : List Condition} {m : Mark} :
    m ∈ marks cs ↔ ∃ c ∈ cs, (c.type, c.status, c.reason) = m := mem_map

end Athos.Postgres
