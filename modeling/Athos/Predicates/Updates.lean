import Athos.Labels.Sets

/-!
# Which updates reach a controller

The update filters of `src/internal/predicates/predicates.go`, and the failover request of
`src/internal/ha/ha.go` that one of them is meant to let through. An update that a filter drops is
not seen again, so the filters matter through what they drop.
-/

namespace Athos.Predicates

open Base Kube Labels

/-- An `event.UpdateEvent`, by the metadata of the two objects. -/
structure UpdateEvent where
  objectOld : ObjectMeta
  objectNew : ObjectMeta
  deriving DecidableEq

/-- `predicate.Funcs`. The filters modelled here pass every event that is not an update. -/
structure Funcs where
  updateFunc : UpdateEvent → Bool
  createFunc : ObjectMeta → Bool := fun _ => true
  deleteFunc : ObjectMeta → Bool := fun _ => true
  genericFunc : ObjectMeta → Bool := fun _ => true

/-- `annotationsChanged`; `predicates.go:138-148`. -/
def annotationsChanged (old new : StringMap) : Bool := valuesChanged old new

/-- `labelsChanged`; `predicates.go:150-160`. -/
def labelsChanged (old new : StringMap) : Bool := valuesChanged old new

/-- A filter that passes an update when the generation changed or one of the maps of the
metadata did. -/
def changedOrGeneration (changed : StringMap → StringMap → Bool)
    (field : ObjectMeta → StringMap) : Funcs where
  updateFunc e :=
    if e.objectNew.generation ≠ e.objectOld.generation then true
    else changed (field e.objectOld) (field e.objectNew)

/-- `AnnotationChangedOrGeneration`; `predicates.go:46-68`. -/
def annotationChangedOrGeneration : Funcs :=
  changedOrGeneration annotationsChanged ObjectMeta.annotations

/-- `LabelChangedOrGeneration`; `predicates.go:70-90`. -/
def labelChangedOrGeneration : Funcs := changedOrGeneration labelsChanged ObjectMeta.labels

/-- `AnnotationFailoverTarget`; `ha.go:31`. -/
def annotationFailoverTarget : GoString := lit "pg.athos.io/failover-target"

/-- `AnnotationSwitchoverTarget`; `ha.go:35`. -/
def annotationSwitchoverTarget : GoString := lit "pg.athos.io/switchover-target"

/-- `FailoverRequested`: the keys count, whatever their values; `ha.go:97-105`. -/
def failoverRequested (cluster : ObjectMeta) : Bool :=
  cluster.annotations.contains annotationFailoverTarget ||
    cluster.annotations.contains annotationSwitchoverTarget

section

variable {field : ObjectMeta → StringMap} {e : UpdateEvent}

/-- What changed between the two objects, as far as a filter is concerned. -/
def Differs (field : ObjectMeta → StringMap) (e : UpdateEvent) : Prop :=
  e.objectNew.generation ≠ e.objectOld.generation ∨ field e.objectOld ≠ field e.objectNew

private theorem updateFunc_eq_false_iff :
    (changedOrGeneration valuesChanged field).updateFunc e = false ↔
      e.objectNew.generation = e.objectOld.generation ∧
        (field e.objectOld = field e.objectNew ∨
          SwapsEmptyKeys (field e.objectOld) (field e.objectNew)) := by
  rw [← valuesChanged_eq_false_iff]
  dsimp only [changedOrGeneration]
  split_ifs with h
  · simp [h]
  · simp [not_not.1 h]

private theorem updateFunc_exact_iff :
    ((changedOrGeneration valuesChanged field).updateFunc e = true ↔ Differs field e) ↔
      e.objectNew.generation ≠ e.objectOld.generation ∨
        ¬ SwapsEmptyKeys (field e.objectOld) (field e.objectNew) := by
  rw [← Bool.not_eq_false, updateFunc_eq_false_iff, Differs]
  by_cases hgen : e.objectNew.generation = e.objectOld.generation
  · by_cases hswap : SwapsEmptyKeys (field e.objectOld) (field e.objectNew)
    · simp [hgen, hswap, hswap.ne]
    · simp [hgen, hswap]
  · simp [hgen]

/-- The comparisons are exact but where empty values are at stake. -/
theorem comparisons_exact_iff (a b got want : StringMap) (e : UpdateEvent) :
    ((equal a b = true ↔ a = b) ↔ ¬ SwapsEmptyKeys a b) ∧
      ((hasAll got want = true ↔ Includes got want) ↔ ¬ LacksEmptyKeys got want) ∧
      ((annotationChangedOrGeneration.updateFunc e = true ↔ Differs ObjectMeta.annotations e) ↔
        e.objectNew.generation ≠ e.objectOld.generation ∨
          ¬ SwapsEmptyKeys e.objectOld.annotations e.objectNew.annotations) ∧
      ((labelChangedOrGeneration.updateFunc e = true ↔ Differs ObjectMeta.labels e) ↔
        e.objectNew.generation ≠ e.objectOld.generation ∨
          ¬ SwapsEmptyKeys e.objectOld.labels e.objectNew.labels) := by
  refine ⟨?_, ?_, updateFunc_exact_iff, updateFunc_exact_iff⟩
  · rw [equal_eq_true_iff]
    by_cases hswap : SwapsEmptyKeys a b
    · simp [hswap, hswap.ne]
    · simp [hswap]
  · rw [hasAll_eq_true_iff]
    by_cases hlack : LacksEmptyKeys got want
    · simp [hlack, hlack.not_includes]
    · simp [hlack]

/-- A cluster with one annotation, which is empty. -/
def annotated (key : GoString) : ObjectMeta where
  name := lit "main"
  namespace_ := lit "db"
  generation := 1
  annotations := mapOf [(key, [])]

/-- An empty note makes way for an empty failover request, and the update is dropped; the two
sets are found equal, and the empty set is found to have a pair. -/
theorem failover_request_dropped :
    failoverRequested (annotated (lit "note")) = false ∧
      failoverRequested (annotated annotationFailoverTarget) = true ∧
      annotationChangedOrGeneration.updateFunc
        ⟨annotated (lit "note"), annotated annotationFailoverTarget⟩ = false ∧
      Differs ObjectMeta.annotations
        ⟨annotated (lit "note"), annotated annotationFailoverTarget⟩ ∧
      equal (mapOf [(lit "a", [])]) (mapOf [(lit "b", [])]) = true ∧
      mapOf [(lit "a", [])] ≠ mapOf [(lit "b", [])] ∧
      hasAll (mapOf []) (mapOf [(lit "a", [])]) = true ∧
      ¬ Includes (mapOf []) (mapOf [(lit "a", [])]) := by
  refine ⟨by decide, by decide, by decide, .inr (by decide), by decide, by decide, by decide, ?_⟩
  intro h
  exact absurd (h (lit "a") [] (by decide)) (by decide)

end

end Athos.Predicates
