import Athos.Base.GoString
import Mathlib.Algebra.Group.Int.Defs

/-!
# Kubernetes object metadata

The parts of `k8s.io/apimachinery/pkg/apis/meta/v1` that the operator reads or writes. Fields that
it never looks at travel together as `Fields`, so that a result can still say that they are kept.
-/

namespace Athos.Kube

open Base List Std.ExtTreeMap

/-- A `map[string]string`: one value per key, equal exactly when all lookups agree. -/
abbrev StringMap := Std.ExtTreeMap GoString GoString

instance : DecidableEq StringMap := inferInstance

/-- A map literal; later entries win. -/
def mapOf (entries : List (GoString × GoString)) : StringMap := Std.ExtTreeMap.ofList entries

/-- API fields the operator neither reads nor writes, in serialised form. -/
abbrev Fields := List (GoString × GoString)

/-- A `metav1.Time` as it is stored: whole seconds. -/
abbrev Time := Int

/-- The key of a namespaced object. -/
structure NamespacedName where
  namespace_ : GoString
  name : GoString
  deriving DecidableEq

/-- `metav1.OwnerReference`. -/
structure OwnerReference where
  apiVersion : GoString
  kind : GoString
  name : GoString
  uid : GoString
  controller : Option Bool
  blockOwnerDeletion : Option Bool
  deriving DecidableEq

/-- `metav1.ObjectMeta`. Resource versions are opaque to clients; here they are the
revision of the write that produced the object. -/
structure ObjectMeta where
  name : GoString
  namespace_ : GoString
  uid : GoString := []
  resourceVersion : Nat := 0
  generation : Int := 0
  labels : StringMap := ∅
  annotations : StringMap := ∅
  finalizers : List GoString := []
  ownerReferences : List OwnerReference := []
  deletionTimestamp : Option Time := none
  unmanaged : Fields := []
  deriving DecidableEq

/-- The key under which the API server stores an object. -/
def ObjectMeta.key (m : ObjectMeta) : NamespacedName := ⟨m.namespace_, m.name⟩

/-- `metav1.ConditionStatus`, which is a string. -/
structure ConditionStatus where
  text : GoString
  deriving DecidableEq

namespace ConditionStatus

/-- `metav1.ConditionTrue`. -/
def true : ConditionStatus := ⟨lit "True"⟩

/-- `metav1.ConditionFalse`. -/
def false : ConditionStatus := ⟨lit "False"⟩

/-- The two differ. -/
@[simp] theorem true_ne_false : true ≠ false := by decide

/-- The two differ. -/
@[simp] theorem false_ne_true : false ≠ true := by decide

end ConditionStatus

/-- `metav1.Condition`. -/
structure Condition where
  type : GoString
  status : ConditionStatus
  observedGeneration : Int
  lastTransitionTime : Time
  reason : GoString
  message : GoString
  deriving DecidableEq

/-- `metav1.LabelSelector` restricted to `matchLabels`, the only form the operator builds. -/
structure LabelSelector where
  matchLabels : StringMap
  deriving DecidableEq

/-- `intstr.IntOrString`. -/
inductive IntOrString where
  | int (value : Int)
  | string (value : GoString)
  deriving DecidableEq

/-- `resource.Quantity`: the exact value in units of 10⁻⁹; the notation it was written
in is not kept. -/
structure Quantity where
  nano : Int
  deriving DecidableEq

/-- A quantity with a binary suffix, such as `10Gi`. -/
def Quantity.ofBinary (value : Int) (exponent : Nat) : Quantity :=
  ⟨value * 2 ^ exponent * 1000000000⟩

/-- A quantity in thousandths, such as `50m`. -/
def Quantity.ofMilli (value : Int) : Quantity := ⟨value * 1000000⟩

/-- `corev1.ResourceList`. -/
abbrev ResourceList := Std.ExtTreeMap GoString Quantity

/-- `corev1.ResourceRequirements`. -/
structure ResourceRequirements where
  limits : ResourceList := ∅
  requests : ResourceList := ∅
  unmanaged : Fields := []
  deriving DecidableEq

/-- `controllerutil.ContainsFinalizer`. -/
def containsFinalizer (m : ObjectMeta) (f : GoString) : Bool := m.finalizers.contains f

/-- `controllerutil.AddFinalizer`: append when absent. -/
def addFinalizer (m : ObjectMeta) (f : GoString) : ObjectMeta :=
  if m.finalizers.contains f then m else { m with finalizers := m.finalizers ++ [f] }

/-- An absent finalizer is appended. -/
theorem addFinalizer_of_not_contains {m : ObjectMeta} {f : GoString}
    (h : (!containsFinalizer m f) = true) :
    addFinalizer m f = { m with finalizers := m.finalizers ++ [f] } :=
  if_neg (by rw [Bool.not_eq_true]; exact Bool.not_eq_eq_eq_not.1 h)

/-- `controllerutil.RemoveFinalizer`: every occurrence goes, the order of the others stays. -/
def removeFinalizer (m : ObjectMeta) (f : GoString) : ObjectMeta :=
  { m with finalizers := m.finalizers.filter (· != f) }

/-- Removing a finalizer removes all of it and nothing else. -/
theorem mem_removeFinalizer {m : ObjectMeta} {f g : GoString} :
    g ∈ (removeFinalizer m f).finalizers ↔ g ∈ m.finalizers ∧ g ≠ f := by
  simp only [removeFinalizer, List.mem_filter, bne_iff_ne]

/-- A label selector matches a label set that has all its pairs. -/
def StringMap.matches (selector labels : StringMap) : Bool :=
  selector.toList.all fun p => labels[p.1]? == some p.2

section Maps

variable {l : List (GoString × GoString)} {k v : GoString} {labels : StringMap}

private theorem pairwise_of_nodup (hd : (l.map Prod.fst).Nodup) :
    l.Pairwise fun a b => ¬ compare a.1 b.1 = .eq := by
  refine (pairwise_map.1 hd).imp fun hne he => hne ?_
  exact Std.LawfulEqCmp.eq_of_compare he

/-- The entries of a map literal with distinct keys. -/
theorem getElem?_mapOf (hd : (l.map Prod.fst).Nodup) : (mapOf l)[k]? = some v ↔ (k, v) ∈ l := by
  constructor
  · intro h
    by_cases hk : k ∈ l.map Prod.fst
    · obtain ⟨⟨k', v'⟩, hmem, rfl⟩ := List.mem_map.1 hk
      have hv := getElem?_ofList_of_mem (Std.ReflCmp.compare_self)
        (pairwise_of_nodup hd) hmem
      rw [mapOf, hv, Option.some.injEq] at h
      rwa [← h]
    · have hcont : (l.map Prod.fst).contains k = false := by simpa using hk
      rw [mapOf, getElem?_ofList_of_contains_eq_false hcont] at h
      cases h
  · intro hmem
    exact getElem?_ofList_of_mem Std.ReflCmp.compare_self (pairwise_of_nodup hd) hmem

/-- A map lists each of its keys once. -/
theorem nodup_keys_toList {α : Type} (m : Std.ExtTreeMap GoString α) :
    (m.toList.map Prod.fst).Nodup := by
  rw [List.Nodup, pairwise_map]
  apply distinct_keys_toList.imp
  rintro p q hne heq
  apply hne
  rw [heq]
  exact Std.ReflCmp.compare_self

/-- A map is made of its entries. -/
theorem mapOf_toList (m : StringMap) : mapOf m.toList = m := by
  apply Std.ExtTreeMap.ext_getElem?
  intro k
  apply Option.ext
  intro v
  rw [getElem?_mapOf (nodup_keys_toList m), mem_toList_iff_getElem?_eq_some]

private theorem mapOf_concat (l : List (GoString × GoString)) (p : GoString × GoString) :
    mapOf (l ++ [p]) = (mapOf l).insert p.1 p.2 := by
  rw [mapOf, mapOf, ofList_eq_insertMany_empty, ofList_eq_insertMany_empty, insertMany_append]
  rfl

/-- An entry of a map is one of those it is made of, also if keys are repeated. -/
theorem mem_of_getElem?_mapOf (h : (mapOf l)[k]? = some v) : (k, v) ∈ l := by
  induction l using List.reverseRecOn with
  | nil => simp [mapOf] at h
  | append_singleton l p ih =>
    rw [mapOf_concat, Std.ExtTreeMap.getElem?_insert] at h
    split_ifs at h with hk
    · obtain rfl := Std.LawfulEqCmp.eq_of_compare hk
      obtain rfl := Option.some.inj h
      exact mem_append_right _ mem_cons_self
    · exact mem_append_left _ (ih h)

/-- The key of each entry has a value. -/
theorem exists_getElem?_mapOf (h : (k, v) ∈ l) : ∃ v', (mapOf l)[k]? = some v' := by
  have hmem : k ∈ mapOf l := by
    rw [mapOf, mem_ofList, List.contains_iff_mem]
    exact mem_map_of_mem h
  rw [mem_iff_isSome_getElem?] at hmem
  exact Option.isSome_iff_exists.1 hmem

/-- A selector given by distinct keys matches labels that have all its entries. -/
theorem matches_mapOf (hd : (l.map Prod.fst).Nodup) :
    (mapOf l).matches labels = true ↔ ∀ p ∈ l, labels[p.1]? = some p.2 := by
  simp only [StringMap.matches, all_eq_true, beq_iff_eq]
  constructor
  · intro h p hp
    exact h p (mem_toList_iff_getElem?_eq_some.2 ((getElem?_mapOf hd).2 hp))
  · intro h p hp
    exact h p ((getElem?_mapOf hd).1 (mem_toList_iff_getElem?_eq_some.1 hp))

end Maps

/-- `metav1.GetControllerOf`: the first reference marked as controller. -/
def controllerOf (m : ObjectMeta) : Option OwnerReference :=
  m.ownerReferences.find? fun r => r.controller == some true

end Athos.Kube
