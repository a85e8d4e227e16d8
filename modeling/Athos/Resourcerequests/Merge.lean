import Athos.Base.GoMap
import Athos.Kube.Meta

/-!
# Resources with defaults

`Default` and `Merge` of `src/internal/resourcerequests/resourcerequests.go`. Requests and limits
are merged each for itself, so that a value given for one side meets the default of the other.
-/

namespace Athos.Resourcerequests

open Base Kube Option

/-- `corev1.ResourceCPU`. -/
def cpu : GoString := lit "cpu"

/-- `corev1.ResourceMemory`. -/
def memory : GoString := lit "memory"

/-- `Default`; `resourcerequests.go:37-50`, with the values of `resourcerequests.go:30-35`. -/
def default : ResourceRequirements where
  requests := ((∅ : ResourceList).insert cpu (.ofMilli 250)).insert memory (.ofBinary 256 20)
  limits := ((∅ : ResourceList).insert cpu (.ofMilli 1000)).insert memory (.ofBinary 1 30)

/-- The loop over one list of the overlay. -/
def mergeList (base overlay : ResourceList) : ResourceList :=
  overlay.toList.foldl (fun out (k, v) => if v.nano ≠ 0 then out.insert k v else out) base

/-- `Merge`; `resourcerequests.go:52-73`. -/
def merge (base overlay : ResourceRequirements) : ResourceRequirements :=
  { base with
    requests := mergeList base.requests overlay.requests
    limits := mergeList base.limits overlay.limits }

section

variable {base overlay : ResourceList} {k : GoString} {r l : Quantity}

/-- The value that a list overrides a default with; zero stands for none. -/
def override (overlay : ResourceList) (k : GoString) : Option Quantity :=
  overlay[k]?.filter fun v => v.nano ≠ 0

private theorem override_eq_some_iff :
    override overlay k = some r ↔ (k, r) ∈ overlay.toList.filter fun e => e.2.nano ≠ 0 := by
  rw [override, filter_eq_some_iff, List.mem_filter, Std.ExtTreeMap.mem_toList_iff_getElem?_eq_some]

private theorem getElem?_mergeList (base overlay : ResourceList) (k : GoString) :
    (mergeList base overlay)[k]? = (override overlay k).or base[k]? := by
  have hfold : mergeList base overlay =
      (overlay.toList.filter fun e => e.2.nano ≠ 0).foldl (fun m e => m.insert e.1 e.2) base := by
    rw [List.foldl_filter]
    simp [mergeList]
  have hnodup : ((overlay.toList.filter fun e => e.2.nano ≠ 0).map Prod.fst).Nodup :=
    (List.filter_sublist.map Prod.fst).nodup (nodup_keys_toList overlay)
  rw [hfold]
  cases hv : override overlay k with
  | some v => exact getElem?_foldl_of_mem hnodup (override_eq_some_iff.1 hv) base
  | none =>
    rw [none_or]
    apply getElem?_foldl_of_not_mem
    intro hk
    obtain ⟨⟨k', v⟩, hmem, rfl⟩ := List.mem_map.1 hk
    rw [override_eq_some_iff.2 hmem] at hv
    cases hv

end

section

variable {overlay : ResourceRequirements} {k : GoString}

/-- Every resource that has both a request and a limit has a request of at most the limit. -/
def Schedulable (requests limits : GoString → Option Quantity) : Prop :=
  ∀ k r l, requests k = some r → limits k = some l → r.nano ≤ l.nano

/-- The values given for one side only go with the defaults of the other. -/
structure FitsDefaults (overlay : ResourceRequirements) : Prop where
  request_le : ∀ k r l, override overlay.requests k = some r → override overlay.limits k = none →
    default.limits[k]? = some l → r.nano ≤ l.nano
  le_limit : ∀ k r l, override overlay.requests k = none → override overlay.limits k = some l →
    default.requests[k]? = some r → r.nano ≤ l.nano

private theorem schedulable_default :
    Schedulable (default.requests[·]?) (default.limits[·]?) := by
  intro k r l hr hl
  simp only [default, Std.ExtTreeMap.getElem?_insert, Std.ExtTreeMap.getElem?_empty] at hr hl
  split_ifs at hr hl with hmemory hcpu
  · cases hr
    cases hl
    decide
  · cases hr
    cases hl
    decide

/-- Merged resources are schedulable if the overlay is, and fits the defaults. -/
theorem merge_schedulable_iff (overlay : ResourceRequirements)
    (h : Schedulable (override overlay.requests) (override overlay.limits)) :
    Schedulable ((merge default overlay).requests[·]?) ((merge default overlay).limits[·]?) ↔
      FitsDefaults overlay := by
  have hrequests : ∀ k, (merge default overlay).requests[k]? =
      (override overlay.requests k).or default.requests[k]? := getElem?_mergeList _ _
  have hlimits : ∀ k, (merge default overlay).limits[k]? =
      (override overlay.limits k).or default.limits[k]? := getElem?_mergeList _ _
  simp only [Schedulable, hrequests, hlimits]
  constructor
  · intro hmerged
    constructor
    · intro k r l hr hnone hl
      exact hmerged k r l (by rw [hr, some_or]) (by rw [hnone, none_or, hl])
    · intro k r l hnone hl hr
      exact hmerged k r l (by rw [hnone, none_or, hr]) (by rw [hl, some_or])
  · intro hfits k r l hr hl
    cases hr' : override overlay.requests k with
    | some r' =>
      rw [hr', some_or] at hr
      cases hl' : override overlay.limits k with
      | some l' =>
        rw [hl', some_or] at hl
        exact h k r l (hr'.trans hr) (hl'.trans hl)
      | none =>
        rw [hl', none_or] at hl
        exact hfits.request_le k r l (hr'.trans hr) hl' hl
    | none =>
      rw [hr', none_or] at hr
      cases hl' : override overlay.limits k with
      | some l' =>
        rw [hl', some_or] at hl
        exact hfits.le_limit k r l hr' (hl'.trans hl) hr
      | none =>
        rw [hl', none_or] at hl
        exact schedulable_default k r l hr hl

/-- An overlay with a memory request and nothing else. -/
def requestOnly (q : Quantity) : ResourceRequirements where
  requests := (∅ : ResourceList).insert memory q

private theorem override_requestOnly {q r : Quantity}
    (h : override (requestOnly q).requests k = some r) :
    k = memory ∧ r = q := by
  have hr := (filter_eq_some_iff.1 h).1
  simp only [requestOnly, Std.ExtTreeMap.getElem?_insert, Std.ExtTreeMap.getElem?_empty] at hr
  split_ifs at hr with hk
  · exact ⟨(Std.LawfulEqOrd.eq_of_compare hk).symm, (some.inj hr).symm⟩

private theorem schedulable_requestOnly (q : Quantity) :
    Schedulable (override (requestOnly q).requests) (override (requestOnly q).limits) :=
  fun _ _ _ _ hl => absurd (filter_eq_some_iff.1 hl).1 (by simp [requestOnly])

/-- A request below the default limit. -/
theorem small_request_schedulable :
    Schedulable (override (requestOnly (.ofBinary 512 20)).requests)
        (override (requestOnly (.ofBinary 512 20)).limits) ∧
      Schedulable ((merge default (requestOnly (.ofBinary 512 20))).requests[·]?)
        ((merge default (requestOnly (.ofBinary 512 20))).limits[·]?) := by
  refine ⟨schedulable_requestOnly _,
    (merge_schedulable_iff _ (schedulable_requestOnly _)).2 ⟨?_, ?_⟩⟩
  · intro k r l hr _ hl
    obtain ⟨rfl, rfl⟩ := override_requestOnly hr
    have hlimit : default.limits[memory]? = some (.ofBinary 1 30) := by decide
    obtain rfl := some.inj (hlimit.symm.trans hl)
    decide
  · intro k r l _ hl _
    exact absurd (filter_eq_some_iff.1 hl).1 (by simp [requestOnly])

/-- A request of two gibibytes comes with the default limit of one. -/
theorem large_request_exceeds_default :
    Schedulable (override (requestOnly (.ofBinary 2 30)).requests)
        (override (requestOnly (.ofBinary 2 30)).limits) ∧
      (merge default (requestOnly (.ofBinary 2 30))).requests[memory]? = some (.ofBinary 2 30) ∧
      (merge default (requestOnly (.ofBinary 2 30))).limits[memory]? = some (.ofBinary 1 30) ∧
      ¬ (Quantity.ofBinary 2 30).nano ≤ (Quantity.ofBinary 1 30).nano :=
  ⟨schedulable_requestOnly _, by decide, by decide, by decide⟩

end

end Athos.Resourcerequests
