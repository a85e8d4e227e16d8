import Athos.Base.GoMap
import Athos.Kube.Meta

/-!
# Comparing label sets

`Equal` and `HasAll` of `src/internal/labels/labels.go`. Both loop over one set and read the other
at each key, where a missing key and an empty value look alike.
-/

namespace Athos.Labels

open Base Kube

/-- `Equal`; `labels.go:59-70`. -/
def equal (a b : StringMap) : Bool :=
  a.size == b.size && a.toList.all fun (k, v) => b.getD k [] == v

/-- `HasAll`; `labels.go:72-80`. -/
def hasAll (got want : StringMap) : Bool :=
  want.toList.all fun (k, v) => got.getD k [] == v

/-- Every pair of a set is a pair of another. -/
def Includes (got want : StringMap) : Prop :=
  ∀ (k : GoString) v, want[k]? = some v → got[k]? = some v

/-- The pairs of the second set are pairs of the first, but for some empty values whose keys the
first set does not have. -/
def LacksEmptyKeys (got want : StringMap) : Prop :=
  (∀ (k : GoString) v, want[k]? = some v → got[k]? = some v ∨ got[k]? = none ∧ v = []) ∧
    ∃ k : GoString, want[k]? = some [] ∧ got[k]? = none

/-- Label sets are equal where their values have not changed. -/
theorem equal_eq_true_iff {a b : StringMap} : equal a b = true ↔ a = b ∨ SwapsEmptyKeys a b := by
  have hnot : equal a b = !valuesChanged a b := by
    rw [equal, valuesChanged, Bool.not_or, bne, Bool.not_not, List.not_any_eq_all_not]
    simp only [bne, Bool.not_not]
  rw [hnot, Bool.not_eq_true', valuesChanged_eq_false_iff]

/-- Then a pair is missing. -/
theorem LacksEmptyKeys.not_includes {got want : StringMap} (h : LacksEmptyKeys got want) :
    ¬ Includes got want := by
  obtain ⟨-, k, hwant, hgot⟩ := h
  intro hall
  rw [hall k [] hwant] at hgot
  cases hgot

/-- `hasAll` overlooks no other missing pair. -/
theorem hasAll_eq_true_iff {got want : StringMap} :
    hasAll got want = true ↔ Includes got want ∨ LacksEmptyKeys got want := by
  have hiff : hasAll got want = true ↔
      ∀ (k : GoString) v, want[k]? = some v → got[k]? = some v ∨ got[k]? = none ∧ v = [] := by
    simp only [hasAll, List.all_eq_true, Prod.forall,
      Std.ExtTreeMap.mem_toList_iff_getElem?_eq_some, beq_iff_eq, getD_nil_eq_iff]
  rw [hiff]
  constructor
  · intro hentries
    by_cases hlack : ∃ k : GoString, want[k]? = some [] ∧ got[k]? = none
    · exact .inr ⟨hentries, hlack⟩
    · left
      intro k v hv
      rcases hentries k v hv with hsome | ⟨hnone, rfl⟩
      · exact hsome
      · exact absurd ⟨k, hv, hnone⟩ hlack
  · rintro (hall | ⟨hentries, -⟩)
    · exact fun k v hv => .inl (hall k v hv)
    · exact hentries

end Athos.Labels
