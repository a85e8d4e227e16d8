import Athos.Base.GoString
import Mathlib.Data.Finset.Sort

/-!
# JSON values and merge patches

A JSON object is a finite set of keys with a value for each, so that two objects are equal exactly
if they have the same entries. Numbers are a parameter. Merge patches are those of RFC 7396.
-/

namespace Athos.Base

/-- JSON values over a type of numbers. -/
inductive Json (F : Type) where
  | null
  | bool (b : Bool)
  | num (x : F)
  | str (s : GoString)
  | arr (length : Nat) (items : Fin length → Json F)
  | obj (keys : Finset GoString) (vals : {k // k ∈ keys} → Json F)

/-- JSON objects. -/
structure JsonObject (F : Type) where
  keys : Finset GoString
  vals : {k // k ∈ keys} → Json F

variable {F : Type}

/-- The value of an object. -/
def JsonObject.toJson (o : JsonObject F) : Json F := .obj o.keys o.vals

namespace JsonObject

/-- The value of a key. -/
def get? (o : JsonObject F) (k : GoString) : Option (Json F) :=
  if h : k ∈ o.keys then some (o.vals ⟨k, h⟩) else none

/-- The object with the entries that a function has on a set of keys. -/
def ofFun (keys : Finset GoString) (f : GoString → Option (Json F)) : JsonObject F where
  keys := keys.filter fun k => (f k).isSome
  vals k := (f k).get (Finset.mem_filter.1 k.2).2

instance : EmptyCollection (JsonObject F) := ⟨⟨∅, fun k => absurd k.2 (Finset.notMem_empty _)⟩⟩

section Lookup

variable {o o' : JsonObject F} {k : GoString} {keys : Finset GoString}

/-- The value of a key that an object has. -/
theorem get?_of_mem (h : k ∈ o.keys) : o.get? k = some (o.vals ⟨k, h⟩) := dif_pos h

/-- A key that an object lacks has no value. -/
theorem get?_of_not_mem (h : k ∉ o.keys) : o.get? k = none := dif_neg h

/-- A key with a value is one of the object. -/
theorem exists_of_get?_eq_some {v : Json F} (h : o.get? k = some v) :
    ∃ hk : k ∈ o.keys, o.vals ⟨k, hk⟩ = v := by
  rw [get?] at h
  split_ifs at h with hk
  exact ⟨hk, Option.some.inj h⟩

private theorem mem_keys_iff : k ∈ o.keys ↔ (o.get? k).isSome := by
  rw [get?]
  split_ifs with h
  · exact iff_of_true h rfl
  · exact iff_of_false h Bool.false_ne_true

/-- The empty object has no values. -/
@[simp] theorem get?_empty : (∅ : JsonObject F).get? k = none :=
  get?_of_not_mem (Finset.notMem_empty k)

/-- The values of an object that a function gives. -/
theorem get?_ofFun (f : GoString → Option (Json F)) :
    (ofFun keys f).get? k = if k ∈ keys then f k else none := by
  by_cases hk : k ∈ keys
  · rw [if_pos hk]
    cases hf : f k with
    | none =>
      apply get?_of_not_mem
      intro h
      have hsome := (Finset.mem_filter.1 h).2
      rw [hf] at hsome
      cases hsome
    | some v =>
      have h : k ∈ (ofFun keys f).keys := Finset.mem_filter.2 ⟨hk, by rw [hf]; rfl⟩
      rw [get?_of_mem h, ← hf]
      exact Option.some_get _
  · rw [if_neg hk]
    apply get?_of_not_mem
    intro h
    exact hk (Finset.mem_filter.1 h).1

/-- Objects with the same values are equal. -/
theorem ext_get? (h : ∀ k, o.get? k = o'.get? k) : o = o' := by
  have hkeys : o.keys = o'.keys := by
    ext k
    rw [mem_keys_iff, mem_keys_iff, h]
  obtain ⟨keys, vals⟩ := o
  obtain ⟨keys', vals'⟩ := o'
  obtain rfl : keys = keys' := hkeys
  congr
  ext1 ⟨k, hk⟩
  have hval := h k
  rw [get?_of_mem hk, get?_of_mem hk] at hval
  exact Option.some.inj hval

/-- The empty object is the one without keys. -/
theorem eq_empty_iff : o = ∅ ↔ o.keys = ∅ := by
  constructor
  · rintro rfl
    rfl
  · intro h
    apply ext_get?
    intro k
    rw [get?_empty]
    apply get?_of_not_mem
    rw [h]
    exact Finset.notMem_empty k

/-- Objects that are the same value are the same object. -/
theorem toJson_injective (h : o.toJson = o'.toJson) : o = o' := by
  cases o
  cases o'
  cases h
  rfl

end Lookup

end JsonObject

/-- No null at any depth. -/
def Json.NoNull : Json F → Prop
  | .null => False
  | .arr _ items => ∀ i, (items i).NoNull
  | .obj _ vals => ∀ k, (vals k).NoNull
  | _ => True

/-- The object a patch is applied to: the target, or an empty one if it is no object. -/
def Json.objectOrEmpty : Option (Json F) → JsonObject F
  | some (.obj keys vals) => ⟨keys, vals⟩
  | _ => ∅

/-- `MergePatch` of RFC 7396. The target is what the patch is applied to, if there is
something. -/
def Json.mergePatch (target : Option (Json F)) : Json F → Json F
  | .obj keys vals =>
    let object := objectOrEmpty target
    (JsonObject.ofFun (object.keys ∪ keys) fun k =>
      if h : k ∈ keys then
        match vals ⟨k, h⟩ with
        | .null => none
        | _ => some ((vals ⟨k, h⟩).mergePatch (object.get? k))
      else object.get? k).toJson
  | patch => patch

/-- What becomes of an entry: it stays if the patch does not have the key, and null removes
it. -/
def Json.patchEntry (target : Option (Json F)) : Option (Json F) → Option (Json F)
  | none => target
  | some .null => none
  | some patch => some (patch.mergePatch target)

/-- A patch applied to an object. -/
def JsonObject.mergePatch (target patch : JsonObject F) : JsonObject F :=
  .ofFun (target.keys ∪ patch.keys) fun k => Json.patchEntry (target.get? k) (patch.get? k)

section MergePatch

variable {target patch : JsonObject F}

/-- A merge patch works key by key. -/
theorem JsonObject.get?_mergePatch (k : GoString) :
    (target.mergePatch patch).get? k = Json.patchEntry (target.get? k) (patch.get? k) := by
  rw [mergePatch, get?_ofFun]
  split_ifs with hk
  · rfl
  · rw [Finset.mem_union, not_or] at hk
    rw [get?_of_not_mem hk.1, get?_of_not_mem hk.2]
    rfl

/-- The empty patch changes nothing. -/
theorem JsonObject.mergePatch_empty (target : JsonObject F) : target.mergePatch ∅ = target := by
  apply ext_get?
  intro k
  rw [get?_mergePatch, get?_empty]
  rfl

/-- Values are patched like objects. -/
theorem Json.mergePatch_toJson (patch : JsonObject F) (value : Option (Json F)) :
    patch.toJson.mergePatch value = ((objectOrEmpty value).mergePatch patch).toJson := by
  rw [JsonObject.toJson, mergePatch]
  congr 2
  ext1 k
  split_ifs with h
  · rw [JsonObject.get?_of_mem (o := patch) h]
    cases patch.vals ⟨k, h⟩ <;> rfl
  · rw [JsonObject.get?_of_not_mem (o := patch) h]
    rfl

/-- A patch without null replaces what is no object. -/
theorem Json.mergePatch_of_noNull {value : Json F} (h : value.NoNull) {target : Option (Json F)}
    (htarget : objectOrEmpty target = ∅) : value.mergePatch target = value := by
  induction value generalizing target with
  | null => rfl
  | bool b => rfl
  | num x => rfl
  | str s => rfl
  | arr length items => rfl
  | obj keys vals ih =>
    have hmerge := Json.mergePatch_toJson ⟨keys, vals⟩ target
    rw [JsonObject.toJson] at hmerge
    rw [hmerge, htarget]
    suffices (∅ : JsonObject F).mergePatch ⟨keys, vals⟩ = ⟨keys, vals⟩ by
      rw [this]
      rfl
    apply JsonObject.ext_get?
    intro k
    rw [JsonObject.get?_mergePatch, JsonObject.get?_empty]
    by_cases hk : k ∈ keys
    · have hnull := h ⟨k, hk⟩
      have hself := @ih ⟨k, hk⟩ hnull none rfl
      rw [JsonObject.get?_of_mem (o := ⟨keys, vals⟩) hk]
      simp only
      cases hv : vals ⟨k, hk⟩ <;> rw [hv] at hnull hself
      case null => cases hnull
      all_goals exact congrArg some hself
    · rw [JsonObject.get?_of_not_mem (o := ⟨keys, vals⟩) hk]
      rfl

end MergePatch

end Athos.Base
