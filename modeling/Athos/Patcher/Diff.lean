import Athos.Base.Json

/-!
# Differences as merge patches

`diffMaps` of `src/internal/patcher/patcher.go`. Values that are not both objects are compared by
what the `%v` verb prints, which does not tell all of them apart.
-/

namespace Athos.Patcher

open Base JsonObject

variable {F : Type} (format : F → GoString)

/-- Texts with blanks between them. -/
def joinBlank (parts : List GoString) : GoString := List.intercalate (lit " ") parts

/-- `fmt.Sprintf("%v", value)`; maps are printed in the order of their keys. -/
def sprintV : Json F → GoString
  | .null => lit "<nil>"
  | .bool b => if b then lit "true" else lit "false"
  | .num x => format x
  | .str s => s
  | .arr _ items => lit "[" ++ joinBlank (List.ofFn fun i => sprintV (items i)) ++ lit "]"
  | .obj keys vals =>
    lit "map[" ++ joinBlank (List.pmap (fun k h => k ++ lit ":" ++ sprintV (vals ⟨k, h⟩))
      (keys.sort (· ≤ ·)) fun _ h => (Finset.mem_sort _).1 h) ++ lit "]"

/-- The patch of an object, by what the loop over the keys of the modified object does with each
of them. Keys that only the original has are null. -/
def patchOf (original modified : JsonObject F)
    (entry : (k : GoString) → k ∈ modified.keys → Option (Json F)) : JsonObject F :=
  .ofFun (original.keys ∪ modified.keys) fun k =>
    if h : k ∈ modified.keys then entry k h else some .null

/-- The body of the loop: what the patch has for a key; `patcher.go:143-161`. -/
def diffValue (origVal : Option (Json F)) : Json F → Option (Json F)
  | .obj modKeys modVals =>
    match origVal with
    | none => some (.obj modKeys modVals)
    | some (.obj origKeys origVals) =>
      let original : JsonObject F := ⟨origKeys, origVals⟩
      let sub := patchOf original ⟨modKeys, modVals⟩ fun k h =>
        diffValue (original.get? k) (modVals ⟨k, h⟩)
      if sub.keys.card > 0 then some sub.toJson else none
    | some v =>
      if sprintV format v ≠ sprintV format (.obj modKeys modVals) then
        some (.obj modKeys modVals) else none
  | modVal =>
    match origVal with
    | none => some modVal
    | some v => if sprintV format v ≠ sprintV format modVal then some modVal else none

/-- `diffMaps`; `patcher.go:141-169`. -/
def diffMaps (original modified : JsonObject F) : JsonObject F :=
  patchOf original modified fun k h => diffValue format (original.get? k) (modified.vals ⟨k, h⟩)

/-- `Patch`, as far as the request: the patch that is sent, if one is; `patcher.go:63-83`. The
objects are those that `json.Unmarshal` decodes from the marshalled ones, where every number is a
`float64`. -/
def patchRequest (base modified : JsonObject F) : Option (JsonObject F) :=
  let patch := diffMaps format base modified
  if patch.keys = ∅ then none else some patch

/-- Where the originals and the modified values are not both objects, those that print alike
are the same. -/
def PrintsApart : Json F → Json F → Prop
  | .obj origKeys origVals, .obj modKeys modVals =>
    ∀ k (h : k ∈ origKeys) (h' : k ∈ modKeys), PrintsApart (origVals ⟨k, h⟩) (modVals ⟨k, h'⟩)
  | v, w => sprintV format v = sprintV format w → v = w

section Pairs

variable {format} {v w : Json F} {original modified : JsonObject F}

/-- Both values are objects. -/
def BothObjects (v w : Json F) : Prop :=
  ∃ original modified : JsonObject F, v = original.toJson ∧ w = modified.toJson

private theorem diffValue_none (w : Json F) : diffValue format none w = some w := by
  cases w <;> rfl

private theorem diffValue_toJson (original modified : JsonObject F) :
    diffValue format (some original.toJson) modified.toJson =
    if (diffMaps format original modified).keys.card > 0 then
      some (diffMaps format original modified).toJson else none := rfl

private theorem diffValue_of_not_both (h : ¬ BothObjects v w) : diffValue format (some v) w =
    if sprintV format v ≠ sprintV format w then some w else none := by
  cases w with
  | obj modKeys modVals =>
    cases v with
    | obj origKeys origVals => exact absurd ⟨⟨_, _⟩, ⟨_, _⟩, rfl, rfl⟩ h
    | _ => rfl
  | _ => rfl

private theorem printsApart_toJson : PrintsApart format original.toJson modified.toJson ↔
    ∀ k v w, original.get? k = some v → modified.get? k = some w → PrintsApart format v w := by
  constructor
  · intro h k v w hv hw
    obtain ⟨hk, rfl⟩ := exists_of_get?_eq_some hv
    obtain ⟨hk', rfl⟩ := exists_of_get?_eq_some hw
    exact h k hk hk'
  · intro h k hk hk'
    exact h k _ _ (get?_of_mem hk) (get?_of_mem hk')

private theorem printsApart_of_not_both (h : ¬ BothObjects v w) :
    PrintsApart format v w ↔ (sprintV format v = sprintV format w → v = w) := by
  cases v with
  | obj origKeys origVals =>
    cases w with
    | obj modKeys modVals => exact absurd ⟨⟨_, _⟩, ⟨_, _⟩, rfl, rfl⟩ h
    | _ => rfl
  | _ => cases w <;> rfl

private theorem get?_diffMaps (k : GoString) : (diffMaps format original modified).get? k =
    match modified.get? k with
    | some w => diffValue format (original.get? k) w
    | none => (original.get? k).map fun _ => .null := by
  rw [diffMaps, patchOf, get?_ofFun]
  by_cases hm : k ∈ modified.keys
  · rw [if_pos (Finset.mem_union_right _ hm), dif_pos hm, get?_of_mem hm]
  · rw [dif_neg hm, get?_of_not_mem hm]
    by_cases ho : k ∈ original.keys
    · rw [if_pos (Finset.mem_union_left _ ho), get?_of_mem ho]
      rfl
    · rw [if_neg (by simp [ho, hm]), get?_of_not_mem ho]
      rfl

private theorem diffValue_self (w : Json F) : diffValue format (some w) w = none := by
  induction w with
  | obj keys vals ih =>
    have hempty : diffMaps format ⟨keys, vals⟩ ⟨keys, vals⟩ = ∅ := by
      apply ext_get?
      intro k
      rw [get?_diffMaps, get?_empty]
      by_cases hk : k ∈ keys
      · rw [get?_of_mem (o := ⟨keys, vals⟩) hk]
        exact ih ⟨k, hk⟩
      · rw [get?_of_not_mem (o := ⟨keys, vals⟩) hk]
        rfl
    have hdiff := @diffValue_toJson F format ⟨keys, vals⟩ ⟨keys, vals⟩
    rw [hempty] at hdiff
    exact hdiff
  | _ =>
    rw [diffValue_of_not_both]
    · exact if_neg (not_not.2 rfl)
    · rintro ⟨_, _, h, -⟩
      cases h

private theorem diffMaps_self (o : JsonObject F) : diffMaps format o o = ∅ := by
  apply ext_get?
  intro k
  rw [get?_diffMaps, get?_empty]
  cases o.get? k with
  | none => rfl
  | some w => exact diffValue_self w

end Pairs

section Applying

variable {format} {v w : Json F} {original modified : JsonObject F}

private theorem patchEntry_toJson :
    Json.patchEntry (some original.toJson)
        (diffValue format (some original.toJson) modified.toJson) =
      some (original.mergePatch (diffMaps format original modified)).toJson := by
  rw [diffValue_toJson]
  split_ifs with hcard
  · exact congrArg some (Json.mergePatch_toJson _ _)
  · have hkeys := Finset.card_eq_zero.1 (Nat.eq_zero_of_not_pos hcard)
    rw [eq_empty_iff.2 hkeys, mergePatch_empty]
    rfl

private theorem patchEntry_toJson_iff (original modified : JsonObject F) :
    Json.patchEntry (some original.toJson)
        (diffValue format (some original.toJson) modified.toJson) = some modified.toJson ↔
      original.mergePatch (diffMaps format original modified) = modified := by
  rw [patchEntry_toJson, Option.some_inj]
  exact ⟨fun h => toJson_injective h, congrArg _⟩

private theorem mergePatch_diffMaps_iff :
    original.mergePatch (diffMaps format original modified) = modified ↔
      ∀ k w, modified.get? k = some w →
        Json.patchEntry (original.get? k) (diffValue format (original.get? k) w) = some w := by
  have hget : ∀ k, (original.mergePatch (diffMaps format original modified)).get? k =
      Json.patchEntry (original.get? k) ((diffMaps format original modified).get? k) :=
    get?_mergePatch
  constructor
  · intro h k w hw
    have hk := hget k
    rw [h, get?_diffMaps, hw] at hk
    exact hk.symm
  · intro h
    apply ext_get?
    intro k
    rw [hget, get?_diffMaps]
    cases hw : modified.get? k with
    | some w => exact h k w hw
    | none =>
      cases original.get? k with
      | none => rfl
      | some v => rfl

private theorem patchEntry_some (hnull : w.NoNull) (target : Option (Json F)) :
    Json.patchEntry target (some w) = some (w.mergePatch target) := by
  cases w with
  | null => cases hnull
  | _ => rfl

private theorem patchEntry_none (hnull : w.NoNull) :
    Json.patchEntry none (diffValue format none w) = some w := by
  rw [diffValue_none, patchEntry_some hnull, Json.mergePatch_of_noNull hnull rfl]

private theorem patchEntry_of_not_both (hnull : w.NoNull) (h : ¬ BothObjects v w) :
    Json.patchEntry (some v) (diffValue format (some v) w) = some w ↔ PrintsApart format v w := by
  rw [diffValue_of_not_both h, printsApart_of_not_both h]
  split_ifs with hprint
  · have hmerge : w.mergePatch (some v) = w := by
      cases w with
      | obj modKeys modVals =>
        cases v with
        | obj origKeys origVals => exact absurd ⟨⟨_, _⟩, ⟨_, _⟩, rfl, rfl⟩ h
        | _ => exact Json.mergePatch_of_noNull hnull rfl
      | _ => rfl
    rw [patchEntry_some hnull, hmerge]
    exact iff_of_true rfl fun heq => absurd heq hprint
  · rw [not_not] at hprint
    rw [forall_prop_of_true hprint]
    exact Option.some_inj

private theorem mergePatch_diffMaps_iff_of_entries
    (hnull : ∀ k w, modified.get? k = some w → w.NoNull)
    (hentry : ∀ k w, modified.get? k = some w → ∀ v,
      Json.patchEntry (some v) (diffValue format (some v) w) = some w ↔ PrintsApart format v w) :
    original.mergePatch (diffMaps format original modified) = modified ↔
      PrintsApart format original.toJson modified.toJson := by
  rw [mergePatch_diffMaps_iff, printsApart_toJson]
  constructor
  · intro h k v w hv hw
    have hk := h k w hw
    rw [hv] at hk
    exact (hentry k w hw v).1 hk
  · intro h k w hw
    cases hv : original.get? k with
    | none => exact patchEntry_none (hnull k w hw)
    | some v => exact (hentry k w hw v).2 (h k v w hv hw)

/-- A value is reached unless the comparison takes the original for it. The induction is on the
modified value. -/
theorem patchEntry_diffValue_iff (hnull : w.NoNull) (v : Json F) :
    Json.patchEntry (some v) (diffValue format (some v) w) = some w ↔ PrintsApart format v w := by
  induction w generalizing v with
  | obj modKeys modVals ih =>
    cases v with
    | obj origKeys origVals =>
      let original : JsonObject F := ⟨origKeys, origVals⟩
      let modified : JsonObject F := ⟨modKeys, modVals⟩
      have hobject : original.mergePatch (diffMaps format original modified) = modified ↔
          PrintsApart format original.toJson modified.toJson := by
        apply mergePatch_diffMaps_iff_of_entries
        · intro k w hw
          obtain ⟨hk, rfl⟩ := exists_of_get?_eq_some hw
          exact hnull ⟨k, hk⟩
        · intro k w hw v
          obtain ⟨hk, rfl⟩ := exists_of_get?_eq_some hw
          exact ih ⟨k, hk⟩ (hnull ⟨k, hk⟩) v
      exact (patchEntry_toJson_iff original modified).trans hobject
    | _ =>
      apply patchEntry_of_not_both hnull
      rintro ⟨_, _, h, -⟩
      cases h
  | _ =>
    apply patchEntry_of_not_both hnull
    rintro ⟨_, _, -, h⟩
    cases h

private theorem settles_of_not_both (hnull : w.NoNull) (h : ¬ BothObjects v w) :
    ∃ u, Json.patchEntry (some v) (diffValue format (some v) w) = some u ∧
      diffValue format (some u) w = none := by
  by_cases hprint : sprintV format v = sprintV format w
  · have hnone : diffValue format (some v) w = none := by
      rw [diffValue_of_not_both h, if_neg (not_not.2 hprint)]
    exact ⟨v, by rw [hnone]; rfl, hnone⟩
  · have hapart := (printsApart_of_not_both h).2 fun heq => absurd heq hprint
    exact ⟨w, (patchEntry_of_not_both hnull h).2 hapart, diffValue_self w⟩

private theorem diffMaps_mergePatch (h : ∀ k w, modified.get? k = some w →
      ∃ u, Json.patchEntry (original.get? k) (diffValue format (original.get? k) w) = some u ∧
        diffValue format (some u) w = none) :
    diffMaps format (original.mergePatch (diffMaps format original modified)) modified = ∅ := by
  apply ext_get?
  intro k
  rw [get?_diffMaps, get?_mergePatch, get?_diffMaps, get?_empty]
  cases hw : modified.get? k with
  | none => cases original.get? k <;> rfl
  | some w =>
    obtain ⟨u, hu, hnone⟩ := h k w hw
    simp only [hu, hnone]

/-- A patched value does not differ, reached or not. The induction is on the modified value. -/
theorem patchEntry_settles (hnull : w.NoNull) (v : Option (Json F)) :
    ∃ u, Json.patchEntry v (diffValue format v w) = some u ∧
      diffValue format (some u) w = none := by
  cases v with
  | none => exact ⟨w, patchEntry_none hnull, diffValue_self w⟩
  | some v =>
    induction w generalizing v with
    | obj modKeys modVals ih =>
      cases v with
      | obj origKeys origVals =>
        let original : JsonObject F := ⟨origKeys, origVals⟩
        let modified : JsonObject F := ⟨modKeys, modVals⟩
        have hempty : diffMaps format (original.mergePatch (diffMaps format original modified))
            modified = ∅ := by
          apply diffMaps_mergePatch
          intro k w hw
          obtain ⟨hk, rfl⟩ := exists_of_get?_eq_some hw
          cases original.get? k with
          | none => exact ⟨_, patchEntry_none (hnull ⟨k, hk⟩), diffValue_self _⟩
          | some v => exact ih ⟨k, hk⟩ (hnull ⟨k, hk⟩) v
        have hentry : Json.patchEntry (some original.toJson)
          (diffValue format (some original.toJson) modified.toJson) = _ := patchEntry_toJson
        refine ⟨_, hentry, (diffValue_toJson _ modified).trans ?_⟩
        rw [hempty]
        rfl
      | _ =>
        apply settles_of_not_both hnull
        rintro ⟨_, _, h, -⟩
        cases h
    | _ =>
      apply settles_of_not_both hnull
      rintro ⟨_, _, -, h⟩
      cases h

end Applying

/-- The patch of an object without null takes the original to it and is empty for nothing else,
exactly if the values that are compared by their print are told apart by it. -/
theorem merge_patch_iff (format : F → GoString) (original modified : JsonObject F)
    (hnull : modified.toJson.NoNull) :
    (original.mergePatch (diffMaps format original modified) = modified ∧
      (diffMaps format original modified = ∅ ↔ original = modified) ∧
      (patchRequest format original modified = none ↔ original = modified)) ↔
      PrintsApart format original.toJson modified.toJson := by
  have hmerge : original.mergePatch (diffMaps format original modified) = modified ↔
      PrintsApart format original.toJson modified.toJson :=
    (patchEntry_toJson_iff original modified).symm.trans (patchEntry_diffValue_iff hnull _)
  have hrequest : patchRequest format original modified = none ↔
      diffMaps format original modified = ∅ := by
    rw [eq_empty_iff, patchRequest]
    split_ifs with hkeys
    · exact iff_of_true rfl hkeys
    · exact iff_of_false nofun hkeys
  rw [hrequest, and_self, ← hmerge]
  constructor
  · intro h
    exact h.1
  · intro h
    refine ⟨h, ?_, ?_⟩
    · intro hempty
      rw [hempty, mergePatch_empty] at h
      exact h
    · rintro rfl
      exact diffMaps_self original

/-- Patching comes to rest: whether or not the object was reached, a second patch towards the same
one makes no request. -/
theorem patch_settles (format : F → GoString) (original modified : JsonObject F)
    (hnull : modified.toJson.NoNull) :
    patchRequest format ((patchRequest format original modified).elim original original.mergePatch)
      modified = none := by
  have hstored : (patchRequest format original modified).elim original original.mergePatch =
      original.mergePatch (diffMaps format original modified) := by
    rw [patchRequest]
    split_ifs with hkeys
    · rw [eq_empty_iff.2 hkeys, mergePatch_empty]
      rfl
    · rfl
  rw [hstored, patchRequest, diffMaps_mergePatch]
  · rfl
  · intro k w hw
    obtain ⟨hk, rfl⟩ := exists_of_get?_eq_some hw
    exact patchEntry_settles (hnull ⟨k, hk⟩) _

/-- An object with one entry. -/
def sampleObject (key : GoString) (value : Json Nat) : JsonObject Nat := ⟨{key}, fun _ => value⟩

/-- The settings of a workload. -/
def sampleSettings (replicas : Nat) : JsonObject Nat where
  keys := {lit "image", lit "replicas"}
  vals k := if k.1 = lit "replicas" then .num replicas else .str (lit "postgres")

/-- A workload that is paused. -/
def samplePaused : JsonObject Nat where
  keys := {lit "paused", lit "spec"}
  vals k := if k.1 = lit "spec" then (sampleSettings 1).toJson else .bool true

/-- One key is removed, and one of two below another is changed. -/
theorem merge_patch_replicas :
    let resumed := sampleObject (lit "spec") (sampleSettings 3).toJson
    samplePaused.mergePatch (diffMaps decimalNat samplePaused resumed) = resumed ∧
      patchRequest decimalNat samplePaused resumed ≠ none := by
  intro resumed
  have hnull : resumed.toJson.NoNull := by
    intro _ k
    show (if k.1 = lit "replicas" then Json.num 3 else .str (lit "postgres")).NoNull
    split <;> trivial
  have hsettings : PrintsApart decimalNat (sampleSettings 1).toJson (sampleSettings 3).toJson := by
    intro k _ _
    show PrintsApart decimalNat (if k = lit "replicas" then .num 1 else .str (lit "postgres"))
      (if k = lit "replicas" then .num 3 else .str (lit "postgres"))
    have hne : decimalNat 1 ≠ decimalNat 3 := by decide
    split_ifs
    · exact fun h => absurd h hne
    · exact fun _ => rfl
  have hprint : PrintsApart decimalNat samplePaused.toJson resumed.toJson := by
    intro k _ hk
    obtain rfl := Finset.mem_singleton.1 hk
    exact hsettings
  obtain ⟨hmerge, -, hrequest⟩ := (merge_patch_iff decimalNat samplePaused resumed hnull).2 hprint
  refine ⟨hmerge, fun hnone => ?_⟩
  have hkeys : samplePaused.keys ≠ resumed.keys := by decide
  exact hkeys (congrArg keys (hrequest.1 hnone))

/-- A boolean and the string of its name are not told apart, and no request is made. -/
theorem merge_patch_misses_boolean :
    (sampleObject (lit "enabled") (.str (lit "true"))).toJson.NoNull ∧
      diffMaps decimalNat (sampleObject (lit "enabled") (.bool true))
        (sampleObject (lit "enabled") (.str (lit "true"))) = ∅ ∧
      patchRequest decimalNat (sampleObject (lit "enabled") (.bool true))
        (sampleObject (lit "enabled") (.str (lit "true"))) = none ∧
      sampleObject (lit "enabled") (.bool true) ≠
        sampleObject (lit "enabled") (.str (lit "true")) := by
  have hempty : diffMaps decimalNat (sampleObject (lit "enabled") (.bool true))
      (sampleObject (lit "enabled") (.str (lit "true"))) = ∅ := by
    rw [eq_empty_iff]
    decide
  refine ⟨fun _ => trivial, hempty, ?_, ?_⟩
  · rw [patchRequest, hempty]
    rfl
  · intro h
    have hval := congrArg (get? · (lit "enabled")) h
    rw [get?_of_mem (Finset.mem_singleton_self _),
      get?_of_mem (Finset.mem_singleton_self _)] at hval
    cases hval

/-- A number is changed once. -/
theorem patch_settles_replicas :
    let one := sampleObject (lit "replicas") (.num 1)
    let three := sampleObject (lit "replicas") (.num 3)
    patchRequest decimalNat ((patchRequest decimalNat one three).elim one one.mergePatch) three =
      none :=
  patch_settles decimalNat _ _ fun _ => trivial

end Athos.Patcher
